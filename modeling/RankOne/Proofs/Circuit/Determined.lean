/-
  RankOne — the freedom of a prover comes from hints.

  * `Coherent.rule_cases`: a rule comes from an executed assignment or hint;
  * `Coherent.assign_determined`: the row of an assignment determines the target
    from the signals that the rule reads;
  * `satisfying_vectors_agree`: two vectors that satisfy all rows and agree on the
    main inputs and on the targets of hints agree on all signals.
-/
import RankOne.Gadget.Indicator
import RankOne.Proofs.Circuit.Meaning

namespace RankOne

/-- The rule asks a hint. -/
def Rule.isHint (r : Rule) : Bool :=
  match r.action with
  | .assign _ => false
  | .hint _ _ => true

namespace Circuit

section
variable {c : Circuit} {sts : List Statement} {w w' : Array Int}

/-- Where a rule comes from. -/
theorem Coherent.rule_cases (hc : c.Coherent sts) {r : Rule} (hr : r ∈ c.rules) :
    (∃ e, .assign r.origin r.target e ∈ sts ∧ r.action = .assign e) ∨
      ∃ h deps, .hint r.origin r.target h deps ∈ sts ∧ r.action = .hint h deps := by
  obtain ⟨st, hst, hrule⟩ := List.mem_filterMap.1 (hc.rules.mem_iff.1 hr)
  cases st with
  | assign => cases hrule; exact Or.inl ⟨_, hst, rfl⟩
  | constrain => cases hrule
  | hint => cases hrule; exact Or.inr ⟨_, _, hst, rfl⟩

theorem Coherent.target_mem (hc : c.Coherent sts) (hown : ∀ st ∈ sts, st.Own c) {r : Rule}
    (hr : r ∈ c.rules) : r.target ∈ c.signals := by
  rcases hc.rule_cases hr with ⟨e, hst, -⟩ | ⟨h, deps, hst, -⟩
  · exact (hown _ hst).target _ rfl
  · exact (hown _ hst).target _ rfl

/-- The constant has the value one. -/
theorem Coherent.reading_one (hc : c.Coherent sts) (hw : c.Fits w) :
    c.reading w (Workspace.one c.field) = 1 := by
  rw [reading, hc.place 0 _ hc.first, Array.getD_eq_getD_getElem?, hw.one, Option.getD_some]

/-- The factors that count in an assigned expression are linear: its row was lowered. -/
theorem Coherent.assign_flat (hc : c.Coherent sts) {origin : String} {target : Signal} {e : Expr}
    (hst : .assign origin target e ∈ sts) :
    ∀ p ∈ e.liveProducts, p.1.products = [] ∧ p.2.products = [] := by
  obtain ⟨index, -, hrows⟩ := hc.rows
  have hmem : .assign origin target e ∈ sts.filter Statement.emitsRow :=
    List.mem_filter.2 ⟨hst, rfl⟩
  obtain ⟨k, hk⟩ := List.mem_iff_getElem?.1 hmem
  obtain ⟨r, -, row, hrow, hlow⟩ := forall₂_getElem? hrows.flip hk
  cases hrow with
  | assign hrow =>
    rw [← Expr.liveProducts_sub_ofSignal e target]
    obtain ⟨-, ⟨hl, -, -⟩ | hl⟩ := Expr.toRow_cases hrow
    · simp [hl]
    · rw [hl]
      rintro p hp
      rw [List.mem_singleton.1 hp]
      exact ⟨(Combination.ofExpr_eq_ok hlow.a).1, (Combination.ofExpr_eq_ok hlow.b).1⟩

/-- On a vector that satisfies all rows, the target of an assignment has the value
    assigned. -/
theorem Coherent.assign_equation (hc : c.Coherent sts) (hown : ∀ st ∈ sts, st.Own c)
    (hw : c.Fits w) (hsat : c.system.unsatisfiedRows w = .ok []) {origin : String}
    {target : Signal} {e : Expr} (hst : .assign origin target e ∈ sts) :
    e.value (c.element w) = c.element w target := by
  obtain ⟨index, hi, hrows⟩ := hc.rows
  have hmem : .assign origin target e ∈ sts.filter Statement.emitsRow :=
    List.mem_filter.2 ⟨hst, rfl⟩
  obtain ⟨k, hk⟩ := List.mem_iff_getElem?.1 hmem
  obtain ⟨r, hr, row, hrow, hlow⟩ := forall₂_getElem? hrows.flip hk
  obtain ⟨ok, hok, hiff⟩ := hc.assign_row hw hi (hown _ hst) hrow hlow
  have htrue := (hc.unsatisfiedRows_eq_nil hown hw).1 hsat r (List.mem_of_getElem? hr)
  rw [hok, Except.ok.injEq] at htrue
  exact hiff.1 htrue

/-- **A target of an assignment is determined by what its rule reads.** -/
theorem Coherent.assign_determined (hc : c.Coherent sts) (hown : ∀ st ∈ sts, st.Own c)
    (hw : c.Fits w) (hw' : c.Fits w') (hsat : c.system.unsatisfiedRows w = .ok [])
    (hsat' : c.system.unsatisfiedRows w' = .ok []) {origin : String} {target : Signal} {e : Expr}
    (hst : .assign origin target e ∈ sts) (h : ∀ s ∈ e.signals, c.element w s = c.element w' s) :
    c.element w target = c.element w' target := by
  rw [← hc.assign_equation hown hw hsat hst, ← hc.assign_equation hown hw' hsat' hst]
  exact Expr.value_congr (byUid_element c w) (byUid_element c w') (hc.assign_flat hst) h

/-- Agreement on the main inputs and on the targets of hints carries over to all
    signals, along the order of the rules. -/
theorem Coherent.element_eq (hc : c.Coherent sts) (hown : ∀ st ∈ sts, st.Own c)
    (hw : c.Fits w) (hw' : c.Fits w') (hsat : c.system.unsatisfiedRows w = .ok [])
    (hsat' : c.system.unsatisfiedRows w' = .ok [])
    (hinputs : ∀ s ∈ Witness.inputSignals c, c.element w s = c.element w' s)
    (hhints : ∀ r ∈ c.rules, r.isHint = true → c.element w r.target = c.element w' r.target) :
    ∀ s ∈ c.signals, c.element w s = c.element w' s := by
  refine hc.respects.induction (fun s hfree hs => ?_) fun r hr hreads s hu hs => ?_
  · rcases hc.cover s hs with rfl | hin | ⟨r, hr, hu⟩
    · rw [element, element, hc.reading_one hw, hc.reading_one hw']
    · exact hinputs s ((hc.inputs s).2 ⟨hs, hin⟩)
    · exact absurd (congrArg Signal.uid hu) (hfree r hr)
  · obtain rfl := hc.uid s hs _ (hc.target_mem hown hr) hu
    rcases hc.rule_cases hr with ⟨e, hst, ha⟩ | ⟨h, deps, -, ha⟩
    · refine hc.assign_determined hown hw hw' hsat hsat' hst fun s hs => hreads s ?_ ?_
      · rw [Rule.reads, ha]; exact hs
      · exact ((hown _ hst).exprs e List.mem_cons_self).signals s hs
    · exact hhints r hr (by rw [Rule.isHint, ha])

theorem element_eq_iff {s : Signal} :
    c.element w s = c.element w' s ↔ c.reading w s ≡ c.reading w' s [ZMOD c.field.p] :=
  ZMod.intCast_eq_intCast_iff _ _ _

/-- Canonical vectors that agree on all signals are equal. -/
theorem Coherent.ext (hc : c.Coherent sts) (hw : w.size = c.system.signals)
    (hw' : w'.size = c.system.signals) (hcan : ∀ x ∈ w, 0 ≤ x ∧ x < c.field.p)
    (hcan' : ∀ x ∈ w', 0 ≤ x ∧ x < c.field.p)
    (h : ∀ s ∈ c.signals, c.element w s = c.element w' s) : w = w' := by
  refine Array.ext (hw.trans hw'.symm) fun i hi hi' => ?_
  have hlt : i < c.signals.size := by rw [← hc.size, ← hw]; exact hi
  have hmem : c.signals[i] ∈ c.signals := Array.getElem_mem hlt
  have hmod := element_eq_iff.1 (h _ hmem)
  have hplace := hc.place i _ (Array.getElem?_eq_getElem hlt)
  rw [reading, reading, hplace, Array.getD_eq_getD_getElem?, Array.getD_eq_getD_getElem?,
    Array.getElem?_eq_getElem hi, Array.getElem?_eq_getElem hi', Option.getD_some,
    Option.getD_some, Int.ModEq] at hmod
  obtain ⟨h₀, h₁⟩ := hcan _ (Array.getElem_mem hi)
  obtain ⟨h₀', h₁'⟩ := hcan' _ (Array.getElem_mem hi')
  rwa [Int.emod_eq_of_lt h₀ h₁, Int.emod_eq_of_lt h₀' h₁'] at hmod

end

end Circuit

/-! ## Compiled circuits -/

/-- **The freedom of a prover comes from hints.**  Two vectors that satisfy all
    rows and agree modulo `p` on the main inputs and on the targets of hints agree
    on all signals; without hints there is at most one canonical vector for given
    main inputs. -/
theorem satisfying_vectors_agree {σ : Type} {settings : Settings} {t : Template σ} {host : σ}
    {public_ : List String} {c : Circuit} (h : OwnCompilation settings t host public_ c)
    {w w' : Array Int} (hw : c.Fits w) (hw' : c.Fits w')
    (hsat : c.system.unsatisfiedRows w = .ok [])
    (hsat' : c.system.unsatisfiedRows w' = .ok [])
    (hinputs : ∀ s ∈ Witness.inputSignals c, c.reading w s ≡ c.reading w' s [ZMOD c.field.p]) :
    ((∀ r ∈ c.rules, r.isHint = true →
        c.reading w r.target ≡ c.reading w' r.target [ZMOD c.field.p]) →
      ∀ s ∈ c.signals, c.reading w s ≡ c.reading w' s [ZMOD c.field.p]) ∧
    ((∀ r ∈ c.rules, r.isHint = false) → (∀ x ∈ w, 0 ≤ x ∧ x < c.field.p) →
      (∀ x ∈ w', 0 ≤ x ∧ x < c.field.p) → w = w') := by
  have hc := h.coherent
  have hinputs' := fun s hs => Circuit.element_eq_iff.2 (hinputs s hs)
  refine ⟨fun hhints s hs => ?_, fun hnone hcan hcan' => ?_⟩
  · exact Circuit.element_eq_iff.1 (hc.element_eq h.own hw hw' hsat hsat' hinputs'
      (fun r hr hh => Circuit.element_eq_iff.2 (hhints r hr hh)) s hs)
  · refine hc.ext hw.size hw'.size hcan hcan' (hc.element_eq h.own hw hw' hsat hsat' hinputs' ?_)
    exact fun r hr hh => absurd hh (by rw [hnone r hr]; exact Bool.false_ne_true)

/-- The zero test of three modulo seven, with two vectors that differ by sevens. -/
theorem isZero_vectors_agree :
    ∃ c, (compile { prime := .int 7 } Gadget.isZeroTemplate () []).result = .ok c ∧
      ∀ s ∈ c.signals,
        c.reading #[1, 0, 3, 5] s ≡ c.reading #[1, 7, 10, -2] s [ZMOD c.field.p] := by
  obtain ⟨c, hc, hown, hw, hw', hsat, hsat', hinputs, hhints⟩ := exists_ok
    (x := (compile { prime := .int 7 } Gadget.isZeroTemplate () []).result)
    (P := fun c =>
      (∀ st ∈ executed { prime := .int 7 } Gadget.isZeroTemplate (), st.Own c) ∧
      c.Fits #[1, 0, 3, 5] ∧ c.Fits #[1, 7, 10, -2] ∧
      c.system.unsatisfiedRows #[1, 0, 3, 5] = .ok [] ∧
      c.system.unsatisfiedRows #[1, 7, 10, -2] = .ok [] ∧
      (∀ s ∈ Witness.inputSignals c,
        c.reading #[1, 0, 3, 5] s ≡ c.reading #[1, 7, 10, -2] s [ZMOD c.field.p]) ∧
      ∀ r ∈ c.rules, r.isHint = true →
        c.reading #[1, 0, 3, 5] r.target ≡ c.reading #[1, 7, 10, -2] r.target [ZMOD c.field.p])
    (by decide +kernel)
  exact ⟨c, hc, (satisfying_vectors_agree ⟨hc, hown⟩ hw hw' hsat hsat' hinputs).1 hhints⟩

open Build in
/-- An output computed from a kept signal at the position of the second signal, which
    is computed from the output. -/
def ring : Build Unit Unit := do
  let a ← signal .output "a"
  let b ← signal .intermediate "b"
  assign a (.ofSignal (kept 2))
  assign b (.ofSignal a)

def ringTemplate : Template Unit := ⟨.of "Ring" [], ring⟩

/-- A kept signal closes a ring of rows that no rule is aware of: without inputs and
    without hints, two vectors satisfy them. -/
theorem kept_signal_frees_prover :
    ∃ c, (compile { prime := .int 97 } ringTemplate () []).result = .ok c ∧
      c.system.signals = 3 ∧ c.system.constraints =
        [⟨⟨[]⟩, ⟨[]⟩, ⟨[(1, 1), (2, 96)]⟩, "main"⟩, ⟨⟨[]⟩, ⟨[]⟩, ⟨[(1, 96), (2, 1)]⟩, "main"⟩] ∧
      Witness.inputSignals c = [] ∧ (∀ r ∈ c.rules, r.isHint = false) ∧
      ∀ w ∈ [#[1, 0, 0], #[1, 5, 5]], c.Fits w ∧ c.system.unsatisfiedRows w = .ok [] :=
  exists_ok (by decide +kernel)

end RankOne
