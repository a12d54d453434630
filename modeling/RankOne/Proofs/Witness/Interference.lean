/-
  RankOne — overrides reach only what depends on them.

  Two evaluations of one circuit on the same inputs are compared under different
  overrides.

  * `overriding`: what a signal is overridden with;
  * `Affected`: the signals that are overridden differently, and those computed
    from affected ones;
  * `Gives.eq_of_agree`: a rule gives the same on vectors that agree on what it
    reads;
  * `Solves.agree`: two solutions differ on affected signals only;
  * `runRules_forced_alike`: forcing what a rule computes anyway changes nothing;
  * `overrides_confined`: what follows for compiled circuits.
-/
import RankOne.Proofs.Circuit.Paths
import RankOne.Proofs.Witness.Adversary
import RankOne.Proofs.Witness.Honest

namespace RankOne

theorem Circuit.Coherent.reads_mem {c : Circuit} {sts : List Statement} (hc : c.Coherent sts)
    (hown : ∀ st ∈ sts, st.Own c) {r : Rule} (hr : r ∈ c.rules) :
    ∀ s ∈ r.reads, s ∈ c.signals := Rule.reads_subset (hc.exprs_over hown hr)

namespace Witness

/-! ## Affected signals -/

def overriding (c : Circuit) (overrides : Mapping) (s : Signal) : Option ℕ :=
  (override? c overrides s).bind fun p => (coerce c.settings.inputs c.field p.1 p.2).toOption

/-- The signals that a change of the overrides can reach: those overridden in one
    evaluation only or with different values, and, from an affected signal, the
    targets of the rules that read it and are overridden in neither. -/
inductive Affected (c : Circuit) (overrides overrides' : Mapping) : Signal → Prop
  | source {s : Signal} : overriding c overrides s ≠ overriding c overrides' s →
      Affected c overrides overrides' s
  | step {s : Signal} {r : Rule} : Affected c overrides overrides' s → r ∈ c.rules →
      s ∈ r.reads → overriding c overrides r.target = none →
      overriding c overrides' r.target = none → Affected c overrides overrides' r.target

section
variable {c : Circuit} {sts : List Statement} {inputs overrides overrides' : Mapping}
  {v v' : Array ℕ} {s : Signal} {n : ℕ}

theorem Solves.of_overriding (hv : Solves c inputs overrides v) (hs : s ∈ c.signals)
    (h : overriding c overrides s = some n) : v[c.place s]? = some n := by
  obtain ⟨p, hp, hn⟩ := Option.bind_eq_some_iff.1 h
  obtain ⟨m, hm, hvm⟩ := hv.override s hs p hp
  rw [hm] at hn
  cases hn
  exact hvm

theorem Solves.override?_eq_none (hv : Solves c inputs overrides v) (hs : s ∈ c.signals)
    (h : overriding c overrides s = none) : override? c overrides s = none := by
  cases ho : override? c overrides s with
  | none => rfl
  | some p =>
    obtain ⟨m, hm, -⟩ := hv.override s hs p ho
    simp [overriding, ho, hm, Except.toOption] at h

theorem reading_eq (h : v[c.place s]? = v'[c.place s]?) :
    c.reading (v.map Int.ofNat) s = c.reading (v'.map Int.ofNat) s := by
  simp only [Circuit.reading, Array.getD_eq_getD_getElem?, Array.getElem?_map, h]

theorem Affected.path_eq {name path : String} {value : Value}
    (hname : (c.signal? name).map (·.path) = some path)
    (hreads : ∀ r ∈ c.rules, ∀ s ∈ r.reads, s.path ≠ path)
    (h : Affected c [] [(name, value)] s) : s.path = path := by
  induction h with
  | @source s hne =>
    cases ho : override? c [(name, value)] s with
    | none => exact absurd (by rw [overriding, overriding, ho]; rfl) hne
    | some p =>
      obtain ⟨hp, hs⟩ := override?_eq_some ho
      rw [List.mem_singleton.1 hp] at hs
      simpa [hs] using hname
  | step _ hr hs _ _ ih => exact absurd ih (hreads _ hr _ hs)

section
variable (hc : c.Coherent sts) (hown : ∀ st ∈ sts, st.Own c)
include hc hown

/-! ## Rules on two vectors -/

theorem assign_eq_of_agree {origin : String} {target : Signal} {e : Expr} {n' : ℕ}
    (hst : .assign origin target e ∈ sts) (hv : v.size = c.system.signals)
    (hv' : v'.size = c.system.signals) (h : ∀ s ∈ e.signals, v[c.place s]? = v'[c.place s]?)
    (hn : e.evaluate (c.entry (v.map Int.ofNat)) = .ok n)
    (hn' : e.evaluate (c.entry (v'.map Int.ofNat)) = .ok n') : n = n' := by
  have hover := (hown _ hst).exprs e List.mem_cons_self
  obtain ⟨m, hm, hlt, hval⟩ := hc.evaluate (w := v.map Int.ofNat) (by simp [hv]) hover
  obtain ⟨m', hm', hlt', hval'⟩ := hc.evaluate (w := v'.map Int.ofNat) (by simp [hv']) hover
  obtain rfl : n = m := Except.ok.inj (hn.symm.trans hm)
  obtain rfl : n' = m' := Except.ok.inj (hn'.symm.trans hm')
  have hcast : (n : ZMod c.field.p) = n' := by
    rw [hval, hval']
    refine Expr.value_congr (Circuit.byUid_element c _) (Circuit.byUid_element c _)
      (hc.assign_flat hst) ?_
    intro s hs
    rw [Circuit.element, Circuit.element, reading_eq (h s hs)]
  rw [ZMod.natCast_eq_natCast_iff'] at hcast
  rwa [Nat.mod_eq_of_lt hlt, Nat.mod_eq_of_lt hlt'] at hcast

theorem deps_eq_of_agree {r : Rule} (hr : r ∈ c.rules) (hflat : ∀ e ∈ r.exprs, e.Shallow)
    (hv : v.size = c.system.signals) (hv' : v'.size = c.system.signals)
    (h : ∀ s ∈ r.reads, v[c.place s]? = v'[c.place s]?) : ∀ e ∈ r.exprs,
      e.evaluate (c.entry (v.map Int.ofNat)) = e.evaluate (c.entry (v'.map Int.ofNat)) := by
  intro e he
  refine Expr.evaluate_congr ?_ e ((hflat e he).over (hc.exprs_over hown hr e he))
  rintro s ⟨hs, t, ht, hu⟩
  -- a listed signal is one that the rule reads
  obtain ⟨q, hq, hqt⟩ := Rule.mem_reads he ht
  obtain rfl : q = s := hc.uid q (hc.reads_mem hown hr q hq) s hs (hqt.trans hu)
  rw [hc.entry (by simp [hv]) hs, hc.entry (by simp [hv']) hs, reading_eq (h q hq)]

theorem Gives.eq_of_agree {r : Rule} {n' : ℕ} (hr : r ∈ c.rules)
    (hflat : r.isHint = true → ∀ e ∈ r.exprs, e.Shallow) (hv : v.size = c.system.signals)
    (hv' : v'.size = c.system.signals) (h : ∀ s ∈ r.reads, v[c.place s]? = v'[c.place s]?)
    (hn : Gives c v r n) (hn' : Gives c v' r n') : n = n' := by
  unfold Gives at hn hn'
  rcases hc.rule_cases hr with ⟨e, hst, ha⟩ | ⟨hint, deps, -, ha⟩
  · simp only [ha] at hn hn'
    simp only [Rule.reads, ha] at h
    exact assign_eq_of_agree hc hown hst hv hv' h hn hn'
  · simp only [ha] at hn hn'
    have hdeps := deps_eq_of_agree hc hown hr (hflat (by simp [Rule.isHint, ha])) hv hv' h
    simp only [Rule.exprs, ha] at hdeps
    obtain ⟨args, m, hargs, hm, rfl⟩ := hn
    obtain ⟨args', m', hargs', hm', rfl⟩ := hn'
    rw [mapM_congr hdeps, hargs'] at hargs
    cases hargs
    rw [hm'] at hm
    cases hm
    rfl

/-! ## Two solutions -/

/-- **Two solutions on the same inputs differ on affected signals only**, by
    induction along the order of the rules. -/
theorem Solves.agree (hflat : ∀ r ∈ c.rules, r.isHint = true → ∀ e ∈ r.exprs, e.Shallow)
    (hv : Solves c inputs overrides v) (hv' : Solves c inputs overrides' v') :
    ∀ s ∈ c.signals, ¬ Affected c overrides overrides' s → v[c.place s]? = v'[c.place s]? := by
  refine hc.respects.induction ?_ ?_
  · intro s hfree hs _
    rcases hc.cover s hs with rfl | hin | ⟨r, hr, hu⟩
    · rw [hc.place 0 _ hc.first, hv.one, hv'.one]
    · have hin := (hc.inputs s).2 ⟨hs, hin⟩
      obtain ⟨n, hn, hvn⟩ := hv.input s hin
      obtain ⟨n', hn', hvn'⟩ := hv'.input s hin
      rw [hvn, hvn', hn.unique hn']
    · exact absurd (congrArg Signal.uid hu) (hfree r hr)
  · intro r hr hreads s hu hs hnot
    obtain rfl := hc.uid s hs _ (hc.target_mem hown hr) hu
    have hsame : overriding c overrides r.target = overriding c overrides' r.target := by
      by_contra hne
      exact hnot (.source hne)
    cases ho : overriding c overrides r.target with
    | some n => rw [hv.of_overriding hs ho, hv'.of_overriding hs (hsame ▸ ho)]
    | none =>
      have ho' : overriding c overrides' r.target = none := hsame ▸ ho
      obtain ⟨n, hn, hvn⟩ := hv.rule r hr (hv.override?_eq_none hs ho)
      obtain ⟨n', hn', hvn'⟩ := hv'.rule r hr (hv'.override?_eq_none hs ho')
      have hagree : ∀ t ∈ r.reads, v[c.place t]? = v'[c.place t]? := by
        intro t ht
        refine hreads t ht (hc.reads_mem hown hr t ht) fun hat => ?_
        exact hnot (.step hat hr ht ho ho')
      rw [hvn, hvn', hn.eq_of_agree hc hown hr (hflat r hr) hv.size hv'.size hagree hn']

end

/-! ## Overriding with what is computed anyway -/

theorem runRules_forced_alike {forced forced' : List (ℕ × ℕ)} {final : Known} :
    ∀ {rs : List Rule} {values : Known}, Placed c values.size rs →
      (rs.map (c.place ·.target)).Nodup → (∀ r ∈ rs, values[c.place r.target]? = some none) →
      (∀ r ∈ rs, forcedAt forced' (c.place r.target) = forcedAt forced (c.place r.target) ∨
        ∃ n : ℕ, forcedAt forced' (c.place r.target) = some n ∧
          final[c.place r.target]? = some (some n)) →
      runRules c forced rs values = .ok final → runRules c forced' rs values = .ok final
  | [], _, _, _, _, _, h => h
  | r :: rs, values, hplaced, hnodup, hfree, hforced, h => by
    obtain ⟨-, hext, hrules⟩ := runRules_spec hplaced hnodup hfree h
    obtain ⟨k, hk, hrk⟩ := hrules r List.mem_cons_self
    obtain ⟨⟨hindex, hlt⟩, hplaced⟩ := List.forall_mem_cons.1 hplaced
    rw [runRules_cons hindex hlt] at h ⊢
    obtain ⟨n, hn, h⟩ := bind_eq_ok.1 h
    obtain ⟨hr, hnodup⟩ := List.nodup_cons.1 hnodup
    obtain ⟨hhead, hforced⟩ := List.forall_mem_cons.1 hforced
    obtain ⟨hfr, hfree⟩ := List.forall_mem_cons.1 hfree
    have hvalue : ruleValue c forced' values r = .ok n := by
      rcases hhead with hsame | ⟨m, hm, hfinal⟩
      · rw [ruleValue, hsame]; exact hn
      · -- what is left at the place of the target is what its rule gives
        rw [hext.ruleValue hn] at hrk
        cases hrk
        rw [hfinal] at hk
        cases hk
        rw [ruleValue, hm]
    rw [hvalue]
    refine runRules_forced_alike (by rw [Array.size_setIfInBounds]; exact hplaced) hnodup
      (fun q hq => ?_) hforced h
    rw [Array.getElem?_setIfInBounds_ne fun hp => hr (List.mem_map.2 ⟨q, hq, hp.symm⟩)]
    exact hfree q hq

section
variable {pre post : Mapping} {path : String} {value : Value} {t : Signal}

theorem override?_insert (hpath : c.signal? path = some s)
    (hfree : override? c (pre ++ post) s = none) :
    override? c (pre ++ (path, value) :: post) s = some (path, value) := by
  rw [override?, List.reverse_append, List.find?_append, Option.or_eq_none_iff] at hfree
  simp [override?, List.find?_append, hfree.1, hpath]

theorem override?_insert_of_ne (hpath : c.signal? path = some s) (hne : t ≠ s) :
    override? c (pre ++ (path, value) :: post) t = override? c (pre ++ post) t := by
  simp [override?, List.find?_append, hpath, hne.symm]

end

theorem resolveOverride_ok {forced : List (ℕ × ℕ)} (h : resolveOverrides c overrides = .ok forced) :
    ∀ p ∈ overrides, ∃ r, resolveOverride c p.1 p.2 = .ok r := by
  rw [resolveOverrides] at h
  generalize ([] : List (ℕ × ℕ)) = acc at h
  induction overrides generalizing acc with
  | nil => simp
  | cons p overrides ih =>
    rw [List.foldlM_cons] at h
    obtain ⟨acc', hstep, h⟩ := bind_eq_ok.1 h
    obtain ⟨r, hr, -⟩ := bind_eq_ok.1 hstep
    exact List.forall_mem_cons.2 ⟨⟨r, hr⟩, ih acc' h⟩

theorem resolveOverrides_insert {pre post : Mapping} {path : String} {value : Value}
    {forced : List (ℕ × ℕ)} (h : resolveOverrides c (pre ++ post) = .ok forced) {q : ℕ × ℕ}
    (hone : resolveOverride c path value = .ok q) :
    ∃ forced', resolveOverrides c (pre ++ (path, value) :: post) = .ok forced' := by
  have hrest := resolveOverride_ok h
  refine resolveOverrides_ok fun p hp => ?_
  rcases List.mem_append.1 hp with hp | hp
  · exact hrest p (List.mem_append_left _ hp)
  rcases List.mem_cons.1 hp with rfl | hp
  · exact ⟨_, hone⟩
  · exact hrest p (List.mem_append_right _ hp)

theorem forcedAt_congr (hc : c.Coherent sts) {forced forced' : List (ℕ × ℕ)}
    (hres : resolveOverrides c overrides = .ok forced)
    (hres' : resolveOverrides c overrides' = .ok forced') (hs : s ∈ c.signals)
    (hsame : override? c overrides' s = override? c overrides s) :
    forcedAt forced' (c.place s) = forcedAt forced (c.place s) := by
  cases ho : override? c overrides s with
  | none => rw [forcedAt_eq_none hc hres hs ho, forcedAt_eq_none hc hres' hs (hsame.trans ho)]
  | some p =>
    obtain ⟨⟨m, hm, hf⟩, -⟩ := forcedAt_eq_some hc hres hs ho
    obtain ⟨⟨m', hm', hf'⟩, -⟩ := forcedAt_eq_some hc hres' hs (hsame.trans ho)
    rw [hm] at hm'
    cases hm'
    rw [hf, hf']

theorem compute_insert (hc : c.Coherent sts) (hown : ∀ st ∈ sts, st.Own c)
    (hnamed : ∀ s ∈ c.signals, s.kind ≠ .one → s.component ≠ "") {pre post : Mapping}
    {path : String} {value : Value} {r : Rule} (hr : r ∈ c.rules)
    (hpath : c.signal? path = some r.target)
    (hfree : override? c (pre ++ post) r.target = none)
    (hrun : compute c inputs (pre ++ post) = .ok v) (hn : v[c.place r.target]? = some n)
    (hvalue : coerce c.settings.inputs c.field path value = .ok n) :
    compute c inputs (pre ++ (path, value) :: post) = .ok v := by
  obtain ⟨known, hload, hrun⟩ := bind_eq_ok.1 hrun
  obtain ⟨forced, hres, hrun⟩ := bind_eq_ok.1 hrun
  obtain ⟨final, hfinal, hrun⟩ := bind_eq_ok.1 hrun
  cases hrun
  have ht := hc.target_mem hown hr
  obtain ⟨hk, hi⟩ := hc.targets r hr
  obtain ⟨forced', hres'⟩ :=
    resolveOverrides_insert hres (resolveOverride_of_signal? hpath hk hi (hnamed _ ht hk) hvalue)
  have hdone := runRules_complete hc hown hload hres (.refl _) hfinal
  have hplace : final[c.place r.target]? = some (some n) := by
    obtain ⟨m, hm, -⟩ := hdone.2.2.1 r hr
    rw [complete, Array.getElem?_map, hm] at hn
    cases hn
    exact hm
  have hsame : runRules c forced' c.rules known = .ok final := by
    refine runRules_forced_alike (placed hc hown (fun _ hq => hq) (loadInputs_spec hc hload).1)
      (hc.places_nodup hown) (fun q hq => target_unknown hc hown hload hq) (fun q hq => ?_) hfinal
    by_cases hqr : q.target = r.target
    · rw [hqr]
      obtain ⟨⟨m, hm, hforced⟩, -⟩ := forcedAt_eq_some hc hres' ht (override?_insert hpath hfree)
      rw [hvalue] at hm
      cases hm
      exact Or.inr ⟨n, hforced, hplace⟩
    · exact Or.inl (forcedAt_congr hc hres hres' (hc.target_mem hown hq)
        (override?_insert_of_ne hpath hqr))
  simp only [compute, hload, hres', hsame, bind, Except.bind]
  rfl

end

/-! ## Compiled circuits -/

/-- **Overrides reach only what depends on them.**  Two evaluations on the same
    inputs whose rules have all run agree on every signal that is not affected by
    the change of the overrides; one more override of a target, with the value that
    its rule has computed, changes nothing. -/
theorem overrides_confined {σ : Type} {settings : Settings} {t : Template σ} {host : σ}
    {public_ : List String} {c : Circuit} (h : (compile settings t host public_).result = .ok c)
    (hown : ∀ st ∈ executed settings t host, st.Own c)
    (hflat : ∀ r ∈ c.rules, r.isHint = true → ∀ e ∈ r.exprs, e.Shallow) (inputs : Mapping) :
    (∀ overrides overrides' v v', compute c inputs overrides = .ok v →
      compute c inputs overrides' = .ok v' → ∀ s ∈ c.signals,
      ¬ Affected c overrides overrides' s → v[c.place s]? = v'[c.place s]?) ∧
    ∀ pre post path value v n, ∀ r ∈ c.rules, compute c inputs (pre ++ post) = .ok v →
      c.signal? path = some r.target → override? c (pre ++ post) r.target = none →
      v[c.place r.target]? = some n → coerce c.settings.inputs c.field path value = .ok n →
      compute c inputs (pre ++ (path, value) :: post) = .ok v ∧
        evaluate c inputs (pre ++ (path, value) :: post) = evaluate c inputs (pre ++ post) := by
  have hc := compile_coherent h
  constructor
  · intro overrides overrides' v v' hv hv'
    exact (solves_of_compute hc hown hv).agree hc hown hflat (solves_of_compute hc hown hv')
  · intro pre post path value v n r hr hrun hpath hfree hn hvalue
    have hnamed : ∀ s ∈ c.signals, s.kind ≠ .one → s.component ≠ "" :=
      fun s hs hk => ((compile_placed h).1 s hs hk).1
    have hsame := compute_insert hc hown hnamed hr hpath hfree hrun hn hvalue
    refine ⟨hsame, ?_⟩
    rw [evaluate, evaluate, hsame, hrun]

/-- The zero test of three modulo seven: a forged answer leaves the advised inverse
    and the input alone, and overriding the inverse with itself changes nothing. -/
theorem isZero_overrides_confined :
    ∃ c, (compile { prime := .int 7 } Gadget.isZeroTemplate () []).result = .ok c ∧
      compute c [("in", .int 3)] [] = .ok #[1, 0, 3, 5] ∧
      compute c [("in", .int 3)] [("out", .int 4)] = .ok #[1, 4, 3, 5] ∧
      (∀ s ∈ c.signals, s.path ≠ "main.out" →
        #[1, 0, 3, 5][c.place s]? = #[1, 4, 3, 5][c.place s]?) ∧
      compute c [("in", .int 3)] [("inv", .int 5), ("out", .int 4)] = .ok #[1, 4, 3, 5] := by
  obtain ⟨c, hc, hown, hflat, hrun, hrun', hout, hreads, r, hr, hinv, hfree, hn, hfive⟩ := exists_ok
    (x := (compile { prime := .int 7 } Gadget.isZeroTemplate () []).result)
    (P := fun c =>
      (∀ st ∈ executed { prime := .int 7 } Gadget.isZeroTemplate (), st.Own c) ∧
      (∀ r ∈ c.rules, r.isHint = true → ∀ e ∈ r.exprs, e.Shallow) ∧
      compute c [("in", .int 3)] [] = .ok #[1, 0, 3, 5] ∧
      compute c [("in", .int 3)] [("out", .int 4)] = .ok #[1, 4, 3, 5] ∧
      (c.signal? "out").map (·.path) = some "main.out" ∧
      (∀ r ∈ c.rules, ∀ s ∈ r.reads, s.path ≠ "main.out") ∧
      ∃ r ∈ c.rules, c.signal? "inv" = some r.target ∧
        override? c [("out", .int 4)] r.target = none ∧
        #[1, 4, 3, 5][c.place r.target]? = some 5 ∧
        coerce c.settings.inputs c.field "inv" (.int 5) = .ok 5)
    (by decide +kernel)
  obtain ⟨hsame, hmore⟩ := overrides_confined hc hown hflat [("in", .int 3)]
  refine ⟨c, hc, hrun, hrun', fun s hs hp => ?_, ?_⟩
  · exact hsame _ _ _ _ hrun hrun' s hs fun h => hp (h.path_eq hout hreads)
  · exact (hmore [] _ _ _ _ _ r hr hrun' hinv hfree hn hfive).1

/-! ## Dependencies that hide a signal -/

open Build in
/-- An output advised from a product in whose factor an advised signal is hidden. -/
def shaded : Build Unit Unit := do
  let x ← signal .input "x"
  let u ← signal .intermediate "u"
  let o ← signal .output "o"
  let f ← field
  hint u .inverse (.ofSignal x)
  let product ← times (.ofSignal u) (.ofSignal x)
  hint o .inverse (.of f 0 [] [(product, .ofSignal x)] 2)

def shadedTemplate : Template Unit := ⟨.of "T" [], shaded⟩

/-- The hidden signal is not among those that the rule reads, so overriding it affects
    no other signal, and yet the output changes with it. -/
theorem shaded_override_leaks :
    ∃ c, (compile { prime := .int 97 } shadedTemplate () []).result = .ok c ∧
      compute c [("x", .int 5)] [] = .ok #[1, 39, 5, 39] ∧
      compute c [("x", .int 5)] [("u", .int 1)] = .ok #[1, 66, 5, 1] ∧
      ∃ s ∈ c.signals, s.path = "main.o" ∧ c.place s = 1 ∧
        ¬ Affected c [] [("u", .int 1)] s := by
  obtain ⟨c, hc, hrun, hrun', hu, hreads, hs⟩ := exists_ok
    (x := (compile { prime := .int 97 } shadedTemplate () []).result)
    (P := fun c =>
      compute c [("x", .int 5)] [] = .ok #[1, 39, 5, 39] ∧
      compute c [("x", .int 5)] [("u", .int 1)] = .ok #[1, 66, 5, 1] ∧
      (c.signal? "u").map (·.path) = some "main.u" ∧
      (∀ r ∈ c.rules, ∀ s ∈ r.reads, s.path ≠ "main.u") ∧
      ∃ s ∈ c.signals, s.path = "main.o" ∧ c.place s = 1)
    (by decide +kernel)
  obtain ⟨s, hs, hp, hplace⟩ := hs
  refine ⟨c, hc, hrun, hrun', s, hs, hp, hplace, fun h => ?_⟩
  rw [h.path_eq hu hreads] at hp
  exact absurd hp (by decide)

end Witness

end RankOne
