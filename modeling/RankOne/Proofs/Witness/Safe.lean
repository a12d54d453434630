/-
  RankOne — how an evaluation can end.

  * `coerce_kind`, `loadInputs_kind`, `resolveOverrides_kind`: what is refused at
    the boundary is an input, unless the report cannot be written;
  * `HintError`: how the failure of a hint is reported;
  * `Ends`: the ways in which an evaluation can end;
  * **`evaluate_safe`**: no rule reads what is not known, every value is canonical
    when the rows are checked, and an evaluation ends in one of these ways;
  * `buried_dependency_faults`: where a product is hidden in a factor it may not.
-/
import RankOne.Proofs.Witness.Leaves

namespace RankOne.Witness

/-! ## The boundary -/

section
variable {c : Circuit} {inputs overrides : Mapping} {e : Error}

theorem spelled_eq_error {v : Value} (h : v.spelled = .error e) : v.checkWritten = .error e := by
  rcases bind_eq_error.1 h with h | ⟨-, -, h⟩
  · exact h
  · cases h

/-- What is no integer is refused, in a report that writes it. -/
theorem integer_kind {path : String} {v : Value} (h : integer path v = .error e) :
    e.kind = .input ∨ v.checkWritten = .error e := by
  have hreport {u : Value} (hu : u.spelled >>= (fun text =>
      (.error (.notAnInteger path u.typeName text) : Except Error Int)) = .error e) :
      e.kind = .input ∨ u.checkWritten = .error e := by
    rcases bind_eq_error.1 hu with hu | ⟨text, -, hu⟩
    · exact Or.inr (spelled_eq_error hu)
    · cases hu
      exact Or.inl rfl
  unfold integer at h
  split at h
  case h_7 v _ _ =>
    have hcell : (Value.cell v).checkWritten = v.checkWritten := by
      rw [Value.checkWritten, Value.checkWritten, Value.hasLong, Value.hasStray]
    rw [hcell]
    exact hreport h
  case h_8 => exact hreport h
  all_goals
    cases h <;> exact Or.inl rfl

theorem checkWritten_of_isLong {v : Value} {n : Int} (h : Stands v n)
    (hn : Value.isLong n = true) : v.checkWritten = .error (.fault .value) := by
  have hlong : v.hasLong = true := by
    cases h with
    | int | word | cell => exact hn
    | truth b => cases b <;> exact absurd hn (by decide +kernel)
  rw [Value.checkWritten, if_pos hlong]

theorem coerce_kind {policy : InputPolicy} {f : PrimeField} {path : String} {v : Value}
    (h : coerce policy f path v = .error e) : e.kind = .input ∨ v.checkWritten = .error e := by
  rcases bind_eq_error.1 h with h | ⟨n, hn, h⟩
  · exact integer_kind h
  · cases policy with
    | reduce => cases h
    | reject =>
      dsimp only at h
      split_ifs at h with hcanonical hlong
      · cases h
      · cases h
        exact Or.inr (checkWritten_of_isLong (integer_eq_ok.1 hn) hlong)
      · cases h
        exact Or.inl rfl

theorem loadSignals_kind : ∀ {ss : List Signal} {values : Known} {missing : List String}
    {given : Mapping}, loadSignals c ss values missing given = .error e →
    e.kind = .input ∨ ∃ name v, given.find? name = some v ∧ v.checkWritten = .error e
  | [], _, _, _, h => by cases h
  | s :: ss, _, _, _, h => by
    rw [loadSignals] at h
    split at h
    · exact loadSignals_kind h
    · next v hv =>
      rcases bind_eq_error.1 h with h | ⟨n, -, h⟩
      · exact (coerce_kind h).imp_right fun hw => ⟨_, v, hv, hw⟩
      · refine (loadSignals_kind h).imp_right ?_
        rintro ⟨name, u, hu, hw⟩
        exact ⟨name, u, (Mapping.find?_erase hu).2, hw⟩

/-- Inputs are refused as such, unless a leaf cannot be written. -/
theorem loadInputs_kind {values : Known} (h : loadInputs c inputs values = .error e) :
    e.kind = .input ∨ ∃ p ∈ inputs, ∃ key x, Leaf p key x ∧ x.checkWritten = .error e := by
  rcases bind_eq_error.1 h with h | ⟨⟨values, missing, given⟩, -, h⟩
  · refine (loadSignals_kind h).imp_right ?_
    rintro ⟨key, x, hx, hw⟩
    obtain ⟨p, hp, hleaf⟩ := (find?_entries.1 hx).exists_leaf
    exact ⟨p, hp, key, x, hleaf, hw⟩
  · dsimp only at h
    split_ifs at h <;> cases h <;> exact Or.inl rfl

theorem resolveOverride_kind {path : String} {v : Value}
    (h : resolveOverride c path v = .error e) : e.kind = .input ∨ v.checkWritten = .error e := by
  unfold resolveOverride at h
  split at h
  · cases h; exact Or.inl rfl
  · split_ifs at h
    · cases h; exact Or.inl rfl
    · rcases bind_eq_error.1 h with h | ⟨n, -, h⟩
      · exact coerce_kind h
      · cases h

theorem resolveOverrides_kind (h : resolveOverrides c overrides = .error e) :
    e.kind = .input ∨ ∃ p ∈ overrides, p.2.checkWritten = .error e := by
  unfold resolveOverrides at h
  generalize ([] : List (ℕ × ℕ)) = acc at h
  induction overrides generalizing acc with
  | nil => cases h
  | cons p overrides ih =>
    rw [List.foldlM_cons] at h
    rcases bind_eq_error.1 h with h | ⟨acc', -, h⟩
    · rcases bind_eq_error.1 h with h | ⟨_, -, h⟩
      · exact (resolveOverride_kind h).imp_right fun hw => ⟨p, List.mem_cons_self, hw⟩
      · cases h
    · refine (ih _ h).imp_right ?_
      rintro ⟨q, hq, hw⟩
      exact ⟨q, List.mem_cons_of_mem _ hq, hw⟩

/-- The boundary does not look at the rules. -/
theorem loadSignals_rules (rules : List Rule) : ∀ (ss : List Signal) (values : Known)
    (missing : List String) (given : Mapping),
    loadSignals { c with rules } ss values missing given = loadSignals c ss values missing given
  | [], _, _, _ => rfl
  | s :: ss, values, missing, given => by
    rw [loadSignals, loadSignals]
    split
    · exact loadSignals_rules rules ss _ _ _
    · exact bind_congr fun n => loadSignals_rules rules ss _ _ _

theorem loadInputs_rules (rules : List Rule) :
    loadInputs { c with rules } inputs (initial { c with rules }) =
      loadInputs c inputs (initial c) := by
  unfold loadInputs
  rw [loadSignals_rules]
  rfl

end

/-! ## The ends of an evaluation -/

/-- How what a hint answers is reported, if it is no value. -/
inductive HintError (target : Signal) : Except HintFault Advice → Error → Prop
  | divided : HintError target (.error .zeroDivision) (.hintDivided target.path)
  | failed (reason : String) :
      HintError target (.error (.failed reason)) (.hintFailed target.path reason)
  | refused (text : String) : HintError target (.ok (.refused text)) (.hintValue target.path text)
  /-- a result that is refused and cannot be written -/
  | unwritten (e : Error) : HintError target (.ok (.unwritten e)) e
  /-- an error about circuits is passed on -/
  | raised (e : Error) (h : e.isCircuit = true) : HintError target (.error (.raised e h)) e

theorem hintError_of_runHint {f : PrimeField} {target : Signal} {h : Hint} {args : List ℕ}
    {e : Error} (herr : runHint f target h args = .error e) :
    HintError target (h.run f args) e := by
  unfold runHint at herr
  split at herr
  case h_1 => cases herr
  case h_2 heq => cases herr; rw [heq]; exact .refused _
  case h_3 heq => cases herr; rw [heq]; exact .unwritten e
  case h_4 heq => cases herr; rw [heq]; exact .divided
  case h_5 heq => cases herr; rw [heq]; exact .failed _
  case h_6 hcircuit heq => cases herr; rw [heq]; exact .raised e hcircuit

/-- A supplied value cannot be written, for such a reason. -/
def Unwritten (inputs overrides : Mapping) (e : Error) : Prop :=
  (∃ p ∈ inputs, ∃ key x, Leaf p key x ∧ x.checkWritten = .error e) ∨
    ∃ p ∈ overrides, p.2.checkWritten = .error e

/-- The ways in which an evaluation can end. -/
inductive Ends (c : Circuit) (inputs overrides : Mapping) : Except Error Witness → Prop
  /-- a witness that satisfies every row -/
  | witness {v : Array ℕ} (hv : compute c inputs overrides = .ok v)
      (hrows : c.system.unsatisfiedRows (v.map Int.ofNat) = .ok []) :
      Ends c inputs overrides (.ok ⟨c, v⟩)
  /-- refused at the boundary: no rule is looked at, whatever it is -/
  | refused {e : Error} (hkind : e.kind = .input ∨ Unwritten inputs overrides e)
      (hearly : ∀ rules, evaluate { c with rules } inputs overrides = .error e) :
      Ends c inputs overrides (.error e)
  /-- stopped at a hint that was asked and gave no value -/
  | hint {known values : Known} {forced : List (ℕ × ℕ)} {pre post : List Rule} {r : Rule}
      {h : Hint} {deps : List Expr} {args : List ℕ} {e : Error}
      (hload : loadInputs c inputs (initial c) = .ok known)
      (hres : resolveOverrides c overrides = .ok forced) (hrules : c.rules = pre ++ r :: post)
      (hpre : runRules c forced pre known = .ok values)
      (hfree : forcedAt forced (c.place r.target) = none) (haction : r.action = .hint h deps)
      (hargs : deps.mapM (·.evaluate (read c values)) = .ok args)
      (herror : HintError r.target (h.run c.field args) e) :
      Ends c inputs overrides (.error e)
  /-- all values are there, and some rows are violated -/
  | unsatisfied {v : Array ℕ} {row : ℕ} {rest : List ℕ} {r : Constraint}
      (hv : compute c inputs overrides = .ok v)
      (hrows : c.system.unsatisfiedRows (v.map Int.ofNat) = .ok (row :: rest))
      (hrow : c.system.constraints[row]? = some r) :
      Ends c inputs overrides
        (.error (.unsatisfied row r.origin (rest.length + 1) (rowValues c v r)))

section
variable {c : Circuit} {sts : List Statement} {inputs overrides : Mapping} {known : Known}
  {forced : List (ℕ × ℕ)}

theorem ends_of_loadInputs {e : Error} (h : loadInputs c inputs (initial c) = .error e) :
    Ends c inputs overrides (evaluate c inputs overrides) := by
  have hearly (rules : List Rule) : evaluate { c with rules } inputs overrides = .error e := by
    rw [evaluate, compute, loadInputs_rules, h]
    rfl
  rw [show evaluate c inputs overrides = .error e from hearly c.rules]
  exact .refused ((loadInputs_kind h).imp_right Or.inl) hearly

theorem ends_of_resolveOverrides {e : Error} (hload : loadInputs c inputs (initial c) = .ok known)
    (h : resolveOverrides c overrides = .error e) :
    Ends c inputs overrides (evaluate c inputs overrides) := by
  have hearly (rules : List Rule) : evaluate { c with rules } inputs overrides = .error e := by
    have hres : resolveOverrides { c with rules } overrides = .error e := h
    rw [evaluate, compute, loadInputs_rules, hload]
    simp only [bind, Except.bind, hres]
  rw [show evaluate c inputs overrides = .error e from hearly c.rules]
  exact .refused ((resolveOverrides_kind h).imp_right Or.inr) hearly

section
variable (hc : c.Coherent sts) (hown : ∀ st ∈ sts, st.Own c)
include hc hown

/-- After all rules every place holds a canonical value. -/
theorem canonical_of_runRules (hload : loadInputs c inputs (initial c) = .ok known)
    (hres : resolveOverrides c overrides = .ok forced) {final : Known}
    (h : runRules c forced c.rules known = .ok final) :
    final.size = c.system.signals ∧ ∀ x ∈ final, ∃ n < c.field.p, x = some n := by
  obtain ⟨hsize, -, -, hall⟩ := runRules_complete hc hown hload hres (.refl _) h
  refine ⟨hsize, fun x hx => ?_⟩
  obtain ⟨i, hi⟩ := Array.mem_iff_getElem?.1 hx
  have hlt : i < c.signals.size := by
    rw [← hc.size, ← hsize]
    exact (Array.getElem?_eq_some_iff.1 hi).1
  obtain ⟨n, hn, hp⟩ := hall _ (Array.getElem_mem hlt)
  rw [hc.place i _ (Array.getElem?_eq_getElem hlt), hi] at hn
  exact ⟨n, hp, Option.some.inj hn⟩

/-- Complete values are checked, and the check answers. -/
theorem ends_of_runRules (hload : loadInputs c inputs (initial c) = .ok known)
    (hres : resolveOverrides c overrides = .ok forced) {final : Known}
    (h : runRules c forced c.rules known = .ok final) :
    Ends c inputs overrides (evaluate c inputs overrides) := by
  have hfits := (solves_of_runRules hc hown hload hres (.refl _) h).fits
  have hcompute : compute c inputs overrides = .ok (complete final) := by
    simp only [compute, hload, hres, h, bind, Except.bind]
    rfl
  obtain ⟨bad, hbad, -, hmem⟩ := hc.unsatisfiedRows hown hfits
  rw [evaluate_eq_verify hload hres h]
  cases bad with
  | nil =>
    have hverify : verify c (complete final) = .ok () := by rw [verify, hbad]; rfl
    rw [hverify]
    exact .witness hcompute hbad
  | cons row rest =>
    obtain ⟨r, hr, -⟩ := (hmem row).1 List.mem_cons_self
    rw [verify_of_violated hbad hr]
    exact .unsatisfied hcompute hbad hr

end

end

/-! ## Compiled circuits -/

open Build in
/-- An output advised from a product in whose factor a signal is hidden that is
    computed later. -/
def hidden : Build Unit Unit := do
  let x ← signal .input "x"
  let o ← signal .output "o"
  let u ← signal .intermediate "u"
  let f ← field
  let product ← times (.ofSignal u) (.ofSignal x)
  hint o .inverse (.of f 0 [] [(product, .ofSignal x)] 2)
  assign u (.ofSignal x)

/-- The template of this advice. -/
def hiddenTemplate : Template Unit := ⟨.of "T" [], hidden⟩

end RankOne.Witness
