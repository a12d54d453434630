/-
  RankOne — what provers supply.

  * `Supplies`: the value that the inputs give to a main input;
  * `loadInputs_spec`: loaded inputs are known, with the constant, and nothing
    else is;
  * `override?`: the last override of a signal;
  * `resolveOverrides_spec`: the overridden places and their values; the constant
    and the main inputs are not among them.
-/
import RankOne.Proofs.Circuit.Coherent
import RankOne.Witness.Evaluate

namespace RankOne

namespace Witness

/-- A supplied value is canonical. -/
theorem coerce_lt {policy : InputPolicy} {f : PrimeField} {path : String} {v : Value} {n : ℕ}
    (h : coerce policy f path v = .ok n) : n < f.p := by
  obtain ⟨m, -, h⟩ := bind_eq_ok.1 h
  cases policy with
  | reduce => cases h; exact f.reduce_lt m
  | reject =>
    dsimp only at h
    split_ifs at h with hm
    cases h
    simp only [PrimeField.isCanonical, Bool.and_eq_true, decide_eq_true_eq] at hm
    omega

/-! ## Inputs -/

/-- The name under which a main input is supplied. -/
def inputName (s : Signal) : String := (s.path.drop 5).toString

/-- The inputs give a main input a value. -/
def Supplies (c : Circuit) (inputs : Mapping) (s : Signal) (n : ℕ) : Prop :=
  ∃ u, (entries inputs).find? (inputName s) = some u ∧
    coerce c.settings.inputs c.field (inputName s) u = .ok n

theorem Supplies.unique {c : Circuit} {inputs : Mapping} {s : Signal} {m n : ℕ}
    (h : Supplies c inputs s m) (h' : Supplies c inputs s n) : m = n := by
  obtain ⟨u, hu, hm⟩ := h
  obtain ⟨u', hu', hn⟩ := h'
  rw [hu] at hu'; cases hu'
  rw [hm] at hn; cases hn
  rfl

/-- Taking a name out leaves the others. -/
theorem Mapping.find?_erase_of_ne {m : Mapping} {name other : String} (h : other ≠ name) :
    (m.erase name).find? other = m.find? other := by
  rw [Mapping.find?, Mapping.find?, Mapping.erase, List.find?_filter]
  congr 2
  funext p
  by_cases ho : p.1 = other <;> simp [ho, h]

/-- What is found after a name was taken out was there, under another name. -/
theorem Mapping.find?_erase {m : Mapping} {name other : String} {u : Value}
    (h : (m.erase name).find? other = some u) : other ≠ name ∧ m.find? other = some u := by
  have hne : other ≠ name := by
    obtain ⟨⟨n, v⟩, hp, -⟩ := Option.map_eq_some_iff.1 h
    have hn : n = other := by simpa using List.find?_some hp
    rw [← hn]
    simpa using List.of_mem_filter (List.mem_of_find?_eq_some hp)
  exact ⟨hne, Mapping.find?_erase_of_ne hne ▸ h⟩

section
variable {c : Circuit} {sts : List Statement}

theorem loadSignals_spec (hc : c.Coherent sts) : ∀ {ss : List Signal} {values values' : Known}
    {missing : List String} {given given' : Mapping}, (∀ s ∈ ss, s ∈ c.signals) →
    loadSignals c ss values missing given = .ok (values', [], given') →
      missing = [] ∧ values'.size = values.size ∧
      (∀ s ∈ ss, ∃ u n, given.find? (inputName s) = some u ∧
        coerce c.settings.inputs c.field (inputName s) u = .ok n ∧
        (c.place s < values.size → values'[c.place s]? = some (some n))) ∧
      ∀ i, (∀ s ∈ ss, c.place s ≠ i) → values'[i]? = values[i]?
  | [], _, _, _, _, _, _, h => by cases h; exact ⟨rfl, rfl, by simp, fun _ _ => rfl⟩
  | s :: ss, values, values', missing, given, given', hss, h => by
    have hss' := fun t ht => hss t (List.mem_cons_of_mem s ht)
    rw [loadSignals] at h
    split at h
    · obtain ⟨hm, -⟩ := loadSignals_spec hc hss' h
      exact absurd hm (by simp)
    · next u hu =>
      obtain ⟨n, hn, h⟩ := bind_eq_ok.1 h
      obtain ⟨hm, hsize, hfound, hrest⟩ := loadSignals_spec hc hss' h
      rw [Array.size_setIfInBounds] at hsize hfound
      -- a later input has another name, so it is another signal and has another place
      have hother : ∀ t ∈ ss, c.place t ≠ c.place s := by
        intro t ht hp
        obtain ⟨v, -, hv, -⟩ := hfound t ht
        obtain rfl := hc.place_inj (hss' t ht) (hss s List.mem_cons_self) hp
        exact (Mapping.find?_erase hv).1 rfl
      refine ⟨hm, hsize, List.forall_mem_cons.2 ⟨⟨u, n, hu, hn, fun hlt => ?_⟩, fun t ht => ?_⟩,
        fun i hi => ?_⟩
      · rw [hrest _ hother, Array.getElem?_setIfInBounds_self_of_lt hlt]
      · obtain ⟨v, m, hv, hvm⟩ := hfound t ht
        exact ⟨v, m, (Mapping.find?_erase hv).2, hvm⟩
      · obtain ⟨hs, hss⟩ := List.forall_mem_cons.1 hi
        rw [hrest i hss, Array.getElem?_setIfInBounds_ne hs]

/-- **Loaded inputs are known, with the constant, and nothing else is.** -/
theorem loadInputs_spec (hc : c.Coherent sts) {inputs : Mapping} {known : Known}
    (h : loadInputs c inputs (initial c) = .ok known) :
    known.size = c.system.signals ∧ known[0]? = some (some 1) ∧
      (∀ s ∈ inputSignals c, ∃ n, Supplies c inputs s n ∧ known[c.place s]? = some (some n)) ∧
      ∀ s ∈ c.signals, s.kind ≠ .one → Circuit.isMainInput s = false →
        known[c.place s]? = some none := by
  obtain ⟨⟨values, missing, given⟩, hl, h⟩ := bind_eq_ok.1 h
  dsimp only at h
  split_ifs at h with hm hg
  cases h
  obtain rfl : missing = [] := by simpa using hm
  have hin : ∀ s ∈ inputSignals c, s ∈ c.signals := fun s hs => ((hc.inputs s).1 hs).1
  obtain ⟨-, hsize, hfound, hrest⟩ := loadSignals_spec hc hin hl
  have hinit : (initial c).size = c.system.signals := by simp [initial]
  have hone := hc.place 0 _ hc.first
  have hlt : 0 < c.system.signals := by
    rw [← hone]; exact hc.place_lt (Array.mem_iff_getElem?.2 ⟨0, hc.first⟩)
  refine ⟨hsize.trans hinit, ?_, fun s hs => ?_, fun s hs hk hi => ?_⟩
  · rw [hrest 0 fun s hs hp => ?_]
    · simp [initial, hlt]
    · obtain rfl := hc.place_inj (hin s hs) (Array.mem_iff_getElem?.2 ⟨0, hc.first⟩)
        (hp.trans hone.symm)
      have := ((hc.inputs _).1 hs).2
      simp [Circuit.isMainInput, Workspace.one] at this
  · obtain ⟨u, n, hu, hn, hv⟩ := hfound s hs
    exact ⟨n, ⟨u, hu, hn⟩, hv (by rw [hinit]; exact hc.place_lt (hin s hs))⟩
  · have hpos : c.place s ≠ 0 := fun hp => by
      obtain rfl := hc.place_inj hs (Array.mem_iff_getElem?.2 ⟨0, hc.first⟩) (hp.trans hone.symm)
      exact hk rfl
    rw [hrest _ fun t ht hp => ?_]
    · have hps := hc.place_lt hs
      simp [initial, hpos.symm, hps]
    · obtain rfl := hc.place_inj (hin t ht) hs hp
      rw [((hc.inputs t).1 ht).2] at hi
      cases hi

/-! ## Overrides -/

/-- The last override of a signal. -/
def override? (c : Circuit) (overrides : Mapping) (s : Signal) : Option (String × Value) :=
  overrides.reverse.find? fun p => c.signal? p.1 == some s

/-- What is forced at a place. -/
def forcedAt (forced : List (ℕ × ℕ)) (i : ℕ) : Option ℕ := (forced.find? (·.1 == i)).map (·.2)

theorem forcedAt_force (i n j : ℕ) : ∀ forced : List (ℕ × ℕ),
    forcedAt (force i n forced) j = if i = j then some n else forcedAt forced j
  | [] => by by_cases h : i = j <;> simp [force, forcedAt, h]
  | (k, m) :: rest => by
    have ih := forcedAt_force i n j rest
    rw [force]
    by_cases hk : k = i
    · subst hk
      rw [if_pos rfl]
      by_cases h : k = j <;> simp [forcedAt, h]
    · rw [if_neg hk]
      by_cases h : k = j
      · have hij : i ≠ j := fun hij => hk (h.trans hij.symm)
        simp [forcedAt, h, hij]
      · rw [forcedAt, List.find?_cons_of_neg (by simpa using h)]
        rw [forcedAt] at ih
        rw [ih, forcedAt, forcedAt, List.find?_cons_of_neg (by simpa using h)]

theorem mem_of_signal? {path : String} {s : Signal} (h : c.signal? path = some s) :
    s ∈ c.signals := by
  have hby {q : String} (h : c.byPath? q = some s) : s ∈ c.signals := by
    simpa using List.mem_of_find?_eq_some h
  unfold Circuit.signal? at h
  split at h
  · next hp => cases h; exact hby hp
  · exact hby h

/-- One override: the signal it names, which may be overridden, and its value. -/
theorem resolveOverride_eq_ok {path : String} {v : Value} {i n : ℕ}
    (h : resolveOverride c path v = .ok (i, n)) : ∃ s, c.signal? path = some s ∧ i = c.place s ∧
      coerce c.settings.inputs c.field path v = .ok n ∧
      ¬ ((s.kind = .one ∨ s.kind = .declared .input) ∧
        (s.component = "" ∨ s.component = "main")) := by
  unfold resolveOverride at h
  split at h
  · cases h
  · next s hs =>
    split_ifs at h with hk
    obtain ⟨m, hm, h⟩ := bind_eq_ok.1 h
    cases h
    exact ⟨s, hs, rfl, hm, hk⟩

/-- Resolving overrides one after another, the last one of a signal counts. -/
theorem forcedAt_foldlM (hc : c.Coherent sts) {s : Signal} (hs : s ∈ c.signals) :
    ∀ {overrides : Mapping} {acc forced : List (ℕ × ℕ)},
      overrides.foldlM (fun acc p => do
        let (i, n) ← resolveOverride c p.1 p.2
        return force i n acc) acc = .ok forced →
      (override? c overrides s = none →
        forcedAt forced (c.place s) = forcedAt acc (c.place s)) ∧
      ∀ p, override? c overrides s = some p →
        ∃ n, resolveOverride c p.1 p.2 = .ok (c.place s, n) ∧
          forcedAt forced (c.place s) = some n
  | [], acc, _, h => by cases h; exact ⟨fun _ => rfl, fun p hp => by cases hp⟩
  | p :: overrides, acc, forced, h => by
    rw [List.foldlM_cons] at h
    obtain ⟨acc', hstep, h⟩ := bind_eq_ok.1 h
    obtain ⟨⟨i, n⟩, hr, hstep⟩ := bind_eq_ok.1 hstep
    cases hstep
    obtain ⟨hnone, hsome⟩ := forcedAt_foldlM hc hs h
    obtain ⟨t, ht, rfl, -, -⟩ := resolveOverride_eq_ok hr
    rw [override?, List.reverse_cons, List.find?_append, List.find?_singleton, ht]
    rw [override?] at hnone hsome
    cases hl : overrides.reverse.find? (fun p => c.signal? p.1 == some s) with
    | some q => exact ⟨by simp, fun p hp => hsome p (by rw [hl]; exact hp)⟩
    | none =>
      rw [Option.none_or, hnone hl, forcedAt_force]
      by_cases hst : t = s
      · subst hst
        refine ⟨by simp, fun q hq => ?_⟩
        obtain rfl : p = q := by simpa using hq
        exact ⟨n, hr, if_pos rfl⟩
      · have hp : c.place t ≠ c.place s := fun hp => hst (hc.place_inj (mem_of_signal? ht) hs hp)
        exact ⟨fun _ => if_neg hp, fun q hq => by simp [hst] at hq⟩

section
variable (hc : c.Coherent sts) {overrides : Mapping} {forced : List (ℕ × ℕ)}
  (h : resolveOverrides c overrides = .ok forced) {s : Signal} (hs : s ∈ c.signals)
include hc h hs

/-- Nothing is forced at the place of a signal without override. -/
theorem forcedAt_eq_none (ho : override? c overrides s = none) :
    forcedAt forced (c.place s) = none :=
  (forcedAt_foldlM hc hs h).1 ho

/-- **What is forced at the place of a signal is its last override**; neither the
    constant nor a main input has one. -/
theorem forcedAt_eq_some {p : String × Value} (ho : override? c overrides s = some p) :
    (∃ n, coerce c.settings.inputs c.field p.1 p.2 = .ok n ∧
      forcedAt forced (c.place s) = some n) ∧ s.kind ≠ .one ∧ Circuit.isMainInput s = false := by
  obtain ⟨n, hr, hn⟩ := (forcedAt_foldlM hc hs h).2 p ho
  obtain ⟨t, ht, hp, hv, hk⟩ := resolveOverride_eq_ok hr
  obtain rfl := hc.place_inj hs (mem_of_signal? ht) hp
  refine ⟨⟨n, hv, hn⟩, fun hone => hk ⟨Or.inl hone, Or.inl ?_⟩, ?_⟩
  · rw [hc.kind s hs hone]; rfl
  · by_contra hin
    rw [Bool.not_eq_false, Circuit.isMainInput, Bool.and_eq_true, beq_iff_eq, beq_iff_eq] at hin
    exact hk ⟨Or.inr hin.1, Or.inr hin.2⟩

end

end

end Witness

end RankOne
