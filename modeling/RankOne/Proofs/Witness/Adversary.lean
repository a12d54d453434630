/-
  RankOne — a prover can reach every vector.

  A prover who supplies every main input by its path, and overrides every other
  signal by its path, dictates the whole vector; the check is all that is left.

  * `relative_path`: a main input is found under its path;
  * `ofPairs_of_nodup`, `loadSignals_ok`, `resolveOverrides_ok`, `runRules_forced`:
    nothing that is supplied once under distinct paths is refused;
  * `solves_dictated`: the vector itself is the solution under what it dictates;
  * `evaluate_dictated`: evaluation returns it if it satisfies every row, and
    otherwise names the rows that it violates.
-/
import RankOne.Gadget.Indicator
import RankOne.Proofs.Circuit.Paths
import RankOne.Proofs.Field
import RankOne.Proofs.Witness.Solution

namespace RankOne.Witness

/-! ## Names -/

theorem drop_main (rest : String) : (("main." ++ rest).drop 5).toString = rest := by
  refine String.toList_injective ?_
  rw [String.Slice.toString_eq, String.toList_copy_drop, String.toList_append]
  rfl

theorem relative_main (rest : String) : relative ("main." ++ rest) = rest := by
  rw [relative, if_pos (by simp), drop_main]

/-- A main input is named by what follows the main component in its path. -/
theorem relative_path {s : Signal} (h : Below "main" s.path) :
    relative s.path = inputName s ∧ s.path = "main." ++ inputName s := by
  obtain ⟨rest, hr⟩ := h
  have hr : s.path = "main." ++ rest := hr
  rw [inputName, hr, relative_main, drop_main]
  exact ⟨rfl, rfl⟩

/-! ## Mappings -/

theorem Mapping.put_of_not_mem {name : String} {v : Value} : ∀ {m : Mapping},
    name ∉ m.map (·.1) → m.put name v = m ++ [(name, v)]
  | [], _ => rfl
  | (n, u) :: rest, h => by
    rw [List.map_cons, List.mem_cons, not_or] at h
    rw [Mapping.put, if_neg (Ne.symm h.1), Mapping.put_of_not_mem h.2, List.cons_append]

theorem Mapping.foldl_put {pairs : List (String × Value)} : ∀ {m : Mapping},
    ((m ++ pairs).map (·.1)).Nodup →
      pairs.foldl (fun m p => Mapping.put p.1 p.2 m) m = m ++ pairs := by
  induction pairs with
  | nil => intro m _; simp
  | cons p pairs ih =>
    intro m h
    have hfresh : p.1 ∉ m.map (·.1) := by
      rw [List.map_append, List.nodup_append] at h
      exact fun hm => h.2.2 _ hm _ (List.mem_map.2 ⟨p, List.mem_cons_self, rfl⟩) rfl
    rw [List.foldl_cons, Mapping.put_of_not_mem hfresh, ih (by simpa using h)]
    simp

/-- Under distinct names nothing is replaced. -/
theorem Mapping.ofPairs_of_nodup {pairs : List (String × Value)} (h : (pairs.map (·.1)).Nodup) :
    Mapping.ofPairs pairs = pairs :=
  Mapping.foldl_put (m := []) h

/-- Under distinct names every pair is found. -/
theorem Mapping.find?_of_mem {m : Mapping} (h : (m.map (·.1)).Nodup) {p : String × Value}
    (hp : p ∈ m) : m.find? p.1 = some p.2 := by
  rw [Mapping.find?, find?_of_nodup h hp]; rfl

section
variable {c : Circuit} {sts : List Statement}

/-! ## Nothing is refused -/

/-- Signals of distinct names that all have a value are loaded, and use up what
    has their names. -/
theorem loadSignals_ok : ∀ {ss : List Signal} {values : Known} {given : Mapping},
    (ss.map inputName).Nodup →
    (∀ s ∈ ss, ∃ u n, given.find? (inputName s) = some u ∧
      coerce c.settings.inputs c.field (inputName s) u = .ok n) →
    ∃ values', loadSignals c ss values [] given =
      .ok (values', [], given.filter fun p => p.1 ∉ ss.map inputName)
  | [], values, given, _, _ => ⟨values, by simp [loadSignals]⟩
  | s :: ss, values, given, hnodup, hgiven => by
    obtain ⟨hs, hss⟩ := List.nodup_cons.1 hnodup
    obtain ⟨⟨u, n, hu, hn⟩, hrest⟩ := List.forall_mem_cons.1 hgiven
    obtain ⟨values', h⟩ := @loadSignals_ok ss (values.setIfInBounds (c.place s) (some n))
      (given.erase (inputName s)) hss fun t ht => by
        have hne : inputName t ≠ inputName s := fun he => hs (he ▸ List.mem_map_of_mem ht)
        rw [Mapping.find?_erase_of_ne hne]
        exact hrest t ht
    refine ⟨values', ?_⟩
    rw [loadSignals]
    simp only [show given.find? (s.path.drop 5).toString = some u from hu]
    rw [show coerce c.settings.inputs c.field (s.path.drop 5).toString u = .ok n from hn]
    refine h.trans ?_
    rw [Mapping.erase, List.filter_filter]
    simp [not_or, Bool.and_comm]

/-- A signal may be overridden unless it is the constant or a main input. -/
theorem resolveOverride_of_signal? {path : String} {value : Value} {s : Signal} {n : ℕ}
    (hs : c.signal? path = some s) (hk : s.kind ≠ .one) (hi : Circuit.isMainInput s = false)
    (hcomp : s.component ≠ "") (hn : coerce c.settings.inputs c.field path value = .ok n) :
    resolveOverride c path value = .ok (c.place s, n) := by
  have hfree : ¬ ((s.kind = .one ∨ s.kind = .declared .input) ∧
      (s.component = "" ∨ s.component = "main")) := by
    rintro ⟨hone | hin, hempty | hmain⟩
    · exact hk hone
    · exact hk hone
    · exact hcomp hempty
    · rw [Circuit.isMainInput, hin, hmain] at hi
      cases hi
  simp only [resolveOverride, hs, if_neg hfree, hn]
  rfl

/-- Overrides that are accepted one by one are accepted together. -/
theorem resolveOverrides_ok {overrides : Mapping}
    (h : ∀ p ∈ overrides, ∃ r, resolveOverride c p.1 p.2 = .ok r) :
    ∃ forced, resolveOverrides c overrides = .ok forced := by
  rw [resolveOverrides]
  generalize ([] : List (ℕ × ℕ)) = acc
  induction overrides generalizing acc with
  | nil => exact ⟨acc, rfl⟩
  | cons p overrides ih =>
    obtain ⟨⟨⟨i, n⟩, hr⟩, hrest⟩ := List.forall_mem_cons.1 h
    obtain ⟨forced, hf⟩ := ih hrest (force i n acc)
    exact ⟨forced, by rw [List.foldlM_cons, hr]; exact hf⟩

/-- Where every target is overridden, no rule is asked. -/
theorem runRules_forced {forced : List (ℕ × ℕ)} : ∀ {rs : List Rule} {values : Known},
    Placed c values.size rs → (∀ r ∈ rs, ∃ n, forcedAt forced (c.place r.target) = some n) →
    ∃ final, runRules c forced rs values = .ok final
  | [], values, _, _ => ⟨values, rfl⟩
  | r :: rs, values, hplaced, h => by
    obtain ⟨⟨hindex, hlt⟩, hplaced⟩ := List.forall_mem_cons.1 hplaced
    obtain ⟨⟨n, hn⟩, hrest⟩ := List.forall_mem_cons.1 h
    obtain ⟨final, hf⟩ := @runRules_forced _ rs (values.setIfInBounds (c.place r.target) (some n))
      (by rw [Array.size_setIfInBounds]; exact hplaced) hrest
    refine ⟨final, ?_⟩
    rw [runRules_cons hindex hlt, ruleValue, hn]
    exact hf

/-- A canonical integer is taken as it is, under either policy. -/
theorem coerce_canonical {policy : InputPolicy} {f : PrimeField} {path : String} {n : ℕ}
    (h : n < f.p) : coerce policy f path (.int n) = .ok n := by
  cases policy with
  | reduce =>
    change Except.ok (f.reduce n) = _
    rw [f.reduce_natCast h]
  | reject =>
    have hn : f.isCanonical n = true := by simpa [PrimeField.isCanonical] using h
    change (if f.isCanonical n = true then _ else _) = _
    rw [if_pos hn]
    rfl

/-! ## Dictated vectors -/

/-- Canonical values by path, as they are supplied. -/
def supply (ps : List (String × ℕ)) : Mapping := ps.map fun p => (p.1, .int p.2)

/-- The path of a signal, with its entry of a vector. -/
def offer (c : Circuit) (v : Array ℕ) (s : Signal) : String × ℕ := (s.path, v.getD (c.place s) 0)

/-- The inputs and overrides that dictate a vector: each main input by its path,
    and each other signal but the constant by its path, in any order. -/
structure Dictates (c : Circuit) (v : Array ℕ) (inputs overrides : List (String × ℕ)) : Prop where
  inputs : inputs.Perm ((c.signals.toList.filter fun s => Circuit.isMainInput s).map (offer c v))
  overrides : overrides.Perm ((c.signals.toList.filter fun s =>
    s.kind ≠ .one ∧ Circuit.isMainInput s = false).map (offer c v))

instance (c : Circuit) (v : Array ℕ) (inputs overrides : List (String × ℕ)) :
    Decidable (Dictates c v inputs overrides) :=
  decidable_of_iff (inputs.Perm _ ∧ overrides.Perm _)
    ⟨fun h => ⟨h.1, h.2⟩, fun h => ⟨h.inputs, h.overrides⟩⟩

/-- The signals of a circuit have distinct paths. -/
def DistinctPaths (c : Circuit) : Prop := (c.signals.toList.map (·.path)).Nodup

instance (c : Circuit) : Decidable (DistinctPaths c) := inferInstanceAs (Decidable (List.Nodup _))

section
variable {v : Array ℕ} {inputs overrides : List (String × ℕ)}

theorem DistinctPaths.eq_of_path (h : DistinctPaths c) {s t : Signal} (hs : s ∈ c.signals)
    (ht : t ∈ c.signals) (hp : s.path = t.path) : s = t :=
  List.inj_on_of_nodup_map h (Array.mem_toList_iff.2 hs) (Array.mem_toList_iff.2 ht) hp

/-- Where paths are distinct, a signal is found under its path. -/
theorem DistinctPaths.byPath? (h : DistinctPaths c) {s : Signal} (hs : s ∈ c.signals) :
    c.byPath? s.path = some s := by
  have hrev : (c.signals.toList.reverse.map Signal.path).Nodup := by
    rw [List.map_reverse]; exact List.nodup_reverse.2 h
  exact find?_of_nodup hrev (by simpa using hs)

theorem DistinctPaths.signal? (h : DistinctPaths c) {s : Signal} (hs : s ∈ c.signals) :
    c.signal? s.path = some s := by
  rw [Circuit.signal?, h.byPath? hs]

theorem Dictates.mem_overrides (h : Dictates c v inputs overrides) {p : String × Value} :
    p ∈ supply overrides ↔ ∃ s ∈ c.signals, s.kind ≠ .one ∧ Circuit.isMainInput s = false ∧
      p = (s.path, .int (v.getD (c.place s) 0)) := by
  rw [supply, (h.overrides.map _).mem_iff]
  simp only [List.map_map, List.mem_map, List.mem_filter, Array.mem_toList_iff, decide_eq_true_eq,
    and_assoc]
  simp only [eq_comm, Function.comp_apply, offer]

/-- The entry of a signal in a canonical vector. -/
theorem entry_of_mem (hc : c.Coherent sts) (hsize : v.size = c.system.signals)
    (hcanonical : ∀ x ∈ v, x < c.field.p) {s : Signal} (hs : s ∈ c.signals) :
    v[c.place s]? = some (v.getD (c.place s) 0) ∧ v.getD (c.place s) 0 < c.field.p := by
  have hlt : c.place s < v.size := hsize ▸ hc.place_lt hs
  have hv : v[c.place s]? = some (v.getD (c.place s) 0) := by
    rw [Array.getD_eq_getD_getElem?, Array.getElem?_eq_getElem hlt]; rfl
  exact ⟨hv, hcanonical _ (Array.mem_iff_getElem?.2 ⟨_, hv⟩)⟩

section
variable (hc : c.Coherent sts) (hbelow : ∀ s ∈ inputSignals c, Below "main" s.path)
  (hpaths : DistinctPaths c)
include hc hbelow hpaths

theorem inputName_inj {s t : Signal} (hs : s ∈ inputSignals c) (ht : t ∈ inputSignals c)
    (h : inputName s = inputName t) : s = t := by
  refine hpaths.eq_of_path ((hc.inputs s).1 hs).1 ((hc.inputs t).1 ht).1 ?_
  rw [(relative_path (hbelow s hs)).2, (relative_path (hbelow t ht)).2, h]

/-- The entries of the dictated inputs: one for each main input, under its name. -/
theorem Dictates.entries_spec (hd : Dictates c v inputs overrides) :
    ((entries (supply inputs)).map (·.1)).Nodup ∧
      ∀ p, p ∈ entries (supply inputs) ↔
        ∃ s ∈ inputSignals c, p = (inputName s, .int (v.getD (c.place s) 0)) := by
  set named : Signal → String × Value := fun s => (inputName s, .int (v.getD (c.place s) 0))
  set ins := c.signals.toList.filter fun s => Circuit.isMainInput s
  have hmem {s : Signal} : s ∈ ins ↔ s ∈ inputSignals c := by
    rw [List.mem_filter, Array.mem_toList_iff, hc.inputs]
  -- a single value has one entry
  have hflat : ((supply inputs).flatMap fun p => flatten (relative p.1) p.2).Perm
      (ins.map named) := by
    refine ((hd.inputs.map _).flatMap_right _).trans (.of_eq ?_)
    rw [List.map_map, List.flatMap_map, List.map_eq_flatMap]
    refine List.flatMap_congr fun s hs => ?_
    rw [Function.comp_apply, offer, (relative_path (hbelow s (hmem.1 hs))).1]
    rfl
  have hnames : ((ins.map named).map (·.1)).Nodup := by
    rw [List.map_map]
    refine List.Nodup.map_on (fun s hs t ht => ?_) (hpaths.of_map.filter _)
    exact inputName_inj hc hbelow hpaths (hmem.1 hs) (hmem.1 ht)
  have hnodup := (hflat.map (·.1)).nodup_iff.2 hnames
  rw [entries, Mapping.ofPairs_of_nodup hnodup]
  refine ⟨hnodup, fun p => ?_⟩
  rw [hflat.mem_iff, List.mem_map]
  exact ⟨fun ⟨s, hs, h⟩ => ⟨s, hmem.1 hs, h.symm⟩, fun ⟨s, hs, h⟩ => ⟨s, hmem.2 hs, h.symm⟩⟩

variable (hsize : v.size = c.system.signals) (hcanonical : ∀ x ∈ v, x < c.field.p)
include hsize hcanonical

/-- The dictated inputs give each main input its entry of the vector. -/
theorem Dictates.supplies (hd : Dictates c v inputs overrides) {s : Signal}
    (hs : s ∈ inputSignals c) : Supplies c (supply inputs) s (v.getD (c.place s) 0) := by
  obtain ⟨hnodup, hmem⟩ := hd.entries_spec hc hbelow hpaths
  have hlt := (entry_of_mem hc hsize hcanonical ((hc.inputs s).1 hs).1).2
  have hfound := Mapping.find?_of_mem hnodup ((hmem _).2 ⟨s, hs, rfl⟩)
  exact ⟨.int (v.getD (c.place s) 0), hfound, coerce_canonical hlt⟩

/-- The dictated inputs are accepted. -/
theorem Dictates.loadInputs_ok (hd : Dictates c v inputs overrides)
    (honce : (inputSignals c).Nodup) :
    ∃ known, loadInputs c (supply inputs) (initial c) = .ok known := by
  obtain ⟨-, hmem⟩ := hd.entries_spec hc hbelow hpaths
  have hnames : ((inputSignals c).map inputName).Nodup :=
    honce.map_on fun s hs t ht => inputName_inj hc hbelow hpaths hs ht
  obtain ⟨known, hl⟩ := @loadSignals_ok c _ (initial c) (entries (supply inputs)) hnames fun s hs =>
    (hd.supplies hc hbelow hpaths hsize hcanonical hs).imp fun u hu => ⟨_, hu⟩
  have hused : ((entries (supply inputs)).filter
      fun p => p.1 ∉ (inputSignals c).map inputName) = [] := by
    refine List.filter_eq_nil_iff.2 fun p hp => ?_
    obtain ⟨s, hs, rfl⟩ := (hmem p).1 hp
    simpa using ⟨s, hs, rfl⟩
  rw [hused] at hl
  exact ⟨known, by rw [loadInputs, hl]; rfl⟩

end

/-- The dictated overrides are accepted: they name neither the constant nor a main
    input. -/
theorem Dictates.resolveOverrides_ok (hc : c.Coherent sts)
    (hnamed : ∀ s ∈ c.signals, s.kind ≠ .one → s.component ≠ "") (hpaths : DistinctPaths c)
    (hsize : v.size = c.system.signals) (hcanonical : ∀ x ∈ v, x < c.field.p)
    (hd : Dictates c v inputs overrides) :
    ∃ forced, resolveOverrides c (supply overrides) = .ok forced := by
  refine Witness.resolveOverrides_ok fun p hp => ?_
  obtain ⟨s, hs, hk, hi, rfl⟩ := hd.mem_overrides.1 hp
  exact ⟨_, resolveOverride_of_signal? (hpaths.signal? hs) hk hi (hnamed s hs hk)
    (coerce_canonical (entry_of_mem hc hsize hcanonical hs).2)⟩

/-- An override of a signal supplies its entry of the vector. -/
theorem Dictates.eq_offer (hpaths : DistinctPaths c) (hd : Dictates c v inputs overrides)
    {s : Signal} {p : String × Value} (ho : override? c (supply overrides) s = some p) :
    p = (s.path, .int (v.getD (c.place s) 0)) := by
  obtain ⟨t, ht, -, -, rfl⟩ :=
    hd.mem_overrides.1 (List.mem_reverse.1 (List.mem_of_find?_eq_some ho))
  have hts : c.signal? t.path = some s := by simpa using List.find?_some ho
  rw [hpaths.signal? ht] at hts
  rw [Option.some.inj hts]

/-- Every signal but the constant and the main inputs is overridden. -/
theorem Dictates.override?_ne_none (hpaths : DistinctPaths c) (hd : Dictates c v inputs overrides)
    {s : Signal} (hs : s ∈ c.signals) (hk : s.kind ≠ .one) (hi : Circuit.isMainInput s = false) :
    override? c (supply overrides) s ≠ none := by
  intro ho
  have hmem := hd.mem_overrides.2 ⟨s, hs, hk, hi, rfl⟩
  refine absurd (List.find?_eq_none.1 ho _ (List.mem_reverse.2 hmem)) ?_
  simp [hpaths.signal? hs]

/-- **A vector solves the rules under the inputs and overrides that dictate it.** -/
theorem solves_dictated (hc : c.Coherent sts) (hown : ∀ st ∈ sts, st.Own c)
    (hbelow : ∀ s ∈ inputSignals c, Below "main" s.path) (hpaths : DistinctPaths c)
    (hsize : v.size = c.system.signals) (hcanonical : ∀ x ∈ v, x < c.field.p)
    (hone : v[0]? = some 1) (hd : Dictates c v inputs overrides) :
    Solves c (supply inputs) (supply overrides) v where
  size := hsize
  canonical := hcanonical
  one := hone
  input s hs := ⟨_, hd.supplies hc hbelow hpaths hsize hcanonical hs,
    (entry_of_mem hc hsize hcanonical ((hc.inputs s).1 hs).1).1⟩
  override s hs p hp := by
    obtain ⟨hv, hlt⟩ := entry_of_mem hc hsize hcanonical hs
    rw [hd.eq_offer hpaths hp]
    exact ⟨_, coerce_canonical hlt, hv⟩
  rule r hr ho := by
    obtain ⟨hk, hi⟩ := hc.targets r hr
    exact absurd ho (hd.override?_ne_none hpaths (hc.target_mem hown hr) hk hi)

end

end

/-! ## Compiled circuits -/

/-- **Every vector can be dictated, and the check decides.**  In a circuit whose
    signals have distinct paths, a canonical vector with the constant one in front
    is supplied by paths: the main inputs as inputs, every other signal as an
    override.  Evaluation returns exactly that vector if it satisfies every row,
    and otherwise fails on a row that it violates. -/
theorem evaluate_dictated {σ : Type} {settings : Settings} {t : Template σ} {host : σ}
    {public_ : List String} {c : Circuit} (h : OwnCompilation settings t host public_ c)
    (hpaths : DistinctPaths c) {v : Array ℕ} (hsize : v.size = c.system.signals) (hcanonical : ∀ x ∈ v, x < c.field.p)
    (hone : v[0]? = some 1) {inputs overrides : List (String × ℕ)}
    (hd : Dictates c v inputs overrides) :
    ((∀ r ∈ c.system.constraints, r.isSatisfied (v.map Int.ofNat) c.system.prime = .ok true) →
      evaluate c (supply inputs) (supply overrides) = .ok ⟨c, v⟩) ∧
    (¬ (∀ r ∈ c.system.constraints, r.isSatisfied (v.map Int.ofNat) c.system.prime = .ok true) →
      ∃ row r count values, c.system.constraints[row]? = some r ∧
        r.isSatisfied (v.map Int.ofNat) c.system.prime = .ok false ∧
        evaluate c (supply inputs) (supply overrides) =
          .error (.unsatisfied row r.origin count values)) := by
  have hc := h.coherent
  have hown := h.own
  obtain ⟨hplaced, honce⟩ := compile_placed h.result
  have hbelow : ∀ s ∈ inputSignals c, Below "main" s.path := by
    intro s hs
    obtain ⟨hs, hi⟩ := (hc.inputs s).1 hs
    rw [Circuit.isMainInput, Bool.and_eq_true, beq_iff_eq, beq_iff_eq] at hi
    exact hi.2 ▸ (hplaced s hs (by rw [hi.1]; simp)).2
  have hv := solves_dictated hc hown hbelow hpaths hsize hcanonical hone hd
  obtain ⟨known, hload⟩ := hd.loadInputs_ok hc hbelow hpaths hsize hcanonical honce
  obtain ⟨forced, hres⟩ := hd.resolveOverrides_ok hc (fun s hs hk => (hplaced s hs hk).1) hpaths
    hsize hcanonical
  have hknown := placed hc hown (fun _ hr => hr) (loadInputs_spec hc hload).1
  obtain ⟨final, hfinal⟩ := @runRules_forced c forced c.rules known hknown fun r hr => by
    obtain ⟨hk, hi⟩ := hc.targets r hr
    have ht := hc.target_mem hown hr
    obtain ⟨p, hp⟩ := Option.ne_none_iff_exists'.1 (hd.override?_ne_none hpaths ht hk hi)
    obtain ⟨⟨n, -, hn⟩, -⟩ := forcedAt_eq_some hc hres ht hp
    exact ⟨n, hn⟩
  have heval := evaluate_eq_verify hload hres hfinal
  rw [← hv.eq_complete hc hown hload hres (.refl _) hfinal] at heval
  refine ⟨fun hall => by rw [heval, (verify_spec hc hown hv.fits).1 hall]; rfl, fun hnot => ?_⟩
  obtain ⟨bad, hbad, -, hmem⟩ := hc.unsatisfiedRows hown hv.fits
  cases bad with
  | nil => exact absurd ((hc.unsatisfiedRows_eq_nil hown hv.fits).1 hbad) hnot
  | cons row rest =>
    obtain ⟨r, hr, hfalse⟩ := (hmem row).1 List.mem_cons_self
    exact ⟨row, r, _, _, hr, hfalse, by rw [heval, verify_of_violated hbad hr]; rfl⟩

open Build in
/-- An output that tells whether the input is zero, asked of a child. -/
def askZero : Build Unit Unit := do
  let x ← signal .input "x"
  let y ← signal .output "y"
  let zero ← component "zero" Gadget.isZeroTemplate
  assign (← terminalSignal zero "in") (.ofSignal x)
  assign y (.ofSignal (← terminalSignal zero "out"))

/-- The template of this question. -/
def askZeroTemplate : Template Unit := ⟨.of "AskZero" [], askZero⟩

/-- For the input three modulo seven a prover reaches the honest vector through
    overrides, and is refused when the child is made to answer that it is zero. -/
theorem askZero_dictated :
    ∃ c, (compile { prime := .int 7 } askZeroTemplate () []).result = .ok c ∧
      evaluate c (supply [("main.x", 3)]) (supply [("main.zero.inv", 5), ("main.zero.out", 0),
        ("main.y", 0), ("main.zero.in", 3)]) = .ok ⟨c, #[1, 0, 3, 3, 0, 5]⟩ ∧
      ∃ row origin count values,
        evaluate c (supply [("main.x", 3)]) (supply [("main.zero.inv", 5), ("main.zero.out", 1),
          ("main.y", 1), ("main.zero.in", 3)]) = .error (.unsatisfied row origin count values) := by
  obtain ⟨c, hc, hown, hpaths, hsize, hp, hsat, hviolated, hhonest, hforged⟩ := exists_ok
    (x := (compile { prime := .int 7 } askZeroTemplate () []).result)
    (P := fun c =>
      (∀ st ∈ executed { prime := .int 7 } askZeroTemplate (), st.Own c) ∧ DistinctPaths c ∧
      c.system.signals = 6 ∧ c.field.p = 7 ∧
      (∀ r ∈ c.system.constraints,
        r.isSatisfied (#[1, 0, 3, 3, 0, 5].map Int.ofNat) c.system.prime = .ok true) ∧
      (¬ ∀ r ∈ c.system.constraints,
        r.isSatisfied (#[1, 1, 3, 3, 1, 5].map Int.ofNat) c.system.prime = .ok true) ∧
      Dictates c #[1, 0, 3, 3, 0, 5] [("main.x", 3)] [("main.zero.inv", 5), ("main.zero.out", 0),
        ("main.y", 0), ("main.zero.in", 3)] ∧
      Dictates c #[1, 1, 3, 3, 1, 5] [("main.x", 3)] [("main.zero.inv", 5), ("main.zero.out", 1),
        ("main.y", 1), ("main.zero.in", 3)])
    (by decide +kernel)
  have hcanonical : (∀ x ∈ #[1, 0, 3, 3, 0, 5], x < c.field.p) ∧
      ∀ x ∈ #[1, 1, 3, 3, 1, 5], x < c.field.p := by rw [hp]; decide
  refine ⟨c, hc, ?_, ?_⟩
  · exact (evaluate_dictated ⟨hc, hown⟩ hpaths (by rw [hsize]; rfl) hcanonical.1 rfl hhonest).1 hsat
  · obtain ⟨row, r, count, values, -, -, herr⟩ :=
      (evaluate_dictated ⟨hc, hown⟩ hpaths (by rw [hsize]; rfl) hcanonical.2 rfl hforged).2
        hviolated
    exact ⟨row, r.origin, count, values, herr⟩

open Build in
/-- An output that copies the input, and a hint for a kept one at its position. -/
def undermined : Build Unit Unit := do
  let x ← signal .input "x"
  let o ← signal .output "o"
  assign o (.ofSignal x)
  hint (kept 2) (.isPosition 0) (.ofSignal x)

def underminedTemplate : Template Unit := ⟨.of "Undermined" [], undermined⟩

/-- The rule of the kept output runs, since no override names it, and writes over the
    input: a vector that satisfies the row is dictated and refused. -/
theorem kept_target_evades_dictation :
    ∃ c, (compile { prime := .int 97 } underminedTemplate () []).result = .ok c ∧
      c.system.signals = 3 ∧
      c.system.constraints = [⟨⟨[]⟩, ⟨[]⟩, ⟨[(1, 1), (2, 96)]⟩, "main"⟩] ∧ DistinctPaths c ∧
      Dictates c #[1, 5, 5] [("main.x", 5)] [("main.o", 5)] ∧
      c.system.unsatisfiedRows (#[1, 5, 5].map Int.ofNat) = .ok [] ∧
      compute c (supply [("main.x", 5)]) (supply [("main.o", 5)]) = .ok #[1, 5, 0] ∧
      failure (evaluate c (supply [("main.x", 5)]) (supply [("main.o", 5)])) =
        some .unsatisfied :=
  exists_ok (by decide +kernel)

end RankOne.Witness
