/-
  RankOne — which inputs are accepted, and what becomes of them.

  * `loads_iff`: inputs load exactly if their keys are the names of the main inputs and the
    last leaf of each is taken for a field element;
  * `evaluate_input`: a witness holds the last leaf of each main input;
  * `Fills`, `Echoes`: a nested value of given sizes, and nested results with the same
    entries; `echoes_collect`: a bus gives back what fills it;
  * `Whole`: a mapping of one value for each declaration, of its sizes; `Whole.acceptable_iff`,
    `Whole.echoes`: it is refused for its leaves only, and comes back;
  * `inputs_round_trip`: what follows for compiled circuits.
-/
import RankOne.Proofs.Build.Nested
import RankOne.Proofs.Witness.Leaves
import RankOne.Proofs.Witness.Safe
import RankOne.Proofs.Witness.Supply

namespace RankOne

section
variable {σ : Type} {settings : Settings} {t : Template σ} {host : σ} {public_ : List String}
  {c : Circuit}

/-- The main component: its path, what it lists, and how that is nested. -/
theorem compile_main (h : (compile settings t host public_).result = .ok c) :
    c.mainInstance.path = "main" ∧ c.mainInstance.Listed ∧
      ∀ d ∈ c.mainInstance.declarations, d.bus.Spans d.bus.shape ("main." ++ d.name) := by
  obtain ⟨field, w, -, hrun, hc⟩ := compile_spec h
  have hopen := Workspace.opened_sound t field settings.dangling
  have hw := hrun.sound hopen
  have hl := hrun.listed hopen (Workspace.opened_listed t field settings.dangling)
  have hs := hrun.spanned (Workspace.opened_spanned t field settings.dangling)
  obtain ⟨-, hat, hmain, -⟩ := Circuit.of_workspace hw hc
  have heq : c.mainInstance = w.instanceAt 0 := by rw [← hat 0, ← hmain]; rfl
  refine ⟨heq ▸ hw.main, heq ▸ hl 0, fun d hd => ?_⟩
  have hspans := hs 0 d (heq ▸ hd)
  rw [hw.main] at hspans
  exact hspans

/-- Main inputs are named below the main component. -/
theorem compile_input_path (h : (compile settings t host public_).result = .ok c) {s : Signal}
    (hs : s ∈ Witness.inputSignals c) : s.path = "main." ++ Witness.inputName s := by
  obtain ⟨hmem, hi⟩ := ((compile_coherent h).inputs s).1 hs
  rw [Circuit.isMainInput, Bool.and_eq_true, beq_iff_eq, beq_iff_eq] at hi
  have hbelow := ((compile_placed h).1 s hmem (by rw [hi.1]; simp)).2
  rw [hi.2] at hbelow
  exact (Witness.relative_path hbelow).2

end

namespace Witness

section
variable {c : Circuit} {sts : List Statement} {inputs overrides : Mapping}

/-! ## Acceptance -/

/-- The keys of a mapping are the names of the main inputs, and the last leaf of each is
    taken for a field element. -/
structure Acceptable (c : Circuit) (inputs : Mapping) : Prop where
  keys : ∀ key, (∃ p ∈ inputs, ∃ x, Leaf p key x) ↔ ∃ s ∈ inputSignals c, s.path = "main." ++ key
  last : ∀ key x, LastLeaf inputs key x → ∃ m, Admits c.settings.inputs c.field x m

/-- Nothing is left over exactly if every key is used. -/
theorem entries_used_iff {names : List String} :
    ((entries inputs).filter fun p => p.1 ∉ names) = [] ↔
      ∀ key, (∃ p ∈ inputs, ∃ x, Leaf p key x) → key ∈ names := by
  rw [List.filter_eq_nil_iff]
  simp only [← mem_keys_entries, List.mem_map, decide_not, Bool.not_eq_true',
    decide_eq_false_iff_not, not_not]
  exact ⟨fun h key ⟨p, hp, hkey⟩ => hkey ▸ h p hp, fun h p hp => h p.1 ⟨p, hp, rfl⟩⟩

/-- Inputs load if no name is missing and no entry is left over. -/
theorem loadInputs_eq_ok {values known : Known} : loadInputs c inputs values = .ok known ↔
    loadSignals c (inputSignals c) values [] (entries inputs) = .ok (known, [], []) := by
  constructor
  · intro h
    obtain ⟨⟨values', missing, given⟩, hl, h⟩ := bind_eq_ok.1 h
    dsimp only at h
    split_ifs at h with hm hg
    cases h
    simp only [Bool.not_eq_true, Bool.not_eq_false', List.isEmpty_iff] at hm hg
    rw [hl, hm, hg]
  · intro h
    rw [loadInputs, h]
    rfl

theorem mem_inputNames (hpath : ∀ s ∈ inputSignals c, s.path = "main." ++ inputName s)
    {key : String} :
    key ∈ (inputSignals c).map inputName ↔ ∃ s ∈ inputSignals c, s.path = "main." ++ key := by
  rw [List.mem_map]
  refine exists_congr fun s => and_congr_right fun hs => ?_
  rw [hpath s hs, String.append_right_inj]

/-- **Which inputs load.** -/
theorem loads_iff (hc : c.Coherent sts)
    (hpath : ∀ s ∈ inputSignals c, s.path = "main." ++ inputName s)
    (hnames : ((inputSignals c).map inputName).Nodup) {values : Known} :
    (∃ known, loadInputs c inputs values = .ok known) ↔ Acceptable c inputs := by
  have hname {key : String} := @mem_inputNames c hpath key
  simp only [loadInputs_eq_ok]
  constructor
  · rintro ⟨known, hl⟩
    obtain ⟨-, -, hfound, -⟩ := loadSignals_spec hc (fun s hs => ((hc.inputs s).1 hs).1) hl
    obtain ⟨known', hl'⟩ := @loadSignals_ok c _ values (entries inputs) hnames fun s hs => by
      obtain ⟨u, n, hu, hn, -⟩ := hfound s hs
      exact ⟨u, n, hu, hn⟩
    have hused := entries_used_iff.1 (congrArg (·.2.2) (Except.ok.inj (hl'.symm.trans hl)))
    refine ⟨fun key => ⟨fun hkey => hname.1 (hused key hkey), fun hkey => ?_⟩,
      fun key x hx => ?_⟩
    · obtain ⟨s, hs, rfl⟩ := List.mem_map.1 (hname.2 hkey)
      obtain ⟨u, -, hu, -⟩ := hfound s hs
      obtain ⟨p, hp, hleaf⟩ := (find?_entries.1 hu).exists_leaf
      exact ⟨p, hp, u, hleaf⟩
    · obtain ⟨p, hp, hleaf⟩ := hx.exists_leaf
      obtain ⟨s, hs, rfl⟩ := List.mem_map.1 (hused key ⟨p, hp, x, hleaf⟩)
      obtain ⟨u, n, hu, hn, -⟩ := hfound s hs
      cases hx.find?.symm.trans hu
      exact ⟨n, coerce_eq_ok.1 hn⟩
  · rintro ⟨hkeys, hlast⟩
    obtain ⟨known, hl⟩ := @loadSignals_ok c _ values (entries inputs) hnames fun s hs => by
      obtain ⟨x, hx⟩ := exists_lastLeaf ((hkeys _).2 (hname.1 (List.mem_map_of_mem hs)))
      obtain ⟨m, hm⟩ := hlast _ x hx
      exact ⟨x, m, hx.find?, coerce_eq_ok.2 hm⟩
    rw [entries_used_iff.2 fun key hkey => hname.2 ((hkeys key).1 hkey)] at hl
    exact ⟨known, hl⟩

/-! ## Evaluation -/

/-- Rules leave the places of other signals alone. -/
theorem runRules_kept {forced : List (ℕ × ℕ)} {i : ℕ} {final : Known} {rs : List Rule}
    (hi : ∀ r ∈ rs, ∀ j, c.index r.target = .ok j → j ≠ i) : ∀ {values : Known},
    runRules c forced rs values = .ok final → final[i]? = values[i]? := by
  induction rs with
  | nil =>
    intro values h
    cases h
    rfl
  | cons r rs ih =>
    intro values h
    obtain ⟨hr, hi⟩ := List.forall_mem_cons.1 hi
    rw [runRules] at h
    obtain ⟨j, hj, h⟩ := bind_eq_ok.1 h
    obtain ⟨n, -, h⟩ := bind_eq_ok.1 h
    split_ifs at h
    rw [ih hi h, Array.getElem?_setIfInBounds_ne (hr j hj)]

/-- **A witness holds the last leaf of each main input**, where the rules compute signals of
    the circuit. -/
theorem evaluate_input (hc : c.Coherent sts) {w : Witness}
    (h : evaluate c inputs overrides = .ok w) :
    w.circuit = c ∧ (∃ known, loadInputs c inputs (initial c) = .ok known) ∧
      ((∀ r ∈ c.rules, r.target ∈ c.signals) → ∀ s ∈ inputSignals c, ∃ x, LastLeaf inputs (inputName s) x ∧
        Admits c.settings.inputs c.field x (w.valueOf s)) := by
  obtain ⟨values, hcompute, h⟩ := bind_eq_ok.1 h
  obtain ⟨-, -, h⟩ := bind_eq_ok.1 h
  obtain ⟨known, hload, hcompute⟩ := bind_eq_ok.1 hcompute
  obtain ⟨forced, -, hcompute⟩ := bind_eq_ok.1 hcompute
  obtain ⟨final, hfinal, hcompute⟩ := bind_eq_ok.1 hcompute
  cases h
  cases hcompute
  refine ⟨rfl, ⟨known, hload⟩, fun htargets s hs => ?_⟩
  obtain ⟨-, -, hsupplied, -⟩ := loadInputs_spec hc hload
  obtain ⟨n, ⟨x, hx, hn⟩, hplace⟩ := hsupplied s hs
  obtain ⟨hmem, hinput⟩ := (hc.inputs s).1 hs
  -- no rule computes a main input
  have hfree : ∀ r ∈ c.rules, ∀ j, c.index r.target = .ok j → j ≠ c.place s := by
    intro r hr j hj hp
    obtain rfl : c.place r.target = j := Except.ok.inj ((hc.index_eq (htargets r hr)).symm.trans hj)
    obtain rfl := hc.place_inj (htargets r hr) hmem hp
    exact Bool.false_ne_true ((hc.targets r hr).2.symm.trans hinput)
  have hvalue : valueOf ⟨c, complete final⟩ s = n := by
    rw [valueOf, complete, Array.getD_eq_getD_getElem?, Array.getElem?_map,
      runRules_kept hfree hfinal, hplace]
    rfl
  exact ⟨x, find?_entries.1 hx, hvalue ▸ coerce_eq_ok.1 hn⟩

end

/-! ## Nested values -/

/-- A nested value of exactly these sizes. -/
def Fills : List ℕ → Value → Prop
  | [], v => items? v = none
  | d :: ds, v => ∃ xs, items? v = some xs ∧ xs.length = d ∧ ∀ x ∈ xs, Fills ds x

/-- Nested results with the entries of a nested value, as field elements. -/
inductive Echoes (policy : InputPolicy) (f : PrimeField) : Value → Nested → Prop
  | leaf {v : Value} {m : ℕ} : items? v = none → Admits policy f v m → Echoes policy f v (.value m)
  | items {v : Value} {xs : List Value} {outs : List Nested} : items? v = some xs →
      List.Forall₂ (Echoes policy f) xs outs → Echoes policy f v (.items outs)

/-- A declaration of the main component is found by its name. -/
theorem value_of_mem {w : Witness}
    (hnames : (w.circuit.mainInstance.declarations.map (·.name)).Nodup) {d : Declaration}
    (hd : d ∈ w.circuit.mainInstance.declarations) : w.value d.name = .ok (w.collect d.bus) := by
  rw [value, find?_of_nodup hnames hd]

theorem collectItems_eq_map (w : Witness) (buses : List Bus) :
    w.collectItems buses = buses.map w.collect := by
  induction buses with
  | nil => rfl
  | cons b bs ih => rw [collectItems, ih, List.map_cons]

/-- The keys of items that fill their sizes, from the `i`-th on. -/
theorem keys_flattenItems {ds : List ℕ}
    (hds : ∀ {v : Value} {name : String}, Fills ds v →
      (flatten name v).map (·.1) = rowMajor ds name)
    {name : String} {xs : List Value} : ∀ {i : ℕ}, (∀ x ∈ xs, Fills ds x) →
      (flattenItems name i xs).map (·.1) =
        (List.range' i xs.length).flatMap fun j => rowMajor ds s!"{name}[{j}]" := by
  induction xs with
  | nil => exact fun _ => rfl
  | cons x xs ih =>
    intro i hfill
    obtain ⟨hx, hxs⟩ := List.forall_mem_cons.1 hfill
    rw [flattenItems, List.map_append, hds hx, ih hxs, List.length_cons, List.range'_succ,
      List.flatMap_cons]

/-- The keys of a value that fills its sizes are those of an array of these sizes. -/
theorem Fills.keys {dims : List ℕ} : ∀ {v : Value} {name : String}, Fills dims v →
    (flatten name v).map (·.1) = rowMajor dims name := by
  induction dims with
  | nil =>
    intro v name h
    rw [flatten_of_leaf h]
    rfl
  | cons d ds ih =>
    rintro v name ⟨xs, hxs, rfl, hfill⟩
    rw [flatten_of_items hxs, keys_flattenItems ih hfill, rowMajor, List.range_eq_range']

/-- **A bus gives back what fills it.** -/
theorem echoes_collect (w : Witness) {policy : InputPolicy} {f : PrimeField} {dims : List ℕ} :
    ∀ {v : Value} {name : String} {bus : Bus}, Fills dims v → bus.Spans dims ("main." ++ name) →
      (∀ s ∈ bus.flat, ∀ x, (inputName s, x) ∈ flatten name v → Admits policy f x (w.valueOf s)) →
      Echoes policy f v (w.collect bus) := by
  induction dims with
  | nil =>
    rintro v name bus hfill ⟨s, rfl, hpath⟩ hs
    have hname : inputName s = name := by rw [inputName, hpath, drop_main]
    refine .leaf hfill (hs s List.mem_cons_self v ?_)
    rw [flatten_of_leaf hfill, hname]
    exact List.mem_cons_self
  | cons d ds ih =>
    rintro v name bus ⟨xs, hxs, hlen, hfill⟩ ⟨items, mark, rfl, hitems⟩ hs
    refine .items hxs ?_
    rw [collectItems_eq_map, List.forall₂_map_right_iff, List.forall₂_iff_get]
    refine ⟨by rw [hlen, ← hitems.length_eq, List.length_range], fun i hx hi => ?_⟩
    have hspans := hitems.get (by rwa [List.length_range, ← hlen]) hi
    rw [List.get_eq_getElem, List.getElem_range, index_append] at hspans
    -- the entries of an item are among those of the array
    refine ih (hfill _ (List.get_mem _ _)) hspans fun s hmem x hleaf => hs s ?_ x ?_
    · exact Bus.mem_flatItems (List.get_mem _ _) hmem
    · rw [flatten_of_items hxs, mem_flattenItems]
      exact ⟨i, _, List.getElem?_eq_getElem hx, by rwa [Nat.zero_add]⟩

/-! ## Mappings that fill the main inputs -/

/-- Each declaration is supplied, in this order, by a value of its sizes. -/
def Whole (ds : List Declaration) (inputs : Mapping) : Prop :=
  List.Forall₂ (fun d p => relative p.1 = d.name ∧ Fills d.bus.shape p.2) ds inputs

/-- Only the names and sizes of declarations count. -/
theorem whole_iff {ds : List Declaration} {inputs : Mapping} : Whole ds inputs ↔
    List.Forall₂ (fun q p => relative p.1 = q.1 ∧ Fills q.2 p.2)
      (ds.map fun d => (d.name, d.bus.shape)) inputs := by
  rw [List.forall₂_map_left_iff]
  rfl

section
variable {ds : List Declaration} {inputs : Mapping} (h : Whole ds inputs)
include h

theorem Whole.keys :
    (inputs.flatMap fun p => flatten (relative p.1) p.2).map (·.1) = entryNames ds := by
  induction h with
  | nil => rfl
  | cons hd _ ih =>
    rw [List.flatMap_cons, List.map_append, ih, hd.1, hd.2.keys]
    rfl

theorem Whole.mem_keys {key : String} :
    (∃ p ∈ inputs, ∃ x, Leaf p key x) ↔ key ∈ entryNames ds := by
  rw [← h.keys, List.mem_map]
  constructor
  · rintro ⟨p, hp, x, hx⟩
    exact ⟨_, mem_flatMap_flatten.2 ⟨p, hp, hx⟩, rfl⟩
  · rintro ⟨e, he, rfl⟩
    obtain ⟨p, hp, hx⟩ := mem_flatMap_flatten.1 he
    exact ⟨p, hp, e.2, hx⟩

variable (hnames : (entryNames ds).Nodup)
include hnames

/-- Under distinct keys every leaf is the last one. -/
theorem Whole.lastLeaf {key : String} {x : Value} :
    LastLeaf inputs key x ↔ ∃ p ∈ inputs, Leaf p key x := by
  refine ⟨LastLeaf.exists_leaf, fun hleaf => find?_entries.1 ?_⟩
  rw [← h.keys] at hnames
  rw [entries, Mapping.ofPairs_of_nodup hnames]
  exact Mapping.find?_of_mem hnames (mem_flatMap_flatten.2 hleaf)

/-- Values of the right sizes are refused for their leaves only. -/
theorem Whole.acceptable_iff {c : Circuit}
    (hkeys : ∀ key, key ∈ entryNames ds ↔ ∃ s ∈ inputSignals c, s.path = "main." ++ key) :
    Acceptable c inputs ↔
      ∀ p ∈ inputs, ∀ key x, Leaf p key x → ∃ m, Admits c.settings.inputs c.field x m := by
  constructor
  · intro ha p hp key x hx
    exact ha.last key x ((h.lastLeaf hnames).2 ⟨p, hp, hx⟩)
  · intro ha
    refine ⟨fun key => h.mem_keys.trans (hkeys key), fun key x hx => ?_⟩
    obtain ⟨p, hp, hleaf⟩ := hx.exists_leaf
    exact ha p hp key x hleaf

/-- A witness of the last leaves gives each declaration the entries of its value. -/
theorem Whole.echoes {w : Witness} {policy : InputPolicy} {f : PrimeField}
    (hspans : ∀ d ∈ ds, d.bus.Spans d.bus.shape ("main." ++ d.name))
    (hvalues : ∀ d ∈ ds, ∀ s ∈ d.bus.flat, ∃ x, LastLeaf inputs (inputName s) x ∧
      Admits policy f x (w.valueOf s)) :
    List.Forall₂ (fun d p => Echoes policy f p.2 (w.collect d.bus)) ds inputs := by
  refine List.forall₂_iff_get.2 ⟨h.length_eq, fun i hd hp => ?_⟩
  obtain ⟨hname, hfill⟩ := h.get hd hp
  have hmem := List.get_mem ds ⟨i, hd⟩
  refine echoes_collect w hfill (hspans _ hmem) fun s hs x hx => ?_
  obtain ⟨y, hlast, hy⟩ := hvalues _ hmem s hs
  -- the value of the signal comes from this very leaf
  have hleaf : Leaf (inputs.get ⟨i, hp⟩) (inputName s) x := by
    rw [← hname] at hx
    exact (mem_flatten _).1 hx
  cases hlast.find?.symm.trans ((h.lastLeaf hnames).2 ⟨_, List.get_mem _ _, hleaf⟩).find?
  exact hy

end

/-! ## Compiled circuits -/

section
variable {σ : Type} {settings : Settings} {t : Template σ} {host : σ} {public_ : List String}
  {c : Circuit}

/-- The main inputs are named row by row, declaration by declaration. -/
theorem compile_inputNames (h : (compile settings t host public_).result = .ok c) :
    (inputSignals c).map inputName = entryNames (c.mainInstance.withRole .input) := by
  obtain ⟨hpath, hl, -⟩ := compile_main h
  rw [inputSignals, entryNames, List.map_flatMap]
  exact List.flatMap_congr fun d hd =>
    inputNames_of_listed hl hpath (List.mem_of_mem_filter hd)

theorem compile_inputNames_nodup (h : (compile settings t host public_).result = .ok c)
    (hpaths : ((inputSignals c).map (·.path)).Nodup) :
    ((inputSignals c).map inputName).Nodup := by
  have hmap : (inputSignals c).map (·.path) =
      ((inputSignals c).map inputName).map ("main." ++ ·) := by
    rw [List.map_map]
    exact List.map_congr_left fun s hs => compile_input_path h hs
  rw [hmap] at hpaths
  exact hpaths.of_map

end

end Witness

open Build in
/-- The sum of a table of inputs, beside two rows of none. -/
def sumTable : Build Unit Unit := do
  let rows ← matrix .input "x" (.int 2) (.int 2)
  let _ ← matrix .input "none" (.int 2) (.int 0)
  let y ← signal .output "y"
  assign y (Gadget.total (← field) rows.flatten)

/-- The template of this sum. -/
def sumTableTemplate : Template Unit := ⟨.of "SumTable" [], sumTable⟩

/-- Two rows of two, and two rows of none. -/
def fullTable : Witness.Mapping :=
  [("main.none", .tuple [.list [], .tuple []]),
    ("x", .list [.tuple [.int 9, .int (-1)], .grid [.word 3, .cell (.bool true)]])]

/-- The same entries in rows of one and three. -/
def raggedTable : Witness.Mapping :=
  [("none", .tuple [.list [], .tuple []]),
    ("x", .list [.tuple [.int 9], .tuple [.int (-1), .word 3, .cell (.bool true)]])]

end RankOne
