/-
  RankOne — circuits on supplied inputs.

  * `Supply`: what an input is given, a number, a row of numbers, or rows of them;
  * `Supply.flatten_inputs`, `nodup_entryNames`: the entries of a supply, which have distinct
    names;
  * `Realizes.load`: all supplied inputs are loaded;
  * `Circuit.Carries`, `Witness.Holds`: the values that a vector, and a witness, have under a
    name of the main component;
  * `Circuit.Allows`, `Circuit.Evaluates`, `Circuit.Settles`: what a vector with these inputs
    says, what evaluation gives, and both at once;
  * `Realizes.allows`, `Realizes.evaluates`, `Realizes.settles`: all of it by what the
    statements mean.
-/
import RankOne.Proofs.Witness.Adversary
import RankOne.Proofs.Witness.Names
import RankOne.Proofs.Witness.Realized

namespace RankOne

/-! ## Supplies -/

/-- What an input is given: a number, a row of numbers, or rows of numbers. -/
inductive Supply where
  | single (n : ℕ)
  | row (xs : List ℕ) (mark : Mark)
  | matrix (rows : List (List ℕ × Mark)) (mark : Mark)

namespace Supply

/-- The numbers, row by row. -/
def numbers : Supply → List ℕ
  | single n => [n]
  | row xs _ => xs
  | matrix rows _ => rows.flatMap (·.1)

/-- A list of numbers as a value. -/
def rowValue (xs : List ℕ) (mark : Mark) : Value := .list (xs.map fun x : ℕ => .int x) mark

/-- The value that is passed: an integer, a list, or a list of lists. -/
def value : Supply → Value
  | single n => .int n
  | row xs mark => rowValue xs mark
  | matrix rows mark => .list (rows.map fun r => rowValue r.1 r.2) mark

/-- A supply for an input of these sizes. -/
inductive Shaped : Supply → List ℕ → Prop
  | single (n : ℕ) : Shaped (single n) []
  | row (xs : List ℕ) (mark : Mark) : Shaped (row xs mark) [xs.length]
  | matrix (rows : List (List ℕ × Mark)) (mark : Mark) (k : ℕ) (h : ∀ r ∈ rows, r.1.length = k) :
      Shaped (matrix rows mark) [rows.length, k]

theorem shaped_row {ss : List Signal} {xs : List ℕ} (h : ss.length = xs.length)
    (mark mark' : Mark) : (row xs mark').Shaped (Bus.row ss mark).shape := by
  rw [Bus.row, Bus.shape, h]
  exact .row xs mark'

/-- Supplies by name, as they are passed. -/
def inputs (qs : List (String × Supply)) : Witness.Mapping := qs.map fun q => (q.1, q.2.value)

end Supply

/-- A declaration and its supply, by name and sizes. -/
def Declaration.Takes (d : Declaration) (q : String × Supply) : Prop :=
  d.name = q.1 ∧ q.2.Shaped d.bus.shape

/-! ## Entries -/

namespace Witness

/-- The names of the entries of some inputs. -/
def entryNames (ds : List Declaration) : List String :=
  ds.flatMap fun d => rowMajor d.bus.shape d.name

/-- Numbers by name. -/
def Mapping.ofNats (ps : List (String × ℕ)) : Mapping := ps.map fun p => (p.1, .int p.2)

theorem Mapping.ofNats_zip_append {names names' : List String} {ns ns' : List ℕ}
    (h : names.length = ns.length) : Mapping.ofNats ((names ++ names').zip (ns ++ ns')) =
      Mapping.ofNats (names.zip ns) ++ Mapping.ofNats (names'.zip ns') := by
  rw [List.zip_append h, Mapping.ofNats, List.map_append]
  rfl

theorem rowMajor_row (n : ℕ) (name : String) :
    rowMajor [n] name = (List.range n).map fun i => s!"{name}[{i}]" := by
  rw [rowMajor, List.map_eq_flatMap]
  rfl

@[simp] theorem length_rowMajor_row (n : ℕ) (name : String) : (rowMajor [n] name).length = n := by
  simp [rowMajor_row]

theorem flattenItems_int (name : String) : ∀ (xs : List ℕ) (i : ℕ),
    flattenItems name i (xs.map fun x : ℕ => .int x) =
      Mapping.ofNats (((List.range' i xs.length).map fun j => s!"{name}[{j}]").zip xs)
  | [], _ => rfl
  | x :: xs, i => by
    rw [List.map_cons, flattenItems, flattenItems_int name xs (i + 1), List.length_cons,
      List.range'_succ]
    rfl

/-- The entries of a row. -/
theorem flatten_rowValue (name : String) (xs : List ℕ) (mark : Mark) :
    flatten name (Supply.rowValue xs mark) =
      Mapping.ofNats ((rowMajor [xs.length] name).zip xs) := by
  rw [rowMajor_row, List.range_eq_range', ← flattenItems_int]
  rfl

/-- The entries of rows, row by row. -/
theorem flattenItems_rows (name : String) {k : ℕ} : ∀ (rows : List (List ℕ × Mark)) (i : ℕ),
    (∀ r ∈ rows, r.1.length = k) →
      ((List.range' i rows.length).flatMap fun j => rowMajor [k] s!"{name}[{j}]").length =
        (rows.flatMap (·.1)).length ∧
      flattenItems name i (rows.map fun r => Supply.rowValue r.1 r.2) =
        Mapping.ofNats (((List.range' i rows.length).flatMap fun j =>
          rowMajor [k] s!"{name}[{j}]").zip (rows.flatMap (·.1)))
  | [], _, _ => ⟨rfl, rfl⟩
  | (xs, mark) :: rows, i, h => by
    obtain ⟨hk, h⟩ := List.forall_mem_cons.1 h
    obtain ⟨hlen, hrest⟩ := flattenItems_rows name rows (i + 1) h
    have hxs : (rowMajor [k] s!"{name}[{i}]").length = xs.length := by
      rw [length_rowMajor_row]
      exact hk.symm
    rw [List.length_cons, List.range'_succ, List.flatMap_cons, List.flatMap_cons]
    refine ⟨by rw [List.length_append, List.length_append, hlen, hxs], ?_⟩
    rw [Mapping.ofNats_zip_append hxs, ← hrest, List.map_cons, flattenItems, flatten_rowValue,
      show xs.length = k from hk]

end Witness

open Witness

/-- The entries of one supply. -/
theorem Supply.Shaped.flatten {q : Supply} {shape : List ℕ} (h : q.Shaped shape) (name : String) :
    (rowMajor shape name).length = q.numbers.length ∧
      Witness.flatten name q.value = Mapping.ofNats ((rowMajor shape name).zip q.numbers) := by
  cases h with
  | single n => exact ⟨rfl, rfl⟩
  | row xs mark => exact ⟨length_rowMajor_row _ _, flatten_rowValue name xs mark⟩
  | matrix rows mark k hk =>
    have h := flattenItems_rows name rows 0 hk
    rw [← List.range_eq_range'] at h
    exact h

/-- The entries of all supplies. -/
theorem Supply.flatten_inputs {ds : List Declaration} {qs : List (String × Supply)}
    (h : List.Forall₂ Declaration.Takes ds qs) (hrel : ∀ d ∈ ds, relative d.name = d.name) :
    (entryNames ds).length = (qs.flatMap (·.2.numbers)).length ∧
      (Supply.inputs qs).flatMap (fun p => Witness.flatten (relative p.1) p.2) =
        Mapping.ofNats ((entryNames ds).zip (qs.flatMap (·.2.numbers))) := by
  induction h with
  | nil => exact ⟨rfl, rfl⟩
  | @cons d q ds qs hd _ ih =>
    obtain ⟨hname, hshaped⟩ := hd
    obtain ⟨hrelative, hrel⟩ := List.forall_mem_cons.1 hrel
    obtain ⟨hlen, hentries⟩ := ih hrel
    obtain ⟨hlen', hentries'⟩ := hshaped.flatten d.name
    have hcons : entryNames (d :: ds) = rowMajor d.bus.shape d.name ++ entryNames ds := rfl
    have hinputs : Supply.inputs (q :: qs) = (q.1, q.2.value) :: Supply.inputs qs := rfl
    rw [hcons, hinputs, List.flatMap_cons, List.flatMap_cons]
    refine ⟨by rw [List.length_append, List.length_append, hlen, hlen'], ?_⟩
    rw [Mapping.ofNats_zip_append hlen', ← hentries, ← hentries', ← hname, hrelative]

namespace Witness

/-! ## Names of entries -/

theorem rowMajor_prefix (pre : String) : ∀ (ds : List ℕ) (name : String),
    rowMajor ds (pre ++ name) = (rowMajor ds name).map (pre ++ ·)
  | [], _ => rfl
  | d :: ds, name => by
    rw [rowMajor, rowMajor, List.map_flatMap]
    refine List.flatMap_congr fun i _ => ?_
    rw [← rowMajor_prefix pre ds, index_append]

/-- Inputs of distinct plain names have entries of distinct names. -/
theorem nodup_entryNames {ds : List Declaration} (hnames : (ds.map (·.name)).Nodup)
    (hplain : ∀ d ∈ ds, PlainName d.name) : (entryNames ds).Nodup := by
  refine List.nodup_flatMap.2 ⟨fun d _ => nodup_rowMajor _ _, ?_⟩
  rw [List.nodup_iff_pairwise_ne, List.pairwise_map] at hnames
  refine hnames.imp_of_mem fun {d d'} hd hd' hne x hx hx' => hne ?_
  obtain ⟨rest, hr, -, hrest⟩ := rowMajor_indices _ _ x hx
  obtain ⟨rest', hr', -, hrest'⟩ := rowMajor_indices _ _ x hx'
  -- the name ends where the first index begins
  refine String.toList_injective ?_
  exact (append_inj_of_not_mem (hplain d hd).2 (hplain d' hd').2 hrest hrest' (hr ▸ hr')).1

theorem relative_of_plain {name : String} (h : PlainName name) : relative name = name := by
  rw [relative, if_neg]
  intro hstarts
  exact h.1 ((String.startsWith_string_iff.1 hstarts).subset (by decide))

/-- The main inputs of a declaration are named row by row. -/
theorem inputNames_of_listed {main : Instance} (hl : main.Listed) (hpath : main.path = "main")
    {d : Declaration} (hd : d ∈ main.declarations) :
    d.bus.flat.map inputName = rowMajor d.bus.shape d.name := by
  have hrows := hl.rows d hd
  have hname : s!"{main.path}.{d.name}" = "main." ++ d.name := by
    rw [hpath]
    rfl
  rw [hname, rowMajor_prefix] at hrows
  calc d.bus.flat.map inputName
      = (d.bus.flat.map (·.path)).map fun x => (x.drop 5).toString := by rw [List.map_map]; rfl
    _ = (rowMajor d.bus.shape d.name).map fun x => (("main." ++ x).drop 5).toString := by
        rw [hrows, List.map_map]; rfl
    _ = rowMajor d.bus.shape d.name := by simp only [drop_main, List.map_id']

/-- A canonical value is the residue of each number of its field element. -/
theorem valueOf_eq {w : Witness} {p n : ℕ} {s : Signal} (hlt : w.valueOf s < p)
    (h : (w.valueOf s : ZMod p) = n) : w.valueOf s = n % p := by
  rw [ZMod.natCast_eq_natCast_iff'] at h
  rwa [Nat.mod_eq_of_lt hlt] at h

end Witness

namespace Circuit

variable {c : Circuit} {f : PrimeField} {ins outs : List Declaration}
  {Pre Post : (Signal → ZMod f.p) → Prop} {qs : List (String × Supply)}

theorem Realizes.flat_inputs (h : c.Realizes f ins outs Pre Post) :
    Witness.inputSignals c = Declaration.flat ins := by
  rw [Witness.inputSignals, h.inputs]
  rfl

/-- The main inputs are named by their entries. -/
theorem Realizes.inputNames (h : c.Realizes f ins outs Pre Post) :
    (Declaration.flat ins).map inputName = entryNames ins := by
  rw [Declaration.flat, List.map_flatMap, entryNames]
  refine List.flatMap_congr fun d hd => inputNames_of_listed h.listed h.path ?_
  rw [← h.inputs] at hd
  exact List.mem_of_mem_filter hd

section
variable (h : c.Realizes f ins outs Pre Post) (hs : List.Forall₂ Declaration.Takes ins qs)
  (hplain : ∀ d ∈ ins, PlainName d.name)
include h hs hplain

/-- The entries of supplied inputs have distinct names. -/
theorem Realizes.entries : (entryNames ins).length = (qs.flatMap (·.2.numbers)).length ∧
    entries (Supply.inputs qs) =
      Mapping.ofNats ((entryNames ins).zip (qs.flatMap (·.2.numbers))) ∧
    ((entries (Supply.inputs qs)).map (·.1)) = entryNames ins ∧ (entryNames ins).Nodup := by
  obtain ⟨hlen, hentries⟩ :=
    Supply.flatten_inputs hs fun d hd => relative_of_plain (hplain d hd)
  have hnames : (ins.map (·.name)).Nodup := by
    rw [← h.inputs]
    exact h.listed.names.sublist (List.filter_sublist.map _)
  have hnodup := nodup_entryNames hnames hplain
  have hfst : (Mapping.ofNats ((entryNames ins).zip (qs.flatMap (·.2.numbers)))).map (·.1) =
      entryNames ins := by
    rw [Mapping.ofNats, List.map_map]
    exact List.map_fst_zip hlen.le
  have hgiven : Witness.entries (Supply.inputs qs) =
      Mapping.ofNats ((entryNames ins).zip (qs.flatMap (·.2.numbers))) := by
    rw [Witness.entries, hentries]
    exact Mapping.ofPairs_of_nodup (by rw [hfst]; exact hnodup)
  exact ⟨hlen, hgiven, by rw [hgiven, hfst], hnodup⟩

theorem Realizes.supplies (hlt : ∀ q ∈ qs, ∀ n ∈ q.2.numbers, n < f.p) :
    List.Forall₂ (Supplies c (Supply.inputs qs)) (Declaration.flat ins)
      (qs.flatMap (·.2.numbers)) := by
  obtain ⟨hlen, hgiven, hfst, hnodup⟩ := h.entries hs hplain
  rw [← hfst] at hnodup
  have hcount : (Declaration.flat ins).length = (qs.flatMap (·.2.numbers)).length := by
    rw [← hlen, ← h.inputNames, List.length_map]
  refine List.forall₂_iff_zip.2 ⟨hcount, fun {s n} hsn => ?_⟩
  have hmem : (inputName s, n) ∈ (entryNames ins).zip (qs.flatMap (·.2.numbers)) := by
    rw [← h.inputNames, List.zip_map_left]
    exact List.mem_map.2 ⟨(s, n), hsn, rfl⟩
  have hitem : (inputName s, Value.int n) ∈ Witness.entries (Supply.inputs qs) := by
    rw [hgiven]
    exact List.mem_map.2 ⟨_, hmem, rfl⟩
  have hfind := Mapping.find?_of_mem hnodup hitem
  have hcoerce : coerce c.settings.inputs c.field (inputName s) (.int n) = .ok n := by
    refine coerce_canonical ?_
    obtain ⟨q, hq, hn⟩ := List.mem_flatMap.1 (List.of_mem_zip hsn).2
    rw [h.field]
    exact hlt q hq n hn
  exact ⟨.int n, hfind, hcoerce⟩

/-- **Supplied inputs are loaded.** -/
theorem Realizes.load (hlt : ∀ q ∈ qs, ∀ n ∈ q.2.numbers, n < f.p) :
    ∃ known, loadInputs c (Supply.inputs qs) (initial c) = .ok known := by
  obtain ⟨-, -, hfst, hnodup⟩ := h.entries hs hplain
  rw [← h.inputNames] at hnodup hfst
  obtain ⟨known, hload⟩ := @loadSignals_ok c (Declaration.flat ins) (initial c)
    (Witness.entries (Supply.inputs qs)) hnodup fun s hmem => by
      obtain ⟨n, -, u, hu, hn⟩ := forall₂_mem_right (h.supplies hs hplain hlt).flip hmem
      exact ⟨u, n, hu, hn⟩
  have hused : (Witness.entries (Supply.inputs qs)).filter
      (fun p => p.1 ∉ (Declaration.flat ins).map inputName) = [] := by
    rw [← hfst]
    refine List.filter_eq_nil_iff.2 fun p hp => ?_
    simpa using ⟨p.2, hp⟩
  rw [hused] at hload
  exact ⟨known, by rw [loadInputs, h.flat_inputs, hload]; rfl⟩

end

/-! ## Values by name -/

/-- The signals that the main component declares under a name. -/
def declared (c : Circuit) (name : String) : List Signal :=
  ((c.mainInstance.declarations.find? (·.name == name)).map (·.bus.flat)).getD []

/-- **A vector has these values**, as field elements, under a name of the main component. -/
def Carries (c : Circuit) (w : Array Int) (name : String) (xs : List ℕ) : Prop :=
  List.Forall₂ (fun s (x : ℕ) => c.reading w s ≡ x [ZMOD c.field.p]) (c.declared name) xs

instance (c : Circuit) (w : Array Int) (name : String) (xs : List ℕ) :
    Decidable (c.Carries w name xs) := inferInstanceAs (Decidable (List.Forall₂ _ _ _))

/-- Numbers as field elements. -/
def elements (p : ℕ) (xs : List ℕ) : List (ZMod p) := xs.map fun x : ℕ => (x : ZMod p)

theorem Realizes.declared (h : c.Realizes f ins outs Pre Post) {d : Declaration}
    (hd : d ∈ c.mainInstance.declarations) : c.declared d.name = d.bus.flat := by
  rw [Circuit.declared, find?_of_nodup h.listed.names hd]
  rfl

theorem Realizes.carries_iff (h : c.Realizes f ins outs Pre Post) {d : Declaration}
    (hd : d ∈ c.mainInstance.declarations) {w : Array Int} {xs : List ℕ} :
    c.Carries w d.name xs ↔ d.bus.flat.map (c.elementIn f w) = elements f.p xs := by
  have heq (s : Signal) (x : ℕ) :
      c.reading w s ≡ x [ZMOD c.field.p] ↔ c.elementIn f w s = x := by
    rw [h.field, elementIn, ← ZMod.intCast_eq_intCast_iff, Int.cast_natCast]
  rw [Carries, h.declared hd, elements, ← List.forall₂_eq_eq_eq, List.forall₂_map_left_iff,
    List.forall₂_map_right_iff]
  simp only [heq]

/-! ## Evaluation -/

theorem elementIn_map (c : Circuit) (f : PrimeField) (v : Array ℕ) (s : Signal) :
    c.elementIn f (v.map Int.ofNat) s = ((Witness.mk c v).valueOf s : ZMod f.p) := by
  rw [elementIn, reading, valueOf, Array.getD_eq_getD_getElem?, Array.getD_eq_getD_getElem?,
    Array.getElem?_map]
  cases v[c.place s]? <;> simp

/-- The supplies of each input are its values. -/
theorem forall₂_of_flat {g : Signal → ℕ} {ds : List Declaration} {qs : List (String × Supply)}
    (hlen : List.Forall₂ (fun d q => d.bus.flat.length = q.2.numbers.length) ds qs)
    (h : (Declaration.flat ds).map g = qs.flatMap (·.2.numbers)) :
    List.Forall₂ (fun d q => d.bus.flat.map g = q.2.numbers) ds qs := by
  induction hlen with
  | nil => exact .nil
  | @cons d q ds qs hd _ ih =>
    rw [Declaration.flat_cons, List.map_append, List.flatMap_cons] at h
    obtain ⟨hfirst, hrest⟩ := List.append_inj h (by rw [List.length_map, hd])
    exact .cons hfirst (ih hrest)

/-- The inputs have the supplied values under a valuation. -/
def Given (v : Signal → ZMod f.p) (ins : List Declaration) (qs : List (String × Supply)) : Prop :=
  List.Forall₂ (fun d q => d.bus.flat.map v = elements f.p q.2.numbers) ins qs

section
variable (h : c.Realizes f ins outs Pre Post) (hs : List.Forall₂ Declaration.Takes ins qs)
  (hplain : ∀ d ∈ ins, PlainName d.name) (hlt : ∀ q ∈ qs, ∀ n ∈ q.2.numbers, n < f.p)
include h

theorem Realizes.mem_of_input {d : Declaration} (hd : d ∈ ins) :
    d ∈ c.mainInstance.declarations := by
  rw [← h.inputs] at hd
  exact List.mem_of_mem_filter hd

theorem Realizes.mem_of_output {d : Declaration} (hd : d ∈ outs) :
    d ∈ c.mainInstance.declarations := by
  rw [← h.outputs] at hd
  exact List.mem_of_mem_filter hd

include hs

theorem Realizes.length_supply :
    List.Forall₂ (fun d q => d.bus.flat.length = q.2.numbers.length) ins qs := by
  refine ((List.forall₂_and_left _ _).2 ⟨fun d hd => hd, hs⟩).imp ?_
  rintro d q ⟨hd, -, hshaped⟩
  have hrows := congrArg List.length (h.listed.rows d (h.mem_of_input hd))
  rw [List.length_map] at hrows
  rw [hrows]
  exact (hshaped.flatten _).1

include hplain hlt

/-- **Evaluation on supplied inputs** returns a witness with these inputs, or stops at a
    row, and then what the statements need does not hold. -/
theorem Realizes.evaluate_supplied : ∃ wit : Witness, wit.circuit = c ∧
    (∀ s, wit.valueOf s < f.p) ∧ Given (fun s => (wit.valueOf s : ZMod f.p)) ins qs ∧
      ByUid (fun s => (wit.valueOf s : ZMod f.p)) ∧
      (∀ ds sts, c.Made f ds sts → ∀ st ∈ sts, st.Computes fun s => (wit.valueOf s : ZMod f.p)) ∧
      (Witness.evaluate c (Supply.inputs qs) [] = .ok wit ∧ Post (fun s => wit.valueOf s) ∨
        ¬ Pre (fun s => wit.valueOf s) ∧ ∃ e : Error,
          Witness.evaluate c (Supply.inputs qs) [] = .error e ∧ e.kind = .unsatisfied) := by
  obtain ⟨known, hload⟩ := h.load hs hplain hlt
  obtain ⟨v, hv, hend⟩ := h.evaluate hload
  have hval : c.elementIn f (v.map Int.ofNat) = fun s => ((Witness.mk c v).valueOf s : ZMod f.p) :=
    funext (elementIn_map c f v)
  rw [hval] at hend
  refine ⟨⟨c, v⟩, rfl, fun s => ?_, ?_, hval ▸ ?_, fun ds sts hmade => hval ▸ ?_, hend⟩
  · rw [valueOf, Array.getD_eq_getD_getElem?]
    cases hget : v[c.place s]? with
    | none => exact f.p_pos
    | some n => exact h.field ▸ hv.canonical n (Array.mem_of_getElem? hget)
  · have hflat : (Declaration.flat ins).map (Witness.mk c v).valueOf =
        qs.flatMap (·.2.numbers) := by
      rw [← List.forall₂_eq_eq_eq, List.forall₂_map_left_iff]
      refine ((List.forall₂_and_left _ _).2
        ⟨fun s hs => hs, h.supplies hs hplain hlt⟩).imp fun s n ⟨hmem, hn⟩ => ?_
      rw [← h.flat_inputs] at hmem
      obtain ⟨m, hm, hget⟩ := hv.input s hmem
      rw [valueOf, Array.getD_eq_getD_getElem?, hget, hm.unique hn]
      rfl
    refine (forall₂_of_flat (h.length_supply hs) hflat).imp fun d q hdq => ?_
    rw [← hdq, elements, List.map_map]
    rfl
  · obtain rfl := h.field
    exact byUid_element c _
  · obtain rfl := h.field
    exact hv.computes hmade.coherent fun st hst => (hmade.proper st hst).own

end

end Circuit

/-! ## Outcomes -/

/-- **A witness has these values**, as residues, under a name of the main component. -/
def Witness.Holds (w : Witness) (name : String) (xs : List ℕ) : Prop :=
  (w.circuit.declared name).map w.valueOf = xs.map (· % w.circuit.field.p)

namespace Circuit

/-- **What satisfied rows allow on supplied inputs**: a vector that has them and satisfies the
    rows has one of these outcomes, whoever filled it in. -/
def Allows (c : Circuit) (qs : List (String × Supply)) (P : List (String × List ℕ) → Prop) :
    Prop :=
  ∀ w, c.Fits w → (∀ q ∈ qs, c.Carries w q.1 q.2.numbers) →
    c.system.unsatisfiedRows w = .ok [] → ∃ ys, P ys ∧ ∀ y ∈ ys, c.Carries w y.1 y.2

/-- **What evaluation gives on supplied inputs**: a witness with the outcome.  It stops at a
    row if there is none. -/
structure Evaluates (c : Circuit) (qs : List (String × Supply))
    (outcome : Option (List (String × List ℕ))) : Prop where
  complete : ∀ ys ∈ outcome, ∃ wit : Witness,
    Witness.evaluate c (Supply.inputs qs) [] = .ok wit ∧ ∀ y ∈ ys, wit.Holds y.1 y.2
  refused : outcome = none → ∃ e : Error,
    Witness.evaluate c (Supply.inputs qs) [] = .error e ∧ e.kind = .unsatisfied

/-- **A circuit settles its inputs**: satisfied rows allow what evaluation gives, and nothing
    else. -/
structure Settles (c : Circuit) (qs : List (String × Supply))
    (outcome : Option (List (String × List ℕ))) : Prop extends c.Evaluates qs outcome where
  sound : c.Allows qs (· ∈ outcome)

/-- Declarations have the values of an outcome under a valuation. -/
def Tells {f : PrimeField} (v : Signal → ZMod f.p) (ds : List Declaration)
    (ys : List (String × List ℕ)) : Prop :=
  List.Forall₂ (fun d y => d.name = y.1 ∧ d.bus.flat.map v = elements f.p y.2) ds ys

variable {c : Circuit} {f : PrimeField} {ins outs : List Declaration}
  {Pre Post : (Signal → ZMod f.p) → Prop} {qs : List (String × Supply)}

section
variable (h : c.Realizes f ins outs Pre Post) {ds : List Declaration}
  (hds : ∀ d ∈ ds, d ∈ c.mainInstance.declarations) {ys : List (String × List ℕ)}
include h hds

/-- What is told under the elements of a vector, the vector carries. -/
theorem Realizes.carries {w : Array Int} (ht : Tells (c.elementIn f w) ds ys) :
    ∀ y ∈ ys, c.Carries w y.1 y.2 := by
  intro y hy
  obtain ⟨d, hd, hname, hvalues⟩ := forall₂_mem_right ht hy
  rw [← hname, h.carries_iff (hds d hd)]
  exact hvalues

/-- What is told under the values of a witness, the witness holds. -/
theorem Realizes.holds {wit : Witness} (hc : wit.circuit = c) (hlt : ∀ s, wit.valueOf s < f.p)
    (ht : Tells (fun s => (wit.valueOf s : ZMod f.p)) ds ys) : ∀ y ∈ ys, wit.Holds y.1 y.2 := by
  intro y hy
  obtain ⟨d, hd, hname, hvalues⟩ := forall₂_mem_right ht hy
  rw [elements, ← List.forall₂_eq_eq_eq, List.forall₂_map_left_iff,
    List.forall₂_map_right_iff] at hvalues
  rw [Witness.Holds, hc, ← hname, h.declared (hds d hd), h.field, ← List.forall₂_eq_eq_eq,
    List.forall₂_map_left_iff, List.forall₂_map_right_iff]
  exact hvalues.imp fun s n hsn => Witness.valueOf_eq (hlt s) hsn

end

/-- A vector that carries the supplies gives them to the inputs. -/
theorem Realizes.given (h : c.Realizes f ins outs Pre Post)
    (hs : List.Forall₂ Declaration.Takes ins qs) {w : Array Int}
    (hw : ∀ q ∈ qs, c.Carries w q.1 q.2.numbers) : Given (c.elementIn f w) ins qs := by
  have hcarried := ((List.forall₂_and_left _ _).2 ⟨hw, hs.flip⟩).flip
  refine ((List.forall₂_and_left _ _).2 ⟨fun d hd => hd, hcarried⟩).imp ?_
  rintro d q ⟨hd, hcarries, hname, -⟩
  rw [← hname, h.carries_iff (h.mem_of_input hd)] at hcarries
  exact hcarries

section
variable (h : c.Realizes f ins outs Pre Post) (hs : List.Forall₂ Declaration.Takes ins qs)
  {ds : List Declaration} (hds : ∀ d ∈ ds, d ∈ c.mainInstance.declarations)
include h hs hds

/-- Satisfied rows allow what follows from the statements. -/
theorem Realizes.allows {P : List (String × List ℕ) → Prop}
    (hpost : ∀ v : Signal → ZMod f.p, Given v ins qs → Post v → ∃ ys, P ys ∧ Tells v ds ys) :
    c.Allows qs P := by
  intro w hw hin hrows
  obtain ⟨ys, hys, htold⟩ := hpost _ (h.given hs hin) (h.sound hw hrows)
  exact ⟨ys, hys, h.carries hds htold⟩

variable (hplain : ∀ d ∈ ins, PlainName d.name) (hlt : ∀ q ∈ qs, ∀ n ∈ q.2.numbers, n < f.p)
include hplain hlt

/-- Evaluation gives what the statements say about computed signals. -/
theorem Realizes.evaluates {es : List Declaration} {sts : List Statement} (hmade : c.Made f es sts)
    {outcome : Option (List (String × List ℕ))}
    (hpre : ∀ v : Signal → ZMod f.p, ByUid v → (∀ st ∈ sts, st.Computes v) → Given v ins qs →
      outcome.isSome → Pre v)
    (hpost : ∀ v : Signal → ZMod f.p, ByUid v → (∀ st ∈ sts, st.Computes v) → Given v ins qs →
      Post v → ∃ ys ∈ outcome, Tells v ds ys) :
    c.Evaluates qs outcome := by
  obtain ⟨wit, hc, hwit, hgiven, hv, hcomputes, hend⟩ := h.evaluate_supplied hs hplain hlt
  have hcomputes := hcomputes es sts hmade
  refine ⟨fun ys hys => ?_, fun hnone => ?_⟩
  · rcases hend with ⟨heval, hp⟩ | ⟨hfalse, -⟩
    · obtain ⟨zs, hzs, htold⟩ := hpost _ hv hcomputes hgiven hp
      obtain rfl : ys = zs := Option.mem_unique hys hzs
      exact ⟨wit, heval, h.holds hds hc hwit htold⟩
    · exact absurd (hpre _ hv hcomputes hgiven (Option.isSome_of_mem hys)) hfalse
  · rcases hend with ⟨-, hp⟩ | ⟨-, he⟩
    · obtain ⟨ys, hys, -⟩ := hpost _ hv hcomputes hgiven hp
      rw [hnone] at hys
      cases hys
    · exact he

/-- **A circuit settles its inputs** if its statements need no more than an outcome, and say
    no less. -/
theorem Realizes.settles {outcome : Option (List (String × List ℕ))}
    (hpre : ∀ v : Signal → ZMod f.p, Given v ins qs → outcome.isSome → Pre v)
    (hpost : ∀ v : Signal → ZMod f.p, Given v ins qs → Post v → ∃ ys ∈ outcome, Tells v ds ys) :
    c.Settles qs outcome := by
  obtain ⟨es, sts, hmade, -⟩ := h.statements
  exact ⟨h.evaluates hs hds hplain hlt hmade (fun v _ _ => hpre v) fun v _ _ => hpost v,
    h.allows hs hds hpost⟩

end

end Circuit

end RankOne
