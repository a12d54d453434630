/-
  RankOne — binary digits under evaluation.

  Each digit is hinted by itself and has a row of its own.  One more row weighs the digits,
  by powers of two that may well vanish in the field, against the input.  The digits that are
  hinted are the lowest of the input, so that this row holds exactly if there are no others.

  * `rows_digitsFrom`, `rows_decompose`, `rows_numToBits`: a row for each digit, and one more;
  * `Realizes.evaluate_single`, `Realizes.outputs_row`: a single input counts for its field
    element, and a single array of outputs has the values that a witness holds;
  * `Circuit.Digitizes`, `Unpacks.digitizes`: evaluation finds the digits of a value;
  * `numToBits_evaluates`: so it does for every field and every number of digits.
-/
import RankOne.Proofs.Gadget.Digits
import RankOne.Proofs.Gadget.Indicator
import RankOne.Proofs.Witness.Boundary
import RankOne.Proofs.Witness.Public

namespace RankOne

namespace Gadget

open Build

/-! ## Rows -/

section
variable {σ : Type} {here : ℕ} {s s' : Workspace × σ} {sts : List Statement} {u : Unit}

theorem rows_constrainBit {b : Signal} (h : (constrainBit b).Runs here s sts u s') :
    sts.countP Statement.emitsRow = 1 := by
  obtain ⟨one, _, _, _, hone, h₁, rfl⟩ := runs_bind h
  obtain ⟨rfl, rfl, -⟩ := runs_const hone
  obtain ⟨product, _, _, _, htimes, h₂, rfl⟩ := runs_bind h₁
  obtain ⟨hproduct, -, rfl⟩ := runs_times htimes
  obtain ⟨zero, _, _, _, hzero, h₃, rfl⟩ := runs_bind h₂
  obtain ⟨rfl, rfl, -⟩ := runs_const hzero
  obtain ⟨rfl, -⟩ := runs_constrain h₃
  have hdegree : product.degree = 2 := degree_mul rfl (by simp [Expr.degree_sub]) hproduct
  simp [Statement.emitsRow, hdegree]

/-- A row for each digit. -/
theorem rows_digitsFrom {value total : Expr} {bits : List Signal} :
    ∀ {i weight : ℕ} {acc : Expr} {s : Workspace × σ} {sts : List Statement},
      (digitsFrom value i weight acc bits).Runs here s sts total s' →
        sts.countP Statement.emitsRow = bits.length := by
  induction bits with
  | nil =>
    intro i weight acc s sts h
    obtain ⟨-, -, rfl⟩ := runs_pure h
    rfl
  | cons b bits ih =>
    intro i weight acc s sts h
    obtain ⟨_, _, _, _, hhint, h₁, rfl⟩ := runs_bind h
    obtain ⟨rfl, -⟩ := runs_hint hhint
    obtain ⟨_, _, _, _, hbit, h₂, rfl⟩ := runs_bind h₁
    have hquiet : [Statement.hint (s.1.sight here).path b (.bit i) [value]].countP
        Statement.emitsRow = 0 := rfl
    rw [List.countP_append, List.countP_append, hquiet, rows_constrainBit hbit, ih h₂,
      List.length_cons]
    omega

/-- One more row, whatever the weights are. -/
theorem rows_decompose {bits : List Signal} {value : Expr} (hvalue : value.degree = 1)
    (h : (decompose bits value).Runs here s sts u s') :
    sts.countP Statement.emitsRow = bits.length + 1 := by
  obtain ⟨zero, _, _, _, hzero, h₁, rfl⟩ := runs_bind h
  obtain ⟨rfl, rfl, -⟩ := runs_const hzero
  obtain ⟨total, _, _, _, hdigits, h₂, rfl⟩ := runs_bind h₁
  obtain ⟨rfl, -⟩ := runs_constrain h₂
  have hemits : max total.degree value.degree ≠ 0 := by omega
  rw [List.nil_append, List.countP_append, rows_digitsFrom hdigits]
  simp [Statement.emitsRow, hemits]

theorem runs_row {role : Role} {name : String} {n : ℕ} {xs : List Signal}
    (h : (signals role name (.int n) : Build σ (List Signal)).Runs here s sts xs s') :
    sts = [] ∧ xs.length = n := by
  obtain ⟨bus, _, _, _, hdeclare, h₁, rfl⟩ := runs_bind h
  obtain ⟨rfl, -, ds, hds, hbus⟩ := runs_declare hdeclare
  obtain ⟨rfl, -, rfl⟩ := runs_pure h₁
  obtain rfl : [(n : Int)] = ds := Except.ok.inj hds
  refine ⟨rfl, ?_⟩
  rw [hbus, List.map_cons, List.map_nil, Int.toNat_natCast, Workspace.makeBus_row, Bus.flat_row,
    Signal.length_row]

/-- **Digits take a row each, and one for their sum.** -/
theorem rows_numToBits {n : ℕ} (h : (numToBits (.int n)).Runs here s sts u s') :
    sts.countP Statement.emitsRow = n + 1 := by
  obtain ⟨x, _, _, _, hx, h₁, rfl⟩ := runs_bind h
  obtain ⟨rfl, -⟩ := runs_signal hx
  obtain ⟨bits, _, _, _, hbits, h₂, rfl⟩ := runs_bind h₁
  obtain ⟨rfl, rfl⟩ := runs_row hbits
  exact rows_decompose rfl h₂

end

end Gadget

open Gadget

/-! ## One input, one array of outputs -/

namespace Witness

theorem Stands.items {v : Value} {k : Int} (h : Stands v k) : items? v = none := by
  cases h <;> rfl

/-- The number that a value is admitted as is admitted as itself. -/
theorem Admits.int {policy : InputPolicy} {f : PrimeField} {v : Value} {m : ℕ}
    (h : Admits policy f v m) : m < f.p ∧ Admits policy f (.int m) m := by
  obtain ⟨k, -, -, hk⟩ := h
  have hpos : (0 : Int) < f.p := by exact_mod_cast f.p_pos
  have hlt : (m : Int) < f.p := hk ▸ Int.emod_lt_of_pos k hpos
  refine ⟨by exact_mod_cast hlt, m, .int m, fun _ => ⟨Int.natCast_nonneg m, hlt⟩, ?_⟩
  rw [Int.emod_eq_of_lt (Int.natCast_nonneg m) hlt]

/-- A single input is loaded as the number it is admitted as. -/
theorem loadInputs_single {c : Circuit} {x : Signal} {v : Value} {m : ℕ}
    (hin : inputSignals c = [x]) (hplain : PlainName (inputName x))
    (h : Admits c.settings.inputs c.field v m) (values : Known) :
    loadInputs c [(inputName x, v)] values = .ok (values.setIfInBounds (c.place x) (some m)) := by
  have hleaf : items? v = none := by
    obtain ⟨k, hstands, -⟩ := h
    exact hstands.items
  have hentries : entries [(inputName x, v)] = [(inputName x, v)] := by
    rw [entries, List.flatMap_singleton, relative_of_plain hplain, flatten_of_leaf hleaf]
    rfl
  have hfind : Mapping.find? [(inputName x, v)] (inputName x) = some v := by simp [Mapping.find?]
  have herase : Mapping.erase [(inputName x, v)] (inputName x) = [] := by simp [Mapping.erase]
  rw [loadInputs_eq_ok, hin, hentries, loadSignals]
  simp only [show Mapping.find? [(inputName x, v)] (x.path.drop 5).toString = some v from hfind]
  rw [show coerce c.settings.inputs c.field (x.path.drop 5).toString v = .ok m from
    coerce_eq_ok.2 h]
  exact congrArg
    (fun rest => Except.ok (values.setIfInBounds (c.place x) (some m), [], rest)) herase

end Witness

namespace Circuit

open Witness

variable {c : Circuit} {f : PrimeField} {ins outs : List Declaration}
  {Pre Post : (Signal → ZMod f.p) → Prop} {name : String}

/-- A single input counts for the number it is admitted as. -/
theorem Realizes.evaluate_single {x : Signal} {v : Value} {m : ℕ}
    (h : c.Realizes f [⟨name, .input, .single x⟩] outs Pre Post) (hplain : PlainName name)
    (hm : Admits c.settings.inputs f v m) : Witness.evaluate c [(name, v)] [] =
      Witness.evaluate c (Supply.inputs [(name, .single m)]) [] := by
  have hin : Witness.inputSignals c = [x] := h.flat_inputs
  have hname : inputName x = name := by
    have hnames : [inputName x] = [name] := h.inputNames
    exact List.singleton_inj.1 hnames
  subst hname
  rw [← h.field] at hm
  have hload (values : Known) : loadInputs c [(inputName x, v)] values =
      loadInputs c (Supply.inputs [(inputName x, .single m)]) values :=
    (loadInputs_single hin hplain hm values).trans
      (loadInputs_single hin hplain hm.int.2 values).symm
  rw [Witness.evaluate, Witness.evaluate, compute, compute, hload]

/-- The outputs of a witness, if they are a single array. -/
theorem Realizes.outputs_row {bits : List Signal} {mark : Mark} {xs : List ℕ} {wit : Witness}
    (h : c.Realizes f ins [⟨name, .output, .row bits mark⟩] Pre Post) (hc : wit.circuit = c)
    (hxs : ∀ x ∈ xs, x < f.p) (hholds : wit.Holds name xs) :
    wit.outputs = [(name, .items (xs.map .value))] := by
  have hdeclared : c.declared name = bits :=
    (h.declared (h.mem_of_output (List.mem_singleton_self _))).trans (Bus.flat_row bits mark)
  have hvalues : bits.map wit.valueOf = xs := by
    rw [Holds, hc, hdeclared, h.field] at hholds
    rw [hholds, List.map_congr_left fun x hx => Nat.mod_eq_of_lt (hxs x hx), List.map_id']
  rw [Witness.outputs, hc, h.outputs, List.map_singleton, ← hvalues, Bus.row, collect,
    collectItems_eq_map, List.map_map, List.map_map]
  rfl

/-- **Evaluation finds the `n` digits of a value that stands for `m`**: it returns exactly if
    there are no more, with the digits as its only outputs, and else stops at a row. -/
structure Digitizes (c : Circuit) (n : ℕ) (v : Value) (m : ℕ) : Prop where
  returns_iff : (∃ wit, Witness.evaluate c [("in", v)] [] = .ok wit) ↔ m < 2 ^ n
  outputs : ∀ wit, Witness.evaluate c [("in", v)] [] = .ok wit →
    wit.outputs = [("out", .items ((binary n m).map .value))]
  refused : 2 ^ n ≤ m → ∃ e, Witness.evaluate c [("in", v)] [] = .error e ∧ e.kind = .unsatisfied

/-- A circuit that unpacks finds the digits of every value that is admitted. -/
theorem Unpacks.digitizes {x : Signal} {bits : List Signal} {mark : Mark} {n m : ℕ} {v : Value}
    (hunpacks : c.Unpacks f.p n)
    (h : c.Realizes f [⟨"in", .input, .single x⟩] [⟨"out", .output, .row bits mark⟩] Pre Post)
    (hm : Admits c.settings.inputs f v m) : c.Digitizes n v m := by
  have hevaluates := hunpacks.evaluates m hm.int.1
  have hsame := h.evaluate_single (by decide) hm
  have hdigit : ∀ x ∈ binary n m, x < f.p := by
    intro x hx
    obtain ⟨i, -, rfl⟩ := List.mem_map.1 hx
    exact (Bool.toNat_lt _).trans_le f.two_le
  by_cases hlt : m < 2 ^ n
  · obtain ⟨wit, hwit, hholds⟩ := hevaluates.complete _ (if_pos hlt)
    rw [← hsame] at hwit
    refine ⟨⟨fun _ => hlt, fun _ => ⟨wit, hwit⟩⟩, fun wit' hwit' => ?_,
      fun hle => absurd hlt hle.not_gt⟩
    cases hwit.symm.trans hwit'
    exact h.outputs_row (evaluate_size hwit).1 hdigit (hholds _ (List.mem_singleton_self _))
  · obtain ⟨e, he, hkind⟩ := hevaluates.refused (if_neg hlt)
    rw [← hsame] at he
    have hnone (wit : Witness) : Witness.evaluate c [("in", v)] [] ≠ .ok wit := by
      rw [he]
      simp
    exact ⟨⟨fun hok => absurd hok.choose_spec (hnone _), fun h => absurd h hlt⟩,
      fun wit hwit => absurd hwit (hnone wit), fun _ => ⟨e, he, hkind⟩⟩

end Circuit

/-! ## The circuit -/

/-- **Honest binary digits.**  For every prime and every number of digits, whether `2 ^ n` is
    below the prime or not, the digits compile to `n + 1` rows, and evaluation finds those of
    the representative of every input that is admitted. -/
theorem numToBits_evaluates {σ : Type} {p : ℕ} (hp : p.Prime) {settings : Settings}
    (hs : settings.prime = .int p) (n : ℕ) (host : σ) (public_ : List String) :
    (public_.Nodup → public_ ⊆ ["in"] →
      ∃ c, (compile settings (numToBitsTemplate (.int n)) host public_).result = .ok c) ∧
    ∀ c, (compile settings (numToBitsTemplate (.int n)) host public_).result = .ok c →
      c.system.constraints.length = n + 1 ∧
      ∀ v m, Witness.Admits settings.inputs ⟨p, hp.two_le⟩ v m → c.Digitizes n v m := by
  let f : PrimeField := ⟨p, hp.two_le⟩
  have hf : settings.field = .ok f := Settings.field_of_prime hp hs
  let Q (c : Circuit) : Prop := c.system.constraints.length = n + 1 ∧
    ∀ v m, Witness.Admits c.settings.inputs f v m → c.Digitizes n v m
  have hcompiled := @compile_realizes σ settings (numToBitsTemplate (.int n)) f ["in"] Q hf
    (fun W _ _ id => (keeps_numToBits (.int n) id).mono fun _ _ h => ⟨trivial, h.2⟩)
    (((succeeds_numToBits (f := f) hp rfl (Scene.blank_main f .warn) n).of_runs
      rows_numToBits).mono ?_) host public_
  · refine ⟨hcompiled.1, fun c hc => ?_⟩
    obtain ⟨hrows, hdigits⟩ := hcompiled.2 c hc
    rw [compile_settings hc] at hdigits
    exact ⟨hrows, hdigits⟩
  · rintro _ sts sc' - - ⟨⟨x, bits, mark, hlen, hprov, hadvice⟩, hrows⟩
    refine ⟨_, _, _, _, hprov, rfl, fun c hc hmade => ⟨?_, fun v m hm => ?_⟩⟩
    · rw [hmade.coherent.length_constraints, hrows]
    · exact (hc.unpacks hlen hmade hadvice).digitizes hc hm

/-- Modulo two, where the weights of the later digits vanish, `-5` has the digits of one.
    Below 97, six digits are too few for 64. -/
theorem numToBits_evaluates_both :
    (Nat.Prime 2 ∧
      ∃ c, (compile { prime := .int 2, inputs := .reduce } (numToBitsTemplate (.int 3)) ()
        ["in"]).result = .ok c ∧ c.system.constraints.length = 4 ∧
        ∃ wit, Witness.evaluate c [("in", .int (-5))] [] = .ok wit ∧
          wit.outputs = [("out", .items [.value 1, .value 0, .value 0])]) ∧
    Nat.Prime 97 ∧
      ∃ c, (compile { prime := .int 97 } (numToBitsTemplate (.int 6)) () []).result = .ok c ∧
        c.system.constraints.length = 7 ∧
        ∃ e, Witness.evaluate c [("in", .int 64)] [] = .error e ∧ e.kind = .unsatisfied := by
  have hlarge : Nat.Prime 97 := by norm_num
  refine ⟨⟨Nat.prime_two, ?_⟩, hlarge, ?_⟩
  · have hs : ({ prime := .int 2, inputs := .reduce } : Settings).prime = .int (2 : ℕ) := rfl
    obtain ⟨hok, hall⟩ := numToBits_evaluates Nat.prime_two hs 3 () ["in"]
    obtain ⟨c, hc⟩ := hok (by simp) (by simp)
    obtain ⟨hrows, hdigits⟩ := hall c hc
    have hone := hdigits (.int (-5)) 1 ⟨-5, .int (-5), by decide, by decide⟩
    obtain ⟨wit, hwit⟩ := hone.returns_iff.2 (by decide)
    exact ⟨c, hc, hrows, wit, hwit, hone.outputs wit hwit⟩
  · have hs : ({ prime := .int 97 } : Settings).prime = .int (97 : ℕ) := rfl
    obtain ⟨hok, hall⟩ := numToBits_evaluates hlarge hs 6 () []
    obtain ⟨c, hc⟩ := hok (by simp) (by simp)
    obtain ⟨hrows, hdigits⟩ := hall c hc
    have hmany := hdigits (.int 64) 64 ⟨64, .int 64, by simp, by simp⟩
    exact ⟨c, hc, hrows, hmany.refused (by decide)⟩

end RankOne
