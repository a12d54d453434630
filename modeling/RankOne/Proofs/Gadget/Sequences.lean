/-
  RankOne — sequences succeed, and have the right terms.

  A sequence assigns all its terms below a bound, each from the ones before it, and selects
  the term asked for.  The terms are what the recurrence says, whatever the index is; the
  selector refuses an index that is no position.

  * `Series`, `Series.term`: the sequences of the library, and their terms;
  * `succeeds_constTerm`, `succeeds_chain`, `succeeds_fibonacciFrom`: the terms, one by one;
  * `Series.succeeds_fill`: all terms below a bound;
  * `Series.Tabled`, `Series.succeeds_table`, `Series.succeeds_build`: a table of terms and a
    selector;
  * `Circuit.Tabulates`, `series_exact`: the circuits.
-/
import RankOne.Proofs.Gadget.Choose
import RankOne.Proofs.Gadget.Parents
import RankOne.Proofs.Witness.Supply
import Mathlib.Data.Nat.Fib.Basic

namespace RankOne

namespace Gadget

open Build

variable {σ : Type} {f : PrimeField} {sc : Scene} {I : Set ℤ}

/-! ## Recurrences -/

/-- A number as a term before others. -/
theorem succeeds_constTerm (n : ℤ) (hf : sc.field = f) {s : Signal} {ss : List Signal}
    (hopen : ∀ x ∈ s :: ss, sc.Open x) (hnd : ((s :: ss).map (·.uid)).Nodup)
    {k : Unit → Build σ Unit} {Post : (Signal → ZMod f.p) → Prop}
    (hk : sc.within I ⊆ (sc.assign s).within (I ∪ {s.uid}) →
      s ∈ (sc.assign s).within (I ∪ {s.uid}) → (∀ x ∈ ss, (sc.assign s).Open x) →
      (k ()).Succeeds (sc.assign s) fun _ sts sc' => sc' = (sc.assign s).assignAll ss ∧
        (sc.assign s).Step f sts sc' (I ∪ {s.uid}) (Signal.numbers ss) ∅ ∅ (fun _ => True) Post) :
    (const n >>= fun e => assign s e >>= k).Succeeds sc fun _ sts sc' =>
      sc' = sc.assignAll (s :: ss) ∧
      sc.Step f sts sc' I (Signal.numbers (s :: ss)) ∅ ∅ (fun _ => True)
        fun v => v s = n ∧ Post v := by
  refine (yields_const n).skip fun _ _ => ?_
  rw [hf]
  exact succeeds_before hf (Expr.Line.ofInt n).toForm hopen hnd hk

/-- **Terms that follow from the one before**, by steps that may also read the signals of
    `B`. -/
theorem succeeds_chain {step : ℕ → Signal → Build σ Expr} {B : Set Signal}
    {g : (Signal → ZMod f.p) → ℕ → ZMod f.p → ZMod f.p}
    (hstep : ∀ {sc : Scene} {I : Set ℤ} (i : ℕ) {before : Signal}, sc.field = f → sc.Fit →
      B ⊆ sc.within I → before ∈ sc.within I → ∃ e, (step i before).Yields sc e [] sc ∧
        e.Form f (sc.within I) fun v => g v i (v before))
    {T : (Signal → ZMod f.p) → ℕ → ZMod f.p} (hT : ∀ v i, T v (i + 1) = g v (i + 1) (T v i)) :
    ∀ {rest : List Signal} {i : ℕ} {before : Signal} {sc : Scene} {I : Set ℤ}, sc.field = f →
    B ⊆ sc.within I → before ∈ sc.within I → (∀ s ∈ rest, sc.Open s) →
    (rest.map (·.uid)).Nodup →
    (chain step (i + 1) before rest).Succeeds sc fun _ sts sc' => sc' = sc.assignAll rest ∧
      sc.Step f sts sc' I (Signal.numbers rest) ∅ ∅ (fun _ => True) fun v =>
        v before = T v i → rest.map v = (List.range' (i + 1) rest.length).map (T v)
  | [], i, before, sc, I, _, _, _, _, _ =>
    (yields_pure ()).succeeds fun _ _ => ⟨sc.assignAll_nil.symm, .none (by simp)⟩
  | s :: rest, i, before, sc, I, hf, hB, hbefore, hopen, hnd => by
    refine .fit fun hfit => ?_
    obtain ⟨e, hyields, he⟩ := hstep (i + 1) hf hfit hB hbefore
    refine hyields.skip fun _ _ => ?_
    refine (succeeds_before hf he hopen hnd fun hsub hs hopen' => succeeds_chain hstep hT
      (show (sc.assign s).field = f from hf) (hB.trans hsub) hs hopen' hnd.of_cons).mono ?_
    rintro _ sts sc' - - ⟨rfl, hrest⟩
    refine ⟨rfl, hrest.imp (fun _ h => h) ?_⟩
    rintro v ⟨hvs, hvrest⟩ hvbefore
    have hterm : v s = T v (i + 1) := by rw [hvs, hvbefore, hT]
    rw [List.map_cons, hvrest hterm, hterm]
    rfl

/-- **The Fibonacci numbers after two of them.** -/
theorem succeeds_fibonacciFrom : ∀ {rest : List Signal} {a b : Signal} {sc : Scene} {I : Set ℤ},
    sc.field = f → a ∈ sc.within I → b ∈ sc.within I → (∀ s ∈ rest, sc.Open s) →
    (rest.map (·.uid)).Nodup →
    (fibonacciFrom a b rest : Build σ Unit).Succeeds sc fun _ sts sc' =>
      sc' = sc.assignAll rest ∧
      sc.Step f sts sc' I (Signal.numbers rest) ∅ ∅ (fun _ => True) fun v => ∀ i : ℕ,
        v a = i.fib → v b = (i + 1).fib →
          rest.map v = (List.range' (i + 2) rest.length).map fun j => (j.fib : ZMod f.p)
  | [], a, b, sc, I, _, _, _, _, _ =>
    (yields_pure ()).succeeds fun _ _ => ⟨sc.assignAll_nil.symm, .none (by simp)⟩
  | s :: rest, a, b, sc, I, hf, ha, hb, hopen, hnd => by
    refine .fit fun hfit => ?_
    refine (succeeds_before hf ((hfit.line hf hb).add (hfit.line hf ha)).toForm hopen hnd
      fun hsub hs hopen' => succeeds_fibonacciFrom (show (sc.assign s).field = f from hf)
        (hsub hb) hs hopen' hnd.of_cons).mono ?_
    rintro _ sts sc' - - ⟨rfl, hrest⟩
    refine ⟨rfl, hrest.imp (fun _ h => h) ?_⟩
    rintro v ⟨hvs, hvrest⟩ i hva hvb
    have hterm : v s = (i + 2).fib := by
      rw [hvs, hva, hvb, Nat.fib_add_two, Nat.cast_add, add_comm]
    rw [List.map_cons, hvrest (i + 1) hvb hterm, hterm]
    rfl

end Gadget

open Gadget Build

/-! ## The sequences of the library -/

/-- The sequences of the library. -/
inductive Series where
  | factorial
  | fibonacci
  | power

namespace Series

variable {σ : Type} {f : PrimeField} {sc : Scene} {I : Set ℤ}

/-- The least bound of a sequence: as many terms are given. -/
def least : Series → ℕ
  | fibonacci => 2
  | _ => 1

/-- The name of a sequence. -/
def name : Series → String
  | factorial => "Factorial"
  | fibonacci => "Fibonacci"
  | power => "Power"

/-- The program of a sequence. -/
def build : Series → Value → Build σ Unit
  | factorial => Gadget.factorial
  | fibonacci => Gadget.fibonacci
  | power => Gadget.power

/-- The template of a sequence. -/
def template (k : Series) (bound : Value) : Template σ := ⟨.of k.name [bound], k.build bound⟩

/-- **The terms of a sequence.**  Only powers have a base. -/
def term {R : Type} [Semiring R] : Series → R → ℕ → R
  | factorial, _, i => (i.factorial : R)
  | fibonacci, _, i => (i.fib : R)
  | power, b, i => b ^ i

theorem cast_term {R : Type} [Semiring R] (k : Series) (b i : ℕ) :
    ((k.term b i : ℕ) : R) = k.term (b : R) i := by
  cases k <;> simp [term]

/-- The terms of a sequence, assigned to signals. -/
def fill (k : Series) (base : Signal) (seq : List Signal) : Build σ Unit :=
  match k, seq with
  | factorial, first :: rest => do
    assign first (← const 1)
    chain (fun i before => do times (.ofSignal before) (← const i)) 1 first rest
  | fibonacci, a :: b :: rest => do
    assign a (← const 0)
    assign b (← const 1)
    fibonacciFrom a b rest
  | power, first :: rest => do
    assign first (← const 1)
    chain (fun _ before => times (.ofSignal before) (.ofSignal base)) 1 first rest
  | _, _ => throw (.fault .index)

/-- A chain of terms after a one. -/
theorem succeeds_seed {step : ℕ → Signal → Build σ Expr} {B : Set Signal}
    {g : (Signal → ZMod f.p) → ℕ → ZMod f.p → ZMod f.p}
    (hstep : ∀ {sc : Scene} {I : Set ℤ} (i : ℕ) {before : Signal}, sc.field = f → sc.Fit →
      B ⊆ sc.within I → before ∈ sc.within I → ∃ e, (step i before).Yields sc e [] sc ∧
        e.Form f (sc.within I) fun v => g v i (v before))
    {T : (Signal → ZMod f.p) → ℕ → ZMod f.p} (hT : ∀ v i, T v (i + 1) = g v (i + 1) (T v i))
    (hzero : ∀ v, T v 0 = 1) (hf : sc.field = f) (hB : B ⊆ sc.within I) {first : Signal}
    {rest : List Signal} (hopen : ∀ s ∈ first :: rest, sc.Open s)
    (hnd : ((first :: rest).map (·.uid)).Nodup) :
    (do assign first (← const 1); chain step 1 first rest).Succeeds sc fun _ sts sc' =>
      sc' = sc.assignAll (first :: rest) ∧
      sc.Step f sts sc' I (Signal.numbers (first :: rest)) ∅ ∅ (fun _ => True) fun v =>
        (first :: rest).map v = (List.range (first :: rest).length).map (T v) := by
  refine (succeeds_constTerm 1 hf hopen hnd fun hsub hs hopen' =>
    succeeds_chain hstep hT (show (sc.assign first).field = f from hf) (hB.trans hsub) hs hopen'
      hnd.of_cons).mono ?_
  rintro _ sts sc' - - ⟨rfl, hrest⟩
  refine ⟨rfl, hrest.imp (fun _ h => h) ?_⟩
  rintro v ⟨hfirst, hvrest⟩
  have hterm : v first = T v 0 := by rw [hfirst, hzero, Int.cast_one]
  rw [List.map_cons, hvrest hterm, hterm, List.range_eq_range']
  rfl

/-- **All terms of a sequence below a bound.** -/
theorem succeeds_fill (k : Series) (hf : sc.field = f) {base : Signal} (hbase : base ∈ sc.within I)
    {seq : List Signal} (hlen : k.least ≤ seq.length) (hopen : ∀ s ∈ seq, sc.Open s)
    (hnd : (seq.map (·.uid)).Nodup) :
    (k.fill base seq : Build σ Unit).Succeeds sc fun _ sts sc' => sc' = sc.assignAll seq ∧
      sc.Step f sts sc' I (Signal.numbers seq) ∅ ∅ (fun _ => True) fun v =>
        seq.map v = (List.range seq.length).map (k.term (v base)) := by
  match k, seq with
  | factorial, first :: rest =>
    refine succeeds_seed (B := ∅) (g := fun _ i x => x * (i : ℕ)) ?_ (fun v i => ?_)
      (fun v => by simp [term]) hf (Set.empty_subset _) hopen hnd
    · intro sc I i before hf hfit _ hbefore
      obtain ⟨e, hproduct, he, -⟩ := (hfit.line hf hbefore).mul (.ofInt (f := f) i)
      refine ⟨e, (yields_const i).skip fun _ _ => ?_, he.congr fun v => by simp⟩
      rw [hf]
      exact yields_times hproduct
    · simp only [term, Nat.factorial_succ, Nat.cast_mul]
      rw [mul_comm]
  | fibonacci, a :: b :: rest =>
    refine (succeeds_constTerm (I := I) 0 hf hopen hnd fun hsub ha hopen₁ =>
      succeeds_constTerm 1 (show (sc.assign a).field = f from hf) hopen₁ hnd.of_cons
        fun hsub₁ hb hopen₂ => succeeds_fibonacciFrom
          (show ((sc.assign a).assign b).field = f from hf) (hsub₁ ha) hb hopen₂
          hnd.of_cons.of_cons).mono ?_
    rintro _ sts sc' - - ⟨rfl, hrest⟩
    refine ⟨rfl, hrest.imp (fun _ h => h) ?_⟩
    rintro v ⟨hva, hvb, hvrest⟩
    have ha : v a = Nat.fib 0 := by simpa using hva
    have hb : v b = Nat.fib 1 := by simpa using hvb
    rw [List.map_cons, List.map_cons, hvrest 0 ha hb, ha, hb, List.range_eq_range']
    rfl
  | power, first :: rest =>
    refine succeeds_seed (B := {base}) (g := fun v _ x => x * v base) ?_
      (fun v i => pow_succ _ _) (fun v => pow_zero _) hf
      (Set.singleton_subset_iff.2 hbase) hopen hnd
    intro sc I i before hf hfit hB hbefore
    obtain ⟨e, hproduct, he, -⟩ :=
      (hfit.line hf hbefore).mul (hfit.line hf (hB (Set.mem_singleton base)))
    exact ⟨e, yields_times hproduct, he⟩
  | factorial, [] => simp [least] at hlen
  | fibonacci, [] => simp [least] at hlen
  | fibonacci, [_] => simp [least] at hlen
  | power, [] => simp [least] at hlen

/-! ## Components -/

/-- The inputs of a sequence.  Where there is no base, the index stands in for it. -/
def inputs (k : Series) (base n : Signal) : List Declaration :=
  match k with
  | power => [⟨"base", .input, .single base⟩, ⟨"n", .input, .single n⟩]
  | _ => [⟨"n", .input, .single n⟩]

/-- The names of the inputs. -/
def inputNames : Series → List String
  | power => ["base", "n"]
  | _ => ["n"]

/-- The inputs are declared. -/
def ask : Series → Build σ (Signal × Signal)
  | power => do
    let base ← signal .input "base"
    let n ← signal .input "n"
    return (base, n)
  | _ => do
    let n ← signal .input "n"
    return (n, n)

/-- The output is declared, and a table of terms assigned. -/
def table (k : Series) (bound : Value) (base : Signal) : Build σ (Signal × List Signal) := do
  let out ← signal .output "out"
  let seq ← signals .intermediate "seq" bound
  k.fill base seq
  return (out, seq)

/-- The output is the entry of a table at an index. -/
def pick (bound : Value) (n out : Signal) (seq : List Signal) : Build σ Unit := do
  assign out (.ofSignal (← entryAt "sel" seq bound n))

theorem build_eq (k : Series) (bound : Value) : (k.build bound : Build σ Unit) =
    checkBound bound k.least >>= fun _ => k.ask >>= fun q => k.table bound q.1 >>= fun t =>
      pick bound q.2 t.1 t.2 := by
  cases k with
  | factorial =>
    simp only [build, Gadget.factorial, ask, table, bind_assoc, pure_bind]
    refine bind_congr fun _ => bind_congr fun n => bind_congr fun out => bind_congr fun seq => ?_
    cases seq with
    | nil => rfl
    | cons first rest =>
      simp only [fill, bind_assoc]
      rfl
  | fibonacci =>
    simp only [build, Gadget.fibonacci, ask, table, bind_assoc, pure_bind]
    refine bind_congr fun _ => bind_congr fun n => bind_congr fun out => bind_congr fun seq => ?_
    match seq with
    | [] => rfl
    | [_] => rfl
    | a :: b :: rest =>
      simp only [fill, bind_assoc]
      rfl
  | power =>
    simp only [build, Gadget.power, ask, table, bind_assoc, pure_bind]
    refine bind_congr fun _ => bind_congr fun base => bind_congr fun n => bind_congr fun out =>
      bind_congr fun seq => ?_
    cases seq with
    | nil => rfl
    | cons first rest =>
      simp only [fill, bind_assoc]
      rfl

theorem succeeds_ask (k : Series) (hblank : sc.Blank) :
    (k.ask : Build σ (Signal × Signal)).Succeeds sc fun q sts sc' =>
      sts = [] ∧ sc' = sc.declareAll (k.inputs q.1 q.2) ∧ sc.Interface (k.inputs q.1 q.2) [] ∧
        q.1 ∈ Declaration.flat (k.inputs q.1 q.2) := by
  have hsole : (do let n ← signal .input "n"; return (n, n) :
      Build σ (Signal × Signal)).Succeeds sc fun q sts sc' => sts = [] ∧
        sc' = sc.declareAll [⟨"n", .input, .single q.2⟩] ∧
        sc.Interface [⟨"n", .input, .single q.2⟩] [] ∧
        q.1 ∈ Declaration.flat [⟨"n", .input, .single q.2⟩] := by
    refine (yields_signal (by simp [hblank.names])).skip fun _ _ =>
      (yields_pure _).succeeds fun _ _ => ⟨rfl, rfl, ?_, by simp⟩
    exact (Scene.Interface.nil sc).input (sc.new_single .input "n") "n"
  cases k with
  | factorial => exact hsole
  | fibonacci => exact hsole
  | power =>
    refine (yields_signal (by simp [hblank.names])).skip fun _ _ => ?_
    refine (yields_signal (by simp [hblank.names])).skip fun _ _ => ?_
    refine (yields_pure _).succeeds fun _ _ => ⟨rfl, rfl, ?_, by simp [inputs]⟩
    exact ((Scene.Interface.nil sc).input (sc.new_single .input "base") "base").input
      (Scene.new_single _ .input "n") "n"

theorem mem_inputs (k : Series) (base n : Signal) : n ∈ Declaration.flat (k.inputs base n) := by
  cases k <;> simp [inputs]

/-- The names that a table takes are free. -/
theorem free_inputs (k : Series) (hblank : sc.Blank) (base n : Signal) :
    ∀ name ∈ ["out", "seq", "sel"], name ∉ (sc.declareAll (k.inputs base n)).names := by
  cases k <;> simp [inputs, Scene.declareAll, hblank.names]

/-- **A table of terms**, before one is picked. -/
structure Tabled (sc : Scene) (f : PrimeField) (k : Series) (bound : ℕ) (base n out : Signal)
    (seq : List Signal) (mark : Mark) (sts : List Statement) (sc' : Scene) : Prop where
  interface : sc.Interface (k.inputs base n) (soleOutput out)
  grows : (sc.declareAll (k.inputs base n ++ soleOutput out)).Grows sc'
  declared : ⟨"seq", .intermediate, .row seq mark⟩ ∈ sc'.declarations
  length : seq.length = bound
  free : "sel" ∉ sc'.names
  output : sc'.Open out
  mem : ∀ s ∈ seq, s ∈ sc'.signals
  unassigned : {out.uid} ∪ Signal.numbers seq = Set.Ico
    ((sc.signals.length + (Declaration.flat (k.inputs base n)).length : ℕ) : ℤ) sc'.signals.length
  step : (sc.declareAll (k.inputs base n ++ soleOutput out)).Step f sts sc'
    (Signal.numbers (Declaration.flat (k.inputs base n))) (Signal.numbers seq) ∅ {"seq"}
    (fun _ => True) fun v => seq.map v = (List.range bound).map (k.term (v base))

theorem succeeds_table (k : Series) (hf : sc.field = f) (hblank : sc.Blank) {base n : Signal}
    (hi : sc.Interface (k.inputs base n) []) (hbase : base ∈ Declaration.flat (k.inputs base n))
    {bound : ℕ} (hleast : k.least ≤ bound) :
    (k.table (.int bound) base : Build σ (Signal × List Signal)).Succeeds
      (sc.declareAll (k.inputs base n)) fun t sts sc' => ∃ mark,
        Tabled sc f k bound base n t.1 t.2 mark sts sc' := by
  have hfree := k.free_inputs hblank base n
  have hgrows₁ := sc.grows_declareAll (k.inputs base n)
  have hlen₁ := congrArg List.length (sc.declareAll_signals (k.inputs base n))
  rw [List.length_append] at hlen₁
  set sc₁ := sc.declareAll (k.inputs base n)
  refine .fit fun hfit₁ => (yields_signal (hfree "out" (by simp))).skip fun _ hfit₂ => ?_
  set out := sc₁.single .output "out"
  set sc₂ := sc₁.declare ⟨"out", .output, .single out⟩ with hsc₂
  refine succeeds_row bound (by simpa [hsc₂] using hfree "seq" (by simp))
    fun seq hlen hrow _ => ?_
  have hgrows₃ := sc₂.grows_declare ⟨"seq", .intermediate, .row seq sc₂.mark⟩
  set sc₃ := sc₂.declare ⟨"seq", .intermediate, .row seq sc₂.mark⟩ with hsc₃
  have hinterface : sc.Interface (k.inputs base n) (soleOutput out) := hi.output (by
    rw [List.append_nil]
    exact sc₁.new_single .output "out") "out"
  have hdecl : sc.declareAll (k.inputs base n ++ soleOutput out) = sc₂ :=
    sc.declareAll_concat _ _
  have hopen : ∀ s ∈ seq, sc₃.Open s := hrow.isOpen_row hfit₂ (Or.inr rfl)
  have hout : sc₃.Open out :=
    ((sc₁.new_single .output "out").isOpen_single hfit₁ (Or.inl rfl)).declare _
  have hnumbers := hrow.consecutive.numbers
  rw [hlen, show sc₂.signals.length = sc₁.signals.length + 1 by simp [hsc₂]]
    at hnumbers
  have hbase₃ : base ∈ sc₃.within (Signal.numbers (Declaration.flat (k.inputs base n))) := by
    rw [hinterface.numbers.numbers]
    exact Scene.within_subset hgrows₃ subset_rfl (hdecl ▸ hinterface.within_numbers hbase)
  refine (k.succeeds_fill (show sc₃.field = f from hgrows₁.field.trans hf) hbase₃
    (hleast.trans_eq hlen.symm) hopen hrow.consecutive.nodup).bind ?_
  rintro _ xs _ hgrows₄ - ⟨rfl, hfill⟩
  rw [hlen] at hfill
  refine (yields_pure (out, seq)).succeeds fun _ _ => ⟨sc₂.mark, hinterface, ?_, by simp [hsc₃],
    hlen, ?_, hout.later hgrows₄ hfill.toEffect ?_, fun s hs => (hopen s hs).mem, ?_, ?_⟩
  · rw [hdecl]
    exact hgrows₃.trans hgrows₄
  · simpa [hsc₃, hsc₂] using hfree "sel" (by simp)
  · rw [hnumbers]
    simp [out]
  · rw [hnumbers]
    ext u
    simp [out, hsc₃, hsc₂, hlen, ← hlen₁]
    omega
  · rw [hdecl, List.append_nil]
    exact (hfill.declared rfl).mono subset_rfl rfl subset_rfl (Set.union_empty _).subset
      (fun _ h => h) fun _ h => h

/-- **The entry of a table at `n`.** -/
theorem Tabled.succeeds_pick {k : Series} {bound : ℕ} {base n out : Signal} {seq : List Signal}
    {mark : Mark} {xs : List Statement} {sc₁ : Scene}
    (h : Tabled sc f k bound base n out seq mark xs sc₁) (hp : f.p.Prime) (hf : sc₁.field = f)
    (hwarn : sc₁.policy = .warn) (hblank : sc.Blank) (hfit : sc₁.Fit) (hn : 1 ≤ bound)
    (hwidth : Width f (Decimal.bitLength bound)) :
    (pick (.int bound) n out seq : Build σ Unit).Succeeds sc₁ fun _ ys sc' =>
      ⟨"seq", .intermediate, .row seq mark⟩ ∈ sc'.declarations ∧
        sc.Provides f (k.inputs base n) (soleOutput out) (fun v => ∃ i : ℕ, i < bound ∧ v n = i)
          (fun v => seq.map v = (List.range bound).map (k.term (v base)) ∧ Picks f seq n out v)
          (xs ++ ys) sc' := by
  set J := Signal.numbers (Declaration.flat (k.inputs base n)) with hJ
  have hindex : n ∈ sc₁.within (J ∪ Signal.numbers seq) := by
    rw [hJ, h.interface.numbers.numbers]
    exact Scene.within_subset h.grows Set.subset_union_left
      (h.interface.within_numbers (k.mem_inputs base n))
  refine (succeeds_entryAt hp hf hwarn h.free h.length hn hwidth
    (fun s hs => ⟨h.mem s hs, Or.inr (Signal.mem_numbers hs)⟩) hindex).bind ?_
  rintro u ys sc₂ hgrows₂ hfit₂ ⟨hu, hentry⟩
  have hf₂ : sc₂.field = f := hgrows₂.field.trans hf
  have hline := hfit₂.line hf₂ hu
  have hassign := sc₂.step_assign hline.toForm (fun s hs => hs.2) sc₂.path out
  refine (yields_assign hf₂ (h.output.below hfit hgrows₂ hentry.toEffect)
    (hline.toForm.mono fun s hs => hs.1)).succeeds fun hgrows₃ _ => ⟨?_, ?_⟩
  · exact (hgrows₂.trans hgrows₃).declarations.subset h.declared
  have hfront := h.step.imp (fun v (_ : ∃ i : ℕ, i < bound ∧ v n = i) => trivial) fun _ h => h
  have hsteps := (hfront.trans hentry subset_rfl fun v hv _ => hv).trans hassign
    (Set.subset_union_right.trans Set.subset_union_right) fun _ _ _ => trivial
  rw [List.append_assoc] at hsteps
  refine h.interface.provides hblank ((h.grows.trans hgrows₂).trans hgrows₃)
    (hsteps.imp (fun _ h => h) ?_) subset_rfl ?_ (by simp)
  · rintro v ⟨⟨hterms, i, x, hx, hvn, hvu⟩, hvout⟩
    exact ⟨hterms, i, x, hx, hvn, hvout.trans hvu⟩
  · rw [Set.union_comm, ← Set.union_assoc, h.unassigned]
    refine Set.Ico_union_Ico_eq_Ico ?_ (by exact_mod_cast hgrows₂.length_le)
    have hle := h.grows.length_le
    rw [sc.declareAll_signals, Declaration.flat_append, ← List.append_assoc, List.length_append,
      List.length_append] at hle
    exact_mod_cast (Nat.le_add_right _ _).trans hle

theorem least_pos (k : Series) : 1 ≤ k.least := by cases k <;> decide

/-- **The component of a sequence.** -/
theorem succeeds_build (k : Series) (hp : f.p.Prime) (hf : sc.field = f)
    (hwarn : sc.policy = .warn) (hblank : sc.Blank) {bound : ℕ} (hleast : k.least ≤ bound)
    (hwidth : Width f (Decimal.bitLength bound)) :
    (k.build (.int bound) : Build σ Unit).Succeeds sc fun _ sts sc' => ∃ base n out seq mark,
      seq.length = bound ∧ ⟨"seq", .intermediate, .row seq mark⟩ ∈ sc'.declarations ∧
        sc.Provides f (k.inputs base n) (soleOutput out) (fun v => ∃ i : ℕ, i < bound ∧ v n = i)
          (fun v => seq.map v = (List.range bound).map (k.term (v base)) ∧ Picks f seq n out v)
          sts sc' := by
  rw [build_eq]
  refine (yields_checkBound hleast).skip fun _ _ => (k.succeeds_ask hblank).bind ?_
  rintro ⟨base, n⟩ _ _ hgrows₁ - ⟨rfl, rfl, hi, hbase⟩
  refine (k.succeeds_table hf hblank hi hbase hleast).bind ?_
  rintro ⟨out, seq⟩ xs sc₂ hgrows₂ hfit₂ ⟨mark, htable⟩
  have hgrows := hgrows₁.trans hgrows₂
  refine (htable.succeeds_pick hp (hgrows.field.trans hf) (hgrows.policy.trans hwarn) hblank hfit₂
    (k.least_pos.trans hleast) hwidth).mono ?_
  rintro _ ys sc' - - ⟨hdeclared, hprov⟩
  exact ⟨base, n, out, seq, mark, htable.length, hdeclared, hprov⟩

/-- **A bound is refused** whose positions are too wide to be compared. -/
theorem fails_build (k : Series) (hp : sc.field.p.Prime) (hblank : sc.Blank) {bound : ℕ}
    (hleast : k.least ≤ bound) (hwidth : ¬ Width sc.field (Decimal.bitLength bound)) :
    (k.build (.int bound) : Build σ Unit).Fails sc (Refused (Decimal.bitLength bound)) := by
  rw [build_eq]
  refine (yields_checkBound hleast).fails ((k.succeeds_ask hblank).fails ?_)
  rintro ⟨base, n⟩ _ _ hgrows₁ - ⟨rfl, rfl, hi, hbase⟩
  refine (k.succeeds_table rfl hblank hi hbase hleast).fails ?_
  rintro ⟨out, seq⟩ xs sc₂ hgrows₂ - ⟨mark, htable⟩
  have hfield : sc₂.field = sc.field := (hgrows₁.trans hgrows₂).field
  exact (fails_entryAt (hfield ▸ hp) htable.free (k.least_pos.trans hleast) (hfield ▸ hwidth) seq
    n).bind

/-- The supplies of the inputs. -/
def supplies (k : Series) (base n : ℕ) : List (String × Supply) :=
  match k with
  | power => [("base", .single base), ("n", .single n)]
  | _ => [("n", .single n)]

end Series

/-! ## Circuits -/

namespace Circuit

variable {c : Circuit} {f : PrimeField}

/-- **A circuit tabulates a sequence below a bound**: the outcome is all terms below the bound
    and the one at the index, and there is none if the index is not below the bound. -/
def Tabulates (c : Circuit) (k : Series) (p bound : ℕ) : Prop :=
  ∀ base n : ℕ, base < p → n < p → c.Settles (k.supplies base n)
    (if n < bound then
      some [("out", [k.term base n]), ("seq", (List.range bound).map (k.term base))]
    else none)

theorem takes_supplies (k : Series) (base n : Signal) (x y : ℕ) :
    List.Forall₂ Declaration.Takes (k.inputs base n) (k.supplies x y) := by
  cases k with
  | power => exact .cons ⟨rfl, .single x⟩ (.cons ⟨rfl, .single y⟩ .nil)
  | factorial => exact .cons ⟨rfl, .single y⟩ .nil
  | fibonacci => exact .cons ⟨rfl, .single y⟩ .nil

/-- What the supplies say about the index and the terms. -/
theorem given_supplies {k : Series} {base n : Signal} {x y : ℕ} {v : Signal → ZMod f.p}
    (h : Given v (k.inputs base n) (k.supplies x y)) :
    v n = y ∧ ∀ i, k.term (v base) i = (k.term x i : ℕ) := by
  simp only [k.cast_term]
  cases k with
  | power =>
    obtain ⟨hbase, hn⟩ : v base = x ∧ v n = y := by
      simpa [Given, Series.inputs, Series.supplies, elements, Supply.numbers] using h
    exact ⟨hn, fun i => by rw [hbase]⟩
  | factorial =>
    exact ⟨by simpa [Given, Series.inputs, Series.supplies, elements, Supply.numbers] using h,
      fun _ => rfl⟩
  | fibonacci =>
    exact ⟨by simpa [Given, Series.inputs, Series.supplies, elements, Supply.numbers] using h,
      fun _ => rfl⟩

theorem Realizes.tabulates {k : Series} {base n out : Signal} {seq : List Signal} {mark : Mark}
    {bound : ℕ} (h : c.Realizes f (k.inputs base n) (soleOutput out)
      (fun v => ∃ i : ℕ, i < bound ∧ v n = i)
      fun v => seq.map v = (List.range bound).map (k.term (v base)) ∧ Picks f seq n out v)
    (hseq : ⟨"seq", .intermediate, .row seq mark⟩ ∈ c.mainInstance.declarations)
    (hbound : bound ≤ f.p) : c.Tabulates k f.p bound := by
  intro x y hx hy
  have hds : ∀ d ∈ soleOutput out ++ [⟨"seq", .intermediate, .row seq mark⟩],
      d ∈ c.mainInstance.declarations := by
    intro d hd
    rcases List.mem_append.1 hd with hd | hd
    · exact h.mem_of_output hd
    · rwa [List.mem_singleton.1 hd]
  refine h.settles (takes_supplies k base n x y) hds ?_ ?_ (fun v hv hsome => ?_)
    fun v hv hp => ?_
  · cases k <;> simp [Series.inputs] <;> decide
  · cases k <;> simp [Series.supplies, Supply.numbers, hx, hy]
  · refine ⟨y, ?_, (given_supplies hv).1⟩
    by_contra hle
    simp [hle] at hsome
  · obtain ⟨hterms, i, s, hs, hvn, hvout⟩ := hp
    obtain ⟨hvy, hvterm⟩ := given_supplies hv
    have hget := congrArg (·[i]?) hterms
    simp only [List.getElem?_map, hs, Option.map_some] at hget
    obtain ⟨j, hj, hvs⟩ := Option.map_eq_some_iff.1 hget.symm
    obtain ⟨hi, rfl⟩ : i < bound ∧ i = j := by
      simpa [List.getElem?_eq_some_iff] using hj
    obtain rfl : i = y :=
      CharP.natCast_injOn_Iio (ZMod f.p) f.p (hi.trans_le hbound) hy (hvn.symm.trans hvy)
    refine ⟨_, if_pos hi, .cons ⟨rfl, ?_⟩ (.cons ⟨rfl, ?_⟩ .nil)⟩
    · simp [elements, hvout, ← hvs, hvterm]
    · rw [Bus.flat_row, hterms, elements, List.map_map]
      exact List.map_congr_left fun i _ => hvterm i

end Circuit

theorem Series.keeps_build {σ : Type} (k : Series) {W : Workspace} (hW : W.Sound) (ha : W.Apart)
    (bound : Value) : Build.Keeps W (k.build bound : Build σ Unit) fun _ => True := by
  cases k with
  | factorial => exact keeps_factorial hW ha bound
  | fibonacci => exact keeps_fibonacci hW ha bound
  | power => exact keeps_power hW ha bound

/-- **Sequences are exact.**  Bounds from the least one on compile as long as the digits of the
    bound and one more fit below the prime, and the circuit tabulates the sequence.  Larger and
    smaller bounds are refused. -/
theorem series_exact {σ : Type} {p : ℕ} (hp : p.Prime) {settings : Settings}
    (hs : settings.prime = .int p) (k : Series) (host : σ) (public_ : List String) :
    (∀ bound : ℕ, k.least ≤ bound → Decimal.bitLength bound + 1 < Decimal.bitLength p →
      (public_.Nodup → public_ ⊆ k.inputNames →
        ∃ c, (compile settings (k.template (.int bound)) host public_).result = .ok c) ∧
      ∀ c, (compile settings (k.template (.int bound)) host public_).result = .ok c →
        c.Tabulates k p bound) ∧
    (∀ bound : ℕ, k.least ≤ bound → ¬ Decimal.bitLength bound + 1 < Decimal.bitLength p →
      ∃ e, (compile settings (k.template (.int bound)) host public_).result = .error e ∧
        Refused (Decimal.bitLength bound) e) ∧
    ∀ bound : ℤ, bound < k.least →
      ∃ e, (compile settings (k.template (.int bound)) host public_).result = .error e ∧
        Refused bound e := by
  let f : PrimeField := ⟨p, hp.two_le⟩
  have hf : settings.field = .ok f := Settings.field_of_prime hp hs
  refine ⟨fun bound hleast hlt => ?_, fun bound hleast hle => ?_, fun bound hsmall => ?_⟩
  · have hwidth : Width f (Decimal.bitLength bound) :=
      (width_bitLength (k.least_pos.trans hleast)).2 hlt
    refine compile_realizes (f := f) hf (fun W hW ha => k.keeps_build hW ha _) ?_ host public_
    refine (k.succeeds_build (f := f) hp rfl rfl (Scene.blank_main f .warn) hleast hwidth).mono ?_
    rintro _ sts sc' - - ⟨base, n, out, seq, mark, -, hseq, hprov⟩
    refine ⟨_, _, _, _, hprov, by cases k <;> rfl, fun c hc hmade => ?_⟩
    exact hc.tabulates (hmade.declarations ▸ hseq) hwidth.le_p
  · refine compile_of_fails hf ?_ public_
    exact k.fails_build hp (Scene.blank_main f _) hleast
      ((width_bitLength (k.least_pos.trans hleast)).not.2 hle)
  · refine compile_of_fails hf ?_ public_
    change (k.build (.int bound)).Fails _ _
    rw [Series.build_eq]
    exact (fails_checkBound hsmall).bind

/-- Below 97, five factorial wraps around; the powers of three and the Fibonacci numbers are
    tabulated too, and a single Fibonacci number is refused. -/
theorem series_exact_below_97 :
    Nat.Prime 97 ∧
    (∃ c, (compile { prime := .int 97 } (Series.factorial.template (.int 6)) () []).result
        = .ok c ∧
      c.Settles [("n", .single 5)] (some [("out", [120]), ("seq", [1, 1, 2, 6, 24, 120])]) ∧
      c.Settles [("n", .single 6)] none) ∧
    (∃ c, (compile { prime := .int 97 } (Series.fibonacci.template (.int 7)) () []).result
        = .ok c ∧
      c.Settles [("n", .single 6)] (some [("out", [8]), ("seq", [0, 1, 1, 2, 3, 5, 8])])) ∧
    (∃ c, (compile { prime := .int 97 } (Series.power.template (.int 3)) () ["n"]).result
        = .ok c ∧
      c.Settles [("base", .single 3), ("n", .single 2)]
        (some [("out", [9]), ("seq", [1, 3, 9])])) ∧
    ∃ e, (compile { prime := .int 97 } (Series.fibonacci.template (.int 1)) () []).result
        = .error e ∧ Refused 1 e := by
  have hp : Nat.Prime 97 := by norm_num
  have hs : ({ prime := .int 97 } : Settings).prime = .int (97 : ℕ) := rfl
  refine ⟨hp, ?_, ?_, ?_, (series_exact hp hs .fibonacci () []).2.2 1 (by decide)⟩
  · obtain ⟨hok, hall⟩ := (series_exact hp hs .factorial () []).1 6 (by decide) (by decide +kernel)
    obtain ⟨c, hc⟩ := hok (by simp) (by simp)
    exact ⟨c, hc, hall c hc 0 5 (by decide) (by decide), hall c hc 0 6 (by decide) (by decide)⟩
  · obtain ⟨hok, hall⟩ := (series_exact hp hs .fibonacci () []).1 7 (by decide) (by decide +kernel)
    obtain ⟨c, hc⟩ := hok (by simp) (by simp)
    exact ⟨c, hc, hall c hc 0 6 (by decide) (by decide)⟩
  · obtain ⟨hok, hall⟩ := (series_exact hp hs .power () ["n"]).1 3 (by decide) (by decide +kernel)
    obtain ⟨c, hc⟩ := hok (by simp) (by simp [Series.inputNames])
    exact ⟨c, hc, hall c hc 3 2 (by decide) (by decide)⟩

end RankOne
