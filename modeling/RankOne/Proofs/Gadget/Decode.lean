/-
  RankOne — decoders succeed, and mark a position.

  The outputs of a decoder are advice.  Each vanishes unless the input is its position, and
  their sum is zero or one: at most the position of the input is set.  Whether it is set is
  not said, so that a decoder alone can be satisfied with all outputs zero.

  * `oneHot`: a value at one position, and zeros elsewhere;
  * `Marked`, `succeeds_markAt`, `succeeds_decodeFrom`: the positions, one by one;
  * `succeeds_decoder`: the component, with what its advice gives;
  * `Circuit.Decodes`, `decoder_marks`: the circuit;
  * `decoder_unmarked`: a vector that leaves out the position of its input.
-/
import RankOne.Proofs.Gadget.Compare
import RankOne.Proofs.Gadget.Parents
import RankOne.Proofs.Witness.Supply

namespace RankOne

/-! ## One position -/

/-- Of `n` positions the `i`-th has the value `t`, and the others are zero. -/
def oneHot {α : Type} [Zero α] (n i : ℕ) (t : α) : List α :=
  (List.range n).map fun k => if k = i then t else 0

section
variable {α : Type} [AddCommMonoid α]

@[simp] theorem length_oneHot (n i : ℕ) (t : α) : (oneHot n i t).length = n := by simp [oneHot]

theorem getElem?_oneHot {n i k : ℕ} (t : α) (hk : k < n) :
    (oneHot n i t)[k]? = some (if k = i then t else 0) := by
  simp [oneHot, hk]

/-- Without the position, the value does not matter. -/
theorem oneHot_of_le {n i : ℕ} (h : n ≤ i) (t t' : α) : oneHot n i t = oneHot n i t' := by
  refine List.map_congr_left fun k hk => ?_
  have hne : k ≠ i := by
    have := List.mem_range.1 hk
    omega
  rw [if_neg hne, if_neg hne]

theorem sum_oneHot (n i : ℕ) (t : α) : (oneHot n i t).sum = if i < n then t else 0 := by
  induction n with
  | zero => simp [oneHot]
  | succ n ih =>
    rw [oneHot, List.range_succ, List.map_append, List.sum_append, ← oneHot, ih]
    rcases lt_trichotomy i n with h | rfl | h
    · simp [h, h.trans (Nat.lt_succ_self n), h.ne']
    · simp
    · simp [h.not_gt, show ¬ i < n + 1 by omega, h.ne]

/-- Values that vanish off one position have there what they sum to. -/
theorem eq_oneHot {xs : List α} {i : ℕ} (h : ∀ k x, xs[k]? = some x → k ≠ i → x = 0) :
    xs = oneHot xs.length i xs.sum := by
  have hxs : xs = oneHot xs.length i (xs.getD i 0) := by
    refine List.ext_getElem? fun k => ?_
    rcases lt_or_ge k xs.length with hk | hk
    · rw [getElem?_oneHot _ hk, List.getElem?_eq_getElem hk, Option.some_inj]
      split_ifs with hki
      · subst hki
        simp [List.getD, List.getElem?_eq_getElem hk]
      · exact h k _ (List.getElem?_eq_getElem hk) hki
    · rw [List.getElem?_eq_none hk, List.getElem?_eq_none (by simpa using hk)]
  rcases lt_or_ge i xs.length with hi | hi
  · have hsum := congrArg List.sum hxs
    rw [sum_oneHot, if_pos hi] at hsum
    rw [hsum]
    exact hxs
  · exact hxs.trans (oneHot_of_le hi _ _)

end

theorem elements_oneHot (p n i t : ℕ) :
    Circuit.elements p (oneHot n i t) = oneHot n i (t : ZMod p) := by
  rw [Circuit.elements, oneHot, oneHot, List.map_map]
  refine List.map_congr_left fun k _ => ?_
  simp only [Function.comp_apply]
  split_ifs <;> simp

namespace Gadget

open Build

variable {σ : Type} {f : PrimeField} {sc : Scene} {I : Set ℤ}

/-! ## Positions -/

theorem run_isPosition (f : PrimeField) (i n : ℕ) :
    (Hint.isPosition i).run f [n] = .ok (.value (if n = i then 1 else 0)) := by
  simp only [Hint.isPosition, Hint.give, Nat.cast_inj]

/-- Positions from `i` on: what was added, and what the advice gives. -/
structure Marked (sc : Scene) (f : PrimeField) (I : Set ℤ) (x : Signal) (i : ℕ)
    (outs : List Signal) (sts : List Statement) (sc' : Scene) : Prop where
  scene : sc' = sc.assignAll outs
  step : sc.Step f sts sc' I (Signal.numbers outs) ∅ ∅ (fun _ => True)
    fun v => ∀ q ∈ outs.zipIdx i, v q.1 * (v x - q.2) = 0
  advice : ∀ v : Signal → ZMod f.p, ByUid v → (∀ st ∈ sts, st.Computes v) →
    ∀ q ∈ outs.zipIdx i, v q.1 = flag (q.2 = (v x).val)

theorem Marked.cons {x o : Signal} {i : ℕ} {outs : List Signal} {xs ys : List Statement}
    {sc₁ sc' : Scene} (h : Marked sc f I x i [o] xs sc₁)
    (hrest : Marked sc₁ f I x (i + 1) outs ys sc') :
    Marked sc f I x i (o :: outs) (xs ++ ys) sc' where
  scene := by rw [hrest.scene, h.scene, sc.assignAll_cons, sc.assignAll_cons, Scene.assignAll_nil]
  step := by
    refine (h.step.trans hrest.step Set.subset_union_left fun _ _ _ => trivial).mono subset_rfl ?_
      (by simp) (by simp) (fun _ h => h) fun v hv => ?_
    · rw [Signal.numbers_singleton, Signal.numbers_cons]
    · rw [List.zipIdx_cons]
      exact List.forall_mem_cons.2 ⟨hv.1 _ List.mem_cons_self, hv.2⟩
  advice := fun v hv hc => by
    rw [List.forall_mem_append] at hc
    rw [List.zipIdx_cons]
    exact List.forall_mem_cons.2
      ⟨h.advice v hv hc.1 _ List.mem_cons_self, hrest.advice v hv hc.2⟩

/-- One position of a decoder. -/
def markAt (x : Signal) (i : ℕ) (out : Signal) : Build σ Unit := do
  hint out (.isPosition i) (.ofSignal x)
  let product ← times (.ofSignal out) ((Expr.ofSignal x).sub (← const i))
  constrain product (← const 0)

theorem decodeFrom_cons (x : Signal) (i : ℕ) (acc : Expr) (out : Signal) (outs : List Signal) :
    (decodeFrom x i acc (out :: outs) : Build σ Expr) =
      markAt x i out >>= fun _ => decodeFrom x (i + 1) (acc.add (.ofSignal out)) outs := by
  simp only [decodeFrom, markAt, bind_assoc]

/-- **One position**: the row says that the output vanishes unless the input is this
    position, and the advice is one exactly there. -/
theorem succeeds_markAt (hp : f.p.Prime) (hf : sc.field = f) {x o : Signal} (hx : x ∈ sc.within I)
    (ho : sc.Open o) (i : ℕ) : (markAt x i o : Build σ Unit).Succeeds sc fun _ sts sc' =>
      Marked sc f I x i [o] sts sc' := by
  have := Fact.mk hp
  refine .fit fun hfit => ?_
  have hfield {s : Signal} (hs : s ∈ sc.signals) : s.field = f := (hfit.field s hs).trans hf
  have hinput : (Expr.ofSignal x).Line f {x} fun v => v x := .ofSignal rfl (hfield hx.1)
  have hmem : ({x} : Set Signal) ⊆ {s | s ∈ sc.signals} := by
    rintro s rfl
    exact hx.1
  have hI : ∀ s ∈ ({x} : Set Signal), s.uid ∈ I := by
    rintro s rfl
    exact hx.2
  have hzero : (Expr.ofInt f 0).Line f {s | s ∈ sc.signals} _ := .ofInt 0
  obtain ⟨product, hproduct, hform, hdegree⟩ :=
    (Expr.Line.ofSignal (T := {s | s ∈ sc.signals}) ho.mem (hfield ho.mem)).mul
      ((hinput.mono hmem).sub (.ofInt i))
  refine (yields_hint hf ho (hinput.toForm.mono hmem) fun n => ⟨_, run_isPosition f i n⟩).emit
    fun _ _ => ?_
  refine (yields_const i).skip fun _ _ => ?_
  rw [show (sc.assign o).field = f from hf]
  refine (yields_times hproduct).skip fun _ _ => (yields_const 0).skip fun _ _ => ?_
  rw [show (sc.assign o).field = f from hf]
  refine (yields_constrain (show (sc.assign o).field = f from hf) hform hzero (by
    rw [hdegree rfl (by rw [Expr.degree_sub]; rfl), Expr.degree_ofInt]; decide)).succeeds
    fun _ _ => ?_
  have hset : ∀ v : Signal → ZMod f.p, ByUid v →
      (Statement.hint sc.path o (.isPosition i) [.ofSignal x]).Computes v →
      v o = flag (i = (v x).val) := by
    rintro v hv ⟨m, hm, hvo⟩
    rw [List.map_singleton, hinput.value v hv, run_isPosition] at hm
    cases hm
    rw [hvo, flag]
    simp only [eq_comm (a := i)]
    split_ifs <;> simp
  refine ⟨by rw [sc.assignAll_cons, Scene.assignAll_nil], ?_, fun v hv hc => ?_⟩
  · have hrow := (sc.assign o).step_constrain (I := I) hform hzero.toForm sc.path
    refine (hrow.hint (s := o) hinput.toForm hI Set.subset_union_left fun v hv hc _ => ?_).mono
      subset_rfl ?_ (by simp) (by simp) (fun _ h => h) fun v hvo => ?_
    · rw [hset v hv hc, flag]
      split_ifs with hi
      · simp [hi]
      · simp
    · simp [Signal.numbers_singleton]
    · simpa using hvo
  · simpa using hset v hv (hc _ List.mem_cons_self)

/-- **The positions of a decoder, one by one.** -/
theorem succeeds_decodeFrom (hp : f.p.Prime) {x : Signal} :
    ∀ {outs : List Signal} {i : ℕ} {acc : Expr} {V : Set Signal}
      {d : (Signal → ZMod f.p) → ZMod f.p} {sc : Scene}, sc.field = f → x ∈ sc.within I →
    (∀ o ∈ outs, sc.Open o) → (outs.map (·.uid)).Nodup → acc.Line f V d →
    (decodeFrom x i acc outs : Build σ Expr).Succeeds sc fun e sts sc' =>
      e.Line f (V ∪ {s | s ∈ outs}) (fun v => d v + (outs.map v).sum) ∧
        Marked sc f I x i outs sts sc'
  | [], i, acc, V, d, sc, _, _, _, _, hacc => by
    refine (yields_pure acc).succeeds fun _ _ =>
      ⟨?_, sc.assignAll_nil.symm, .none (by simp), by simp⟩
    exact (hacc.mono Set.subset_union_left).congr fun v => by simp
  | o :: outs, i, acc, V, d, sc, hf, hx, hopen, hnd, hacc => by
    obtain ⟨hnew, hnd⟩ := List.nodup_cons.1 hnd
    obtain ⟨ho, houts⟩ := List.forall_mem_cons.1 hopen
    rw [decodeFrom_cons]
    refine .fit fun hfit => (succeeds_markAt hp hf hx ho i).bind ?_
    rintro _ xs sc₁ hgrows - hfirst
    have hlater : ∀ s ∈ outs, sc₁.Open s := fun s hs =>
      (houts s hs).later hgrows hfirst.step.toEffect fun hmem =>
        hnew (List.mem_map.2 ⟨s, hs, by simpa [Signal.numbers_singleton] using hmem⟩)
    have hline : (Expr.ofSignal o).Line f {o} fun v => v o :=
      .ofSignal rfl ((hfit.field o ho.mem).trans hf)
    refine (succeeds_decodeFrom hp (hgrows.field.trans hf)
      (Scene.within_subset hgrows subset_rfl hx) hlater hnd
      ((hacc.mono (U := V ∪ {o}) Set.subset_union_left).add
        (hline.mono Set.subset_union_right))).mono ?_
    rintro e ys sc' - - ⟨he, hrest⟩
    refine ⟨(he.mono ?_).congr fun v => ?_, hfirst.cons hrest⟩
    · rintro s ((hs | rfl) | hs)
      · exact Or.inl hs
      · exact Or.inr List.mem_cons_self
      · exact Or.inr (List.mem_cons_of_mem _ hs)
    · rw [List.map_cons, List.sum_cons, add_assoc]

section
variable {p : ℕ} {outs : List Signal} {v : Signal → ZMod p}

/-- Values that vanish unless `x` is their position are zero at all other positions. -/
theorem map_eq_oneHot (hp : p.Prime) {x : ZMod p} (hlen : outs.length ≤ p)
    (h : ∀ q ∈ outs.zipIdx, v q.1 * (x - q.2) = 0) :
    outs.map v = oneHot outs.length x.val (outs.map v).sum := by
  have := Fact.mk hp
  have hoff : ∀ k y, (outs.map v)[k]? = some y → k ≠ x.val → y = 0 := by
    intro k y hy hne
    rw [List.getElem?_map] at hy
    obtain ⟨o, ho, rfl⟩ := Option.map_eq_some_iff.1 hy
    have hzero := h (o, k) (List.mem_zipIdx_iff_getElem?.2 ho)
    refine (mul_eq_zero.1 hzero).resolve_right fun heq => hne ?_
    have hlt : k < p := (List.getElem?_eq_some_iff.1 ho).1.trans_le hlen
    rw [sub_eq_zero.1 heq, ZMod.val_natCast_of_lt hlt]
  have hhot := eq_oneHot hoff
  rwa [List.length_map] at hhot

/-- Flags of one position. -/
theorem map_eq_oneHot_one {m : ℕ} (h : ∀ q ∈ outs.zipIdx, v q.1 = flag (q.2 = m)) :
    outs.map v = oneHot outs.length m 1 := by
  refine List.ext_getElem? fun k => ?_
  rcases lt_or_ge k outs.length with hk | hk
  · rw [List.getElem?_map, getElem?_oneHot _ hk, List.getElem?_eq_getElem hk, Option.map_some,
      h (outs[k], k) (List.mem_zipIdx_iff_getElem?.2 (List.getElem?_eq_getElem hk)), flag]
  · rw [List.getElem?_eq_none (by simpa using hk), List.getElem?_eq_none (by simpa using hk)]

end

/-! ## Decoders -/

/-- What the rows of a decoder say: at most the position of the input is set, and `success`
    tells whether it is. -/
structure Decoded {p : ℕ} (w : ℕ) (x : ZMod p) (outs : List (ZMod p)) (success : ZMod p) :
    Prop where
  outs : outs = oneHot w x.val success
  success : success = 0 ∨ success = 1 ∧ x.val < w

/-- What its advice gives: the position of the input is set. -/
structure Advised {p : ℕ} (w : ℕ) (x : ZMod p) (outs : List (ZMod p)) (success : ZMod p) :
    Prop where
  outs : outs = oneHot w x.val 1
  success : success = flag (x.val < w)

section
variable {p w : ℕ} {outs : List Signal} {v : Signal → ZMod p} {x success : ZMod p}
  (hlen : outs.length = w) (hsum : success = (outs.map v).sum)
include hlen hsum

/-- A sum that is a bit tells whether the position is set. -/
theorem decoded_of_sum (hp : p.Prime) (hw : w ≤ p)
    (h : ∀ q ∈ outs.zipIdx, v q.1 * (x - q.2) = 0) (hbit : success = 0 ∨ success = 1) :
    Decoded w x (outs.map v) success := by
  have := Fact.mk hp
  have hhot := map_eq_oneHot hp (hlen.trans_le hw) h
  rw [← hsum, hlen] at hhot
  refine ⟨hhot, hbit.imp_right fun hone => ⟨hone, ?_⟩⟩
  by_contra hle
  rw [hhot, sum_oneHot, if_neg hle, hone] at hsum
  exact one_ne_zero hsum

/-- The sum of the flags of all positions is a flag. -/
theorem advised_of_sum (h : ∀ q ∈ outs.zipIdx, v q.1 = flag (q.2 = x.val)) :
    Advised w x (outs.map v) success := by
  have hone := map_eq_oneHot_one h
  rw [hlen] at hone
  refine ⟨hone, ?_⟩
  rw [hsum, hone, sum_oneHot]
  rfl

end

theorem Advised.bit {p w : ℕ} {x success : ZMod p} {outs : List (ZMod p)}
    (h : Advised w x outs success) : success = 0 ∨ success = 1 := by
  rw [h.success, flag]
  split_ifs
  · exact Or.inr rfl
  · exact Or.inl rfl

/-- The outputs of a decoder. -/
def decoderOutputs (outs : List Signal) (mark : Mark) (success : Signal) : List Declaration :=
  [⟨"out", .output, .row outs mark⟩, ⟨"success", .output, .single success⟩]

/-- **The component that marks the position of its input.** -/
theorem succeeds_decoder (hp : f.p.Prime) (hf : sc.field = f) (hblank : sc.Blank) {w : ℕ}
    (hw : w ≤ f.p) :
    (decoder (.int w) : Build σ Unit).Succeeds sc fun _ sts sc' => ∃ x outs mark success,
      outs.length = w ∧ sc.Provides f [⟨"inp", .input, .single x⟩]
        (decoderOutputs outs mark success) (fun _ => True)
        (fun v => Decoded w (v x) (outs.map v) (v success)) sts sc' ∧
      (∀ v : Signal → ZMod f.p, ByUid v → (∀ st ∈ sts, st.Computes v) →
        Advised w (v x) (outs.map v) (v success)) ∧ sc'.children = ∅ := by
  refine (yields_signal (by simp [hblank.names])).skip fun _ hfit₁ => ?_
  set x := sc.single .input "inp"
  set sc₁ := sc.declare ⟨"inp", .input, .single x⟩ with hsc₁
  refine succeeds_row w (by simp [hsc₁, hblank.names]) fun outs hlen hbus hfit₂ => ?_
  set sc₂ := sc₁.declare ⟨"out", .output, .row outs sc₁.mark⟩ with hsc₂
  refine (yields_signal (by simp [hsc₁, hsc₂, hblank.names])).skip fun _ _ => ?_
  set success := sc₂.single .output "success"
  set sc₃ := sc₂.declare ⟨"success", .output, .single success⟩ with hsc₃
  have hf₃ : sc₃.field = f := hf
  have hinterface : sc.Interface [⟨"inp", .input, .single x⟩]
      (decoderOutputs outs sc₁.mark success) :=
    (((Scene.Interface.nil sc).input (sc.new_single .input "inp") "inp").output hbus
      "out").output (sc₂.new_single .output "success") "success"
  have hx : x ∈ sc₃.within {x.uid} := ⟨by simp [hsc₁, hsc₂, hsc₃], rfl⟩
  have hopen : ∀ o ∈ outs, sc₃.Open o := fun o ho =>
    (hbus.isOpen_row hfit₁ (Or.inl rfl) o ho).declare _
  have hnumbers := hbus.consecutive.numbers
  rw [hlen] at hnumbers
  have hsuccess : sc₃.Open success :=
    (sc₂.new_single .output "success").isOpen_single hfit₂ (Or.inl rfl)
  refine (yields_const 0).skip fun _ _ => ?_
  rw [hf₃]
  refine (succeeds_decodeFrom hp hf₃ hx hopen hbus.consecutive.nodup
    (.ofInt (T := ∅) 0)).bind ?_
  rintro total xs _ hgrows₄ - ⟨htotal, rfl, hmarks, hadvice⟩
  have hsum : total.Line f {s | s ∈ outs} fun v => (outs.map v).sum :=
    (htotal.mono (by simp)).congr fun v => by simp
  have hlast := (sc₃.assignAll outs).step_assign hsum.toForm
    (fun s hs => Signal.mem_numbers hs) sc₃.path success
  refine (yields_assign (show (sc₃.assignAll outs).field = f from hf₃)
    (hsuccess.later hgrows₄ hmarks.toEffect ?_)
    (hsum.toForm.mono fun s hs => (hopen s hs).mem)).emit fun hgrows₅ _ => ?_
  · rw [hnumbers]
    simp [success, hsc₂, hlen]
  refine (succeeds_constrainBit hp (show ((sc₃.assignAll outs).assign success).field = f from hf₃)
    hsuccess.mem ∅).mono ?_
  rintro _ ys _ - - ⟨rfl, hbit⟩
  -- the advice makes the sum a bit
  have hsteps := (hmarks.trans hlast Set.subset_union_right fun _ _ _ => trivial).chain hbit
    (Set.empty_subset _) fun v hv hc _ hpost =>
      (advised_of_sum hlen hpost.2 (hadvice v hv fun st hst =>
        hc st (List.mem_append_left _ hst))).bit
  rw [List.append_assoc] at hsteps
  refine ⟨x, outs, sc₁.mark, success, hlen, hinterface.provides hblank
    (hgrows₄.trans hgrows₅) (hsteps.imp (fun _ h => h) ?_) (by simp [Signal.numbers_singleton]) ?_
    (by simp), fun v hv hc => ?_, ?_⟩
  · rintro v ⟨⟨hzero, hvs⟩, hbool⟩
    exact decoded_of_sum hlen hvs hp hw hzero hbool
  · rw [hnumbers]
    ext u
    simp [hsc₁, hsc₂, hsc₃, success, hlen]
    omega
  · rw [List.forall_mem_append] at hc
    refine advised_of_sum hlen ?_ (hadvice v hv hc.1)
    have hassign := hc.2 _ List.mem_cons_self
    rw [Statement.Computes, hsum.value v hv] at hassign
    exact hassign.symm
  · simp [hsc₁, hsc₂, hsc₃, hblank.children]

/-- The template of a decoder. -/
def decoderTemplate (w : Value) : Template σ := ⟨.of "Decoder" [w], decoder w⟩

/-- A named decoder. -/
theorem succeeds_placedDecoder (hp : f.p.Prime) (hf : sc.field = f) {name : String}
    (hname : name ∉ sc.names) {w : ℕ} (hw : w ≤ f.p) :
    (component name (decoderTemplate (.int w)) : Build σ Component).Succeeds sc fun c sts sc₁ =>
      ∃ x outs mark success, outs.length = w ∧ sc.Placed f [⟨"inp", .input, .single x⟩]
        (decoderOutputs outs mark success) (fun _ => True)
        (fun v => Decoded w (v x) (outs.map v) (v success)) ∅ {name} c sts sc₁ ∧
      ∀ v : Signal → ZMod f.p, ByUid v → (∀ st ∈ sts, st.Computes v) →
        Advised w (v x) (outs.map v) (v success) := by
  refine succeeds_placed (f := f) hname fun id => ?_
  refine (succeeds_decoder hp (by simpa using hf) (sc.blank_enter id name) hw).mono ?_
  rintro _ sts sc' - - ⟨x, outs, mark, success, hlen, hprov, hadvice, hchildren⟩
  exact ⟨_, _, _, _, hprov, Or.inr hchildren,
    fun c sc₁ h => ⟨x, outs, mark, success, hlen, h, hadvice⟩⟩

end Gadget

open Gadget

/-! ## Circuits -/

namespace Circuit

variable {c : Circuit} {f : PrimeField}

/-- **A circuit locates its input among `w` positions.**  If the rows are satisfied, then its
    position is marked, with `success`, or nothing is.  Evaluation marks every position. -/
structure Locates (c : Circuit) (p w : ℕ) : Prop where
  sound : ∀ x < p, c.Allows [("inp", .single x)] fun ys =>
    ∃ t : ℕ, (t = 0 ∨ t = 1 ∧ x < w) ∧ ys = [("out", oneHot w x t), ("success", [t])]
  evaluates : ∀ x < p, c.Evaluates [("inp", .single x)]
    (some [("out", oneHot w x 1), ("success", [if x < w then 1 else 0])])

/-- What outputs with these values tell. -/
theorem tells_decoder {v : Signal → ZMod f.p} {outs : List Signal} {mark : Mark}
    {success : Signal} {w x t t' : ℕ} (hout : outs.map v = oneHot w x (t : ZMod f.p))
    (hsuccess : v success = t') : Tells v (decoderOutputs outs mark success)
      [("out", oneHot w x t), ("success", [t'])] := by
  refine .cons ⟨rfl, ?_⟩ (.cons ⟨rfl, ?_⟩ .nil)
  · rw [elements_oneHot, ← hout, Bus.flat_row]
  · simp [elements, hsuccess]

theorem Realizes.locates {ds : List Declaration} {sts : List Statement} {x : Signal}
    {outs : List Signal} {mark : Mark} {success : Signal} {w : ℕ}
    (h : c.Realizes f [⟨"inp", .input, .single x⟩] (decoderOutputs outs mark success)
      (fun _ => True) fun v => Decoded w (v x) (outs.map v) (v success))
    (hmade : c.Made f ds sts) (hadvice : ∀ v : Signal → ZMod f.p, ByUid v →
      (∀ st ∈ sts, st.Computes v) → Advised w (v x) (outs.map v) (v success)) :
    c.Locates f.p w := by
  have htakes (n : ℕ) : List.Forall₂ Declaration.Takes [⟨"inp", .input, .single x⟩]
      [("inp", .single n)] := .cons ⟨rfl, .single n⟩ .nil
  have hin {n : ℕ} (hn : n < f.p) {v : Signal → ZMod f.p}
      (hv : Given v [⟨"inp", .input, .single x⟩] [("inp", .single n)]) : (v x).val = n := by
    have hvx : v x = n := by simpa [Given, elements, Supply.numbers] using hv
    rw [hvx, ZMod.val_natCast_of_lt hn]
  refine ⟨fun n hn => h.allows (htakes n) (fun d hd => h.mem_of_output hd) fun v hv hp => ?_,
    fun n hn => h.evaluates (htakes n) (fun d hd => h.mem_of_output hd)
      (by simpa using (by decide : PlainName "inp")) (by simpa [Supply.numbers] using hn) hmade
      (fun _ _ _ _ _ => trivial) fun v hv hc hgiven _ => ⟨_, rfl, ?_⟩⟩
  · obtain ⟨hout, hsuccess⟩ := hp
    rw [hin hn hv] at hout hsuccess
    rcases hsuccess with hzero | ⟨hone, hlt⟩
    · exact ⟨_, ⟨0, Or.inl rfl, rfl⟩, tells_decoder (by simpa [hzero] using hout) (by simpa)⟩
    · exact ⟨_, ⟨1, Or.inr ⟨rfl, hlt⟩, rfl⟩, tells_decoder (by simpa [hone] using hout) (by simpa)⟩
  · obtain ⟨hout, hsuccess⟩ := hadvice v hv hc
    rw [hin hn hgiven] at hout hsuccess
    exact tells_decoder (by simpa using hout) (by simpa [flag] using hsuccess)

end Circuit

/-- **Decoders mark at most the position of their input.**  A decoder of `w ≤ p` positions
    compiles, and its circuit locates its input. -/
theorem decoder_marks {σ : Type} {p : ℕ} (hp : p.Prime) {settings : Settings}
    (hs : settings.prime = .int p) {w : ℕ} (hw : w ≤ p) (host : σ) (public_ : List String) :
    (public_.Nodup → public_ ⊆ ["inp"] →
      ∃ c, (compile settings (decoderTemplate (.int w)) host public_).result = .ok c) ∧
    ∀ c, (compile settings (decoderTemplate (.int w)) host public_).result = .ok c →
      c.Locates p w := by
  let f : PrimeField := ⟨p, hp.two_le⟩
  have hf : settings.field = .ok f := Settings.field_of_prime hp hs
  refine compile_realizes (f := f) hf (fun W _ _ id => ?_) ?_ host public_
  · exact (keeps_decoder (.int w) id).mono fun _ _ h => ⟨trivial, h.2⟩
  · refine (succeeds_decoder (f := f) hp rfl (Scene.blank_main f .warn) hw).mono ?_
    rintro _ sts sc' - - ⟨x, outs, mark, success, -, hprov, hadvice, -⟩
    exact ⟨_, _, _, _, hprov, rfl, fun c hc hmade => hc.locates hmade hadvice⟩

/-- Below 97, a decoder of three positions marks the last of them. -/
theorem decoder_marks_three :
    Nat.Prime 97 ∧ 3 ≤ 97 ∧
    ∃ c, (compile { prime := .int 97 } (decoderTemplate (.int 3)) () []).result = .ok c ∧
      c.Evaluates [("inp", .single 2)] (some [("out", [0, 0, 1]), ("success", [1])]) ∧
      c.Evaluates [("inp", .single 3)] (some [("out", [0, 0, 0]), ("success", [0])]) := by
  have hp : Nat.Prime 97 := by norm_num
  have hs : ({ prime := .int 97 } : Settings).prime = .int (97 : ℕ) := rfl
  obtain ⟨hok, hall⟩ := decoder_marks hp hs (w := 3) (by decide) () []
  obtain ⟨c, hc⟩ := hok (by simp) (by simp)
  have hlocates := (hall c hc).evaluates
  exact ⟨hp, by decide, c, hc, hlocates 2 (by decide), hlocates 3 (by decide)⟩

/-- **The position of the input may be left out**: a vector with the input 1 and all outputs
    zero satisfies the rows of a decoder of three positions. -/
theorem decoder_unmarked :
    ∃ c, (compile { prime := .int 97 } (decoderTemplate (.int 3)) () []).result = .ok c ∧
      c.Fits #[1, 0, 0, 0, 0, 1] ∧ c.system.unsatisfiedRows #[1, 0, 0, 0, 0, 1] = .ok [] ∧
      c.Carries #[1, 0, 0, 0, 0, 1] "inp" [1] ∧ c.Carries #[1, 0, 0, 0, 0, 1] "out" [0, 0, 0] ∧
      c.Carries #[1, 0, 0, 0, 0, 1] "success" [0] :=
  exists_ok (by decide +kernel)

end RankOne
