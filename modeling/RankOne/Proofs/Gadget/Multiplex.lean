/-
  RankOne — multiplexers succeed, and choose a row.

  A multiplexer multiplies each column of its matrix with the outputs of a decoder.  The
  decoder alone may leave all its outputs zero, but the multiplexer wants its `success`: then
  the position of the input is set, and the products are the entries of one row.

  * `inner`, `inner_oneHot`: inner products, and those with one position set;
  * `succeeds_escalarProduct`: the component of an inner product;
  * `succeeds_feedPairs`, `succeeds_columnsFrom`: the columns, one by one;
  * `succeeds_routing`, `succeeds_multiplexer`: the component, after its declarations and whole;
  * `Circuit.Multiplexes`, `multiplexer_exact`: the circuit.
-/
import RankOne.Proofs.Gadget.Decode

namespace RankOne

namespace Gadget

open Build

variable {σ : Type} {f : PrimeField} {sc : Scene} {I : Set ℤ}

/-! ## Inner products -/

/-- The inner product of two rows of signals. -/
def inner {p : ℕ} (v : Signal → ZMod p) (xs ys : List Signal) : ZMod p :=
  (List.zipWith (fun x y => v x * v y) xs ys).sum

/-- An inner product with one position set is the value there. -/
theorem inner_oneHot {p : ℕ} {v : Signal → ZMod p} {xs ys : List Signal} {i : ℕ} {x : Signal}
    (hys : ys.map v = oneHot xs.length i 1) (hx : xs[i]? = some x) : inner v xs ys = v x := by
  have hproducts : List.zipWith (fun x y => v x * v y) xs ys = oneHot xs.length i (v x) := by
    refine List.ext_getElem? fun k => ?_
    rcases lt_or_ge k xs.length with hk | hk
    · have hy := congrArg (·[k]?) hys
      simp only [List.getElem?_map, getElem?_oneHot _ hk] at hy
      obtain ⟨y, hyk, hvy⟩ := Option.map_eq_some_iff.1 hy
      rw [List.getElem?_zipWith, hyk, List.getElem?_eq_getElem hk, getElem?_oneHot _ hk]
      dsimp only
      rw [hvy]
      split_ifs with hki
      · subst hki
        rw [List.getElem?_eq_getElem hk, Option.some_inj] at hx
        rw [hx, mul_one]
      · rw [mul_zero]
    · rw [List.getElem?_eq_none (by simp [hk]), List.getElem?_eq_none (by simpa using hk)]
  rw [inner, hproducts, sum_oneHot, if_pos (List.getElem?_eq_some_iff.1 hx).1]

/-- The sum of the products of two rows is their inner product. -/
theorem sum_products {p : ℕ} {v : Signal → ZMod p} {aux xs ys : List Signal}
    (hlen : xs.length = aux.length) (hlen' : ys.length = aux.length)
    (h : ∀ q ∈ aux.zip (xs.zip ys), v q.1 = v q.2.1 * v q.2.2) :
    ((aux.zip (xs.zip ys)).map fun q => v q.1).sum = inner v xs ys := by
  rw [List.map_congr_left h, inner]
  congr 1
  calc (aux.zip (xs.zip ys)).map (fun q => v q.2.1 * v q.2.2)
      = ((aux.zip (xs.zip ys)).map (·.2)).map fun r => v r.1 * v r.2 := by rw [List.map_map]; rfl
    _ = (xs.zip ys).map fun r => v r.1 * v r.2 := by
        rw [List.map_snd_zip (by simp [hlen, hlen'])]
    _ = List.zipWith (fun x y => v x * v y) xs ys := by
        rw [List.map_zip_eq_zipWith]
        rfl

theorem succeeds_productsFrom : ∀ {qs : List (Signal × Signal × Signal)} {acc : Expr}
      {V : Set Signal} {d : (Signal → ZMod f.p) → ZMod f.p} {sc : Scene}, sc.field = f →
    (∀ q ∈ qs, sc.Open q.1 ∧ q.2.1 ∈ sc.within I ∧ q.2.2 ∈ sc.within I) →
    ((qs.map (·.1)).map (·.uid)).Nodup → acc.Line f V d →
    (productsFrom acc qs : Build σ Expr).Succeeds sc fun e sts sc' =>
      e.Line f (V ∪ {s | s ∈ qs.map (·.1)}) (fun v => d v + (qs.map fun q => v q.1).sum) ∧
        sc' = sc.assignAll (qs.map (·.1)) ∧
        sc.Step f sts sc' I (Signal.numbers (qs.map (·.1))) ∅ ∅ (fun _ => True)
          fun v => ∀ q ∈ qs, v q.1 = v q.2.1 * v q.2.2
  | [], acc, V, d, sc, _, _, _, hacc => by
    refine (yields_pure acc).succeeds fun _ _ => ⟨?_, sc.assignAll_nil.symm, .none (by simp)⟩
    exact (hacc.mono Set.subset_union_left).congr fun v => by simp
  | (aux, x, y) :: qs, acc, V, d, sc, hf, hqs, hnd, hacc => by
    obtain ⟨⟨haux, hx, hy⟩, hqs⟩ := List.forall_mem_cons.1 hqs
    obtain ⟨hnew, hnd⟩ := List.nodup_cons.1 hnd
    refine .fit fun hfit => ?_
    obtain ⟨product, hproduct, hform, -⟩ := (hfit.line hf hx).mul (hfit.line hf hy)
    refine (yields_times hproduct).skip fun _ _ => ?_
    refine (yields_assign hf haux (hform.mono fun s hs => hs.1)).emit fun _ _ => ?_
    refine (succeeds_productsFrom (show (sc.assign aux).field = f from hf) ?_ hnd
      ((hacc.mono (U := V ∪ {aux}) Set.subset_union_left).add
        ((Expr.Line.ofSignal (T := {aux}) rfl ((hfit.field aux haux.mem).trans hf)).mono
          Set.subset_union_right))).mono ?_
    · intro q hq
      obtain ⟨ho, hq₁, hq₂⟩ := hqs q hq
      refine ⟨ho.assign fun heq => hnew ?_, hq₁, hq₂⟩
      exact List.mem_map.2 ⟨q.1, List.mem_map_of_mem hq, heq⟩
    rintro e sts _ - - ⟨he, rfl, hrest⟩
    refine ⟨?_, (sc.assignAll_cons _ _).symm, ?_⟩
    · refine (he.mono ?_).congr fun v => by rw [List.map_cons, List.sum_cons, add_assoc]
      rintro s ((hs | rfl) | hs)
      · exact Or.inl hs
      · exact Or.inr List.mem_cons_self
      · exact Or.inr (List.mem_cons_of_mem _ hs)
    · exact (hrest.before hform (fun s hs => hs.2) Set.subset_union_left sc.path).imp (fun _ h => h)
        fun v hv => List.forall_mem_cons.2 hv

/-- The inputs of an inner product. -/
def factors (xs : List Signal) (mark : Mark) (ys : List Signal) (mark' : Mark) :
    List Declaration :=
  [⟨"in1", .input, .row xs mark⟩, ⟨"in2", .input, .row ys mark'⟩]

/-- **The component of an inner product.** -/
theorem succeeds_escalarProduct (hf : sc.field = f) (hblank : sc.Blank) (n : ℕ) :
    (escalarProduct (.int n) : Build σ Unit).Succeeds sc fun _ sts sc' => ∃ xs mark ys mark' out,
      xs.length = n ∧ ys.length = n ∧
      sc.Provides f (factors xs mark ys mark') [⟨"out", .output, .single out⟩] (fun _ => True)
        (fun v => v out = inner v xs ys) sts sc' ∧ sc'.children = ∅ := by
  refine succeeds_row n (by simp [hblank.names]) fun xs hlen₁ hin₁ _ => ?_
  set sc₁ := sc.declare ⟨"in1", .input, .row xs sc.mark⟩ with hsc₁
  refine succeeds_row n (by simp [hsc₁, hblank.names]) fun ys hlen₂ hin₂ hfit₂ => ?_
  set sc₂ := sc₁.declare ⟨"in2", .input, .row ys sc₁.mark⟩ with hsc₂
  refine (yields_signal (by simp [hsc₁, hsc₂, hblank.names])).skip fun _ hfit₃ => ?_
  set out := sc₂.single .output "out"
  set sc₃ := sc₂.declare ⟨"out", .output, .single out⟩ with hsc₃
  refine succeeds_row n (by simp [hsc₁, hsc₂, hsc₃, hblank.names]) fun aux hlen haux _ => ?_
  set sc₄ := sc₃.declare ⟨"aux", .intermediate, .row aux sc₃.mark⟩ with hsc₄
  have hf₄ : sc₄.field = f := by simpa [hsc₁, hsc₂, hsc₃, hsc₄] using hf
  have hinterface : sc.Interface (factors xs sc.mark ys sc₁.mark) [⟨"out", .output, .single out⟩] :=
    (((Scene.Interface.nil sc).input hin₁ "in1").input hin₂ "in2").output
      (sc₂.new_single .output "out") "out"
  have hmade : ∀ s ∈ xs ++ ys, s ∈ sc₄.within (Signal.numbers (xs ++ ys)) := fun s hs =>
    ⟨by simp [hsc₁, hsc₂, hsc₃, hsc₄, ← or_assoc, List.mem_append.1 hs], Signal.mem_numbers hs⟩
  have hopen : ∀ s ∈ aux, sc₄.Open s := haux.isOpen_row hfit₃ (Or.inr rfl)
  have hout : sc₄.Open out :=
    ((sc₂.new_single .output "out").isOpen_single hfit₂ (Or.inl rfl)).declare _
  have hnumbers := haux.consecutive.numbers
  rw [hlen] at hnumbers
  have hzip : (aux.zip (xs.zip ys)).map (·.1) = aux :=
    List.map_fst_zip (by simp [hlen, hlen₁, hlen₂])
  refine (yields_const 0).skip fun _ _ => ?_
  rw [hf₄]
  refine (succeeds_productsFrom (I := Signal.numbers (xs ++ ys)) hf₄ ?_ ?_
    (.ofInt (T := ∅) 0)).bind ?_
  · rintro ⟨a, x, y⟩ hq
    obtain ⟨ha, hxy⟩ := List.of_mem_zip hq
    obtain ⟨hx, hy⟩ := List.of_mem_zip hxy
    exact ⟨hopen a ha, hmade x (by simp [hx]), hmade y (by simp [hy])⟩
  · rw [hzip]
    exact haux.consecutive.nodup
  rintro total sts _ hgrows₅ - ⟨htotal, rfl, hstep⟩
  rw [hzip] at htotal hstep hgrows₅ ⊢
  have hsum := (htotal.mono (U := {s | s ∈ aux}) (by simp)).congr fun v =>
    show _ = ((aux.zip (xs.zip ys)).map fun q => v q.1).sum by simp
  have hlast := (sc₄.assignAll aux).step_assign hsum.toForm
    (fun s hs => Signal.mem_numbers hs) sc₄.path out
  refine (yields_assign (show (sc₄.assignAll aux).field = f from hf₄)
    (hout.later hgrows₅ hstep.toEffect ?_)
    (hsum.toForm.mono fun s hs => (hopen s hs).mem)).succeeds fun hgrows₆ _ => ?_
  · rw [hnumbers]
    simp [out, hsc₃]
  have hsteps := hstep.trans hlast Set.subset_union_right fun _ _ _ => trivial
  refine ⟨xs, sc.mark, ys, sc₁.mark, out, hlen₁, hlen₂, hinterface.provides hblank
    (((sc₃.grows_declare _).trans hgrows₅).trans hgrows₆)
    ((hsteps.declared rfl).imp (fun _ h => h) ?_) (by simp [factors]) ?_ (by simp), ?_⟩
  · rintro v ⟨hproducts, hvout⟩
    rw [hvout, sum_products (hlen₁.trans hlen.symm) (hlen₂.trans hlen.symm) hproducts]
  · rw [hnumbers]
    ext u
    simp [factors, hsc₁, hsc₂, hsc₃, hsc₄, out, hlen, hlen₁, hlen₂]
    omega
  · simp [hsc₁, hsc₂, hsc₃, hsc₄, hblank.children]

/-- An inner product in a place of an array. -/
theorem succeeds_filledProduct (hf : sc.field = f) {a : SlotArray} {w j : ℕ}
    (h : sc.Vacant a w j) (hj : j < w) (n : ℕ) :
    (fill a j ⟨.of "EscalarProduct" [.int n], escalarProduct (.int n)⟩ :
      Build σ Component).Succeeds sc fun c sts sc₁ => ∃ xs mark ys mark' out,
        xs.length = n ∧ ys.length = n ∧ sc.Placed f (factors xs mark ys mark')
          [⟨"out", .output, .single out⟩] (fun _ => True) (fun v => v out = inner v xs ys)
          {(a.id, [j])} ∅ c sts sc₁ := by
  refine succeeds_filled (f := f) h hj fun id name => ?_
  refine (succeeds_escalarProduct (by simpa using hf) (sc.blank_enter id name) n).mono ?_
  rintro _ sts sc' - - ⟨xs, mark, ys, mark', out, hxs, hys, hprov, hchildren⟩
  exact ⟨_, _, _, _, hprov, Or.inr hchildren,
    fun c sc₁ h => ⟨xs, mark, ys, mark', out, hxs, hys, h⟩⟩

/-! ## Columns -/

/-- Two rows of inputs are fed entry by entry. -/
theorem succeeds_feedPairs {as bs : List (Signal × Signal)} (hf : sc.field = f)
    (hlen : as.length = bs.length) (hopen : ∀ q ∈ as ++ bs, sc.Open q.1 ∧ q.2 ∈ sc.within I)
    (hnd : ((as ++ bs).map (·.1.uid)).Nodup) :
    (feed as bs : Build σ Unit).Succeeds sc fun _ sts sc' =>
      sc'.signals = sc.signals ∧ sc'.field = f ∧ sc.Step f sts sc' I
        (Signal.numbers ((as ++ bs).map (·.1))) ∅ ∅ (fun _ => True)
        fun v => ∀ q ∈ as ++ bs, v q.1 = v q.2 := by
  induction as generalizing bs sc with
  | nil =>
    obtain rfl := List.length_eq_zero_iff.1 hlen.symm
    exact (yields_pure ()).succeeds fun _ _ => ⟨rfl, hf, .none (by simp)⟩
  | cons q as ih =>
    obtain ⟨a, x⟩ := q
    obtain ⟨⟨b, d⟩, bs, rfl⟩ := List.exists_cons_of_length_eq_add_one hlen.symm
    simp only [List.cons_append, List.forall_mem_cons, List.forall_mem_append] at hopen
    obtain ⟨⟨ha, hx⟩, has, ⟨hb, hd⟩, hbs⟩ := hopen
    have hperm : ((a, x) :: as ++ (b, d) :: bs).Perm ((a, x) :: (b, d) :: (as ++ bs)) :=
      List.perm_middle.cons _
    rw [(hperm.map _).nodup_iff, List.map_cons, List.nodup_cons, List.map_cons,
      List.nodup_cons] at hnd
    obtain ⟨hnewA, hnewB, hnd⟩ := hnd
    rw [List.mem_cons, not_or] at hnewA
    refine .fit fun hfit => ?_
    have hline {s : Signal} (hs : s ∈ sc.within I) := hfit.line hf hs
    have hb₁ : (sc.assign a).Open b := hb.assign (Ne.symm hnewA.1)
    have hfirst := (sc.step_assign (hline hx).toForm (fun s hs => hs.2) sc.path a).trans
      ((sc.assign a).step_assign (hline hd).toForm (fun s hs => hs.2) sc.path b)
      Set.subset_union_left fun _ _ _ => trivial
    refine (yields_assign hf ha ((hline hx).toForm.mono fun s hs => hs.1)).emit fun _ _ => ?_
    refine (yields_assign (show (sc.assign a).field = f from hf) hb₁
      ((hline hd).toForm.mono fun s hs => hs.1)).emit fun _ _ => ?_
    refine (ih (show ((sc.assign a).assign b).field = f from hf)
      (by simpa using hlen) (fun q hq => ?_) hnd).mono ?_
    · have hq' : sc.Open q.1 ∧ q.2 ∈ sc.within I := (List.mem_append.1 hq).elim (has q) (hbs q)
      refine ⟨(hq'.1.assign fun heq => hnewA.2 ?_).assign fun heq => hnewB ?_, hq'.2⟩
      · exact List.mem_map.2 ⟨q, hq, heq⟩
      · exact List.mem_map.2 ⟨q, hq, heq⟩
    rintro _ sts sc' - - ⟨hsig, hfield, hrest⟩
    refine ⟨hsig, hfield, ?_⟩
    refine (hfirst.trans hrest Set.subset_union_left fun _ _ _ => trivial).mono subset_rfl ?_
      (by simp) (by simp) (fun _ h => h) ?_
    · rw [Signal.numbers_perm (hperm.map _), List.map_cons, List.map_cons, Signal.numbers_cons,
        Signal.numbers_cons, Set.union_assoc]
    · rintro v ⟨⟨hva, hvb⟩, hrest⟩ q hq
      rcases List.mem_cons.1 (hperm.mem_iff.1 hq) with rfl | hq
      · exact hva
      · rcases List.mem_cons.1 hq with rfl | hq
        · exact hvb
        · exact hrest q hq

section
variable {p : ℕ} {v : Signal → ZMod p} {xs ys : List Signal}

theorem inner_congr {xs' ys' : List Signal} (hx : xs.map v = xs'.map v)
    (hy : ys.map v = ys'.map v) : inner v xs ys = inner v xs' ys' := by
  have hmap (as bs : List Signal) :
      inner v as bs = (List.zipWith (· * ·) (as.map v) (bs.map v)).sum := by
    rw [inner, List.zipWith_map]
  rw [hmap, hmap, hx, hy]

/-- Rows with equal entries have equal values. -/
theorem map_eq_of_zip (hlen : xs.length = ys.length) (h : ∀ q ∈ xs.zip ys, v q.1 = v q.2) :
    xs.map v = ys.map v := by
  rw [← List.forall₂_eq_eq_eq, List.forall₂_map_left_iff, List.forall₂_map_right_iff]
  exact List.forall₂_iff_zip.2 ⟨hlen, fun {x y} hq => h (x, y) hq⟩

end

/-- A column of a matrix. -/
def column (rows : List (List Signal)) (j : ℕ) : List Signal := rows.filterMap (·[j]?)

/-- One column of a multiplexer. -/
def columnAt (ep : SlotArray) (n : Value) (rows : List (List Signal)) (chosen : List Signal)
    (j : ℕ) (out : Signal) : Build σ Unit := do
  let c ← fill ep j ⟨.of "EscalarProduct" [n], escalarProduct n⟩
  feed ((← terminalSignals c "in1").zip (column rows j)) ((← terminalSignals c "in2").zip chosen)
  assign out (.ofSignal (← terminalSignal c "out"))

theorem columnsFrom_cons (ep : SlotArray) (n : Value) (rows : List (List Signal))
    (chosen : List Signal) (j : ℕ) (out : Signal) (outs : List Signal) :
    (columnsFrom ep n rows chosen j (out :: outs) : Build σ Unit) =
      columnAt ep n rows chosen j out >>= fun _ => columnsFrom ep n rows chosen (j + 1) outs := by
  simp only [columnsFrom, columnAt, column, bind_assoc]

/-- A column and its product are one step. -/
theorem succeeds_columnAt (hf : sc.field = f) {ep : SlotArray} {w n j : ℕ}
    (h : sc.Vacant ep w j) (hj : j < w) {rows : List (List Signal)} {chosen : List Signal}
    {out : Signal} (hcolumn : (column rows j).length = n) (hchosen : chosen.length = n)
    (hmem : ∀ s ∈ column rows j ++ chosen, s ∈ sc.within I) (hout : sc.Open out) :
    (columnAt ep (.int n) rows chosen j out : Build σ Unit).Succeeds sc fun _ sts sc' =>
      sc.Step f sts sc' I ({out.uid} ∪ Set.Ico (sc.signals.length : ℤ) sc'.signals.length)
        {(ep.id, [j])} ∅ (fun _ => True) fun v => v out = inner v (column rows j) chosen := by
  refine .fit fun hfit => (succeeds_filledProduct hf h hj n).bind ?_
  rintro c xs sc₁ hgrows₁ hfit₁ ⟨as, mark, bs, mark', o, has, hbs, hplaced⟩
  have hf₁ : sc₁.field = f := hgrows₁.field.trans hf
  refine (yields_terminalSignals (hplaced.terminal "in1")).skip fun _ _ => ?_
  refine (yields_terminalSignals (hplaced.terminal "in2")).skip fun _ _ => ?_
  rw [Bus.flat_row, Bus.flat_row]
  have hfst : (as.zip (column rows j) ++ bs.zip chosen).map (·.1) = as ++ bs := by
    rw [List.map_append, List.map_fst_zip (has.trans hcolumn.symm).le,
      List.map_fst_zip (hbs.trans hchosen.symm).le]
  have hflat : Declaration.flat (factors as mark bs mark') = as ++ bs := by simp [factors]
  have hnodup := hplaced.nodup
  rw [hflat, ← hfst, List.map_map] at hnodup
  refine (succeeds_feedPairs (I := I) hf₁ (by simp [has, hbs, hcolumn, hchosen]) (fun q hq => ?_)
    hnodup).bind ?_
  · refine ⟨hplaced.isOpen q.1 ?_, Scene.within_subset hgrows₁ subset_rfl (hmem q.2 ?_)⟩
    · rw [hflat, ← hfst]
      exact List.mem_map_of_mem hq
    · rcases List.mem_append.1 hq with hq | hq
      · exact List.mem_append_left _ (List.of_mem_zip hq).2
      · exact List.mem_append_right _ (List.of_mem_zip hq).2
  rintro _ ys sc₂ hgrows₂ hfit₂ ⟨hsig, hf₂, hstep⟩
  rw [hfst, ← hflat] at hstep
  have hfed := hplaced.fed hstep hsig fun _ _ _ => trivial
  have ho : o ∈ sc₁.signals ∧ (sc.signals.length : ℤ) ≤ o.uid := hplaced.given o (by simp)
  have ho₂ := hgrows₂.mem ho.1
  have hline := hfit₂.line hf₂ (I := Set.Ico (sc.signals.length : ℤ) sc₂.signals.length)
    ⟨ho₂, ho.2, hfit₂.numbered o ho₂⟩
  have hlast := sc₂.step_assign hline.toForm (fun s hs => hs.2) sc₂.path out
  refine (yields_terminalSignal (hplaced.terminal "out")).skip fun _ _ => ?_
  refine (yields_assign hf₂ (hout.below hfit (hgrows₁.trans hgrows₂) hfed.toEffect)
    (hline.toForm.mono fun s hs => hs.1)).succeeds fun _ _ => ?_
  have hsteps := hfed.trans hlast Set.subset_union_right fun _ _ _ => trivial
  rw [List.append_assoc] at hsteps
  refine hsteps.mono subset_rfl (Set.union_comm _ _) (by simp) (by simp) (fun _ h => h) ?_
  rintro v ⟨⟨hgiven, hvo⟩, hvout⟩
  rw [List.forall_mem_append] at hgiven
  rw [hvout, hvo]
  exact inner_congr (map_eq_of_zip (has.trans hcolumn.symm) hgiven.1)
    (map_eq_of_zip (hbs.trans hchosen.symm) hgiven.2)

/-- **The columns of a multiplexer, one by one.** -/
theorem succeeds_columnsFrom {ep : SlotArray} {w n : ℕ} {rows : List (List Signal)}
    {chosen : List Signal} (hrows : rows.length = n) (hwidth : ∀ row ∈ rows, row.length = w)
    (hchosen : chosen.length = n) : ∀ {outs : List Signal} {j : ℕ} {sc : Scene}, sc.field = f →
    sc.Vacant ep w j → j + outs.length ≤ w → (∀ row ∈ rows, ∀ s ∈ row, s ∈ sc.within I) →
    (∀ s ∈ chosen, s ∈ sc.within I) → (∀ o ∈ outs, sc.Open o) → (outs.map (·.uid)).Nodup →
    (columnsFrom ep (.int n) rows chosen j outs : Build σ Unit).Succeeds sc fun _ sts sc' =>
      sc.Step f sts sc' I
        (Signal.numbers outs ∪ Set.Ico (sc.signals.length : ℤ) sc'.signals.length)
        {k | k.1 = ep.id} ∅ (fun _ => True)
        fun v => ∀ q ∈ outs.zipIdx j, v q.1 = inner v (column rows q.2) chosen
  | [], j, sc, _, _, _, _, _, _, _ => by
    refine (yields_pure ()).succeeds fun _ _ => ?_
    exact (Scene.Step.none (by simp)).mono subset_rfl (by simp) (Set.empty_subset _) subset_rfl
      (fun _ h => h) fun _ h => h
  | out :: outs, j, sc, hf, hvacant, hle, hin, hmem, hopen, hnd => by
    obtain ⟨hnew, hnd⟩ := List.nodup_cons.1 hnd
    obtain ⟨hout, hopen⟩ := List.forall_mem_cons.1 hopen
    rw [List.length_cons] at hle
    have hcolumn : (column rows j).length = n :=
      (length_column fun row hrow => by rw [hwidth row hrow]; omega).trans hrows
    have hentries : ∀ s ∈ column rows j ++ chosen, s ∈ sc.within I := by
      rw [List.forall_mem_append]
      refine ⟨fun s hs => ?_, hmem⟩
      obtain ⟨row, hrow, hs⟩ := List.mem_filterMap.1 hs
      exact hin row hrow s (List.mem_of_getElem? hs)
    rw [columnsFrom_cons]
    refine .fit fun hfit => (succeeds_columnAt hf hvacant (by omega) hcolumn hchosen hentries
      hout).bind ?_
    rintro _ xs sc₁ hgrows hfit₁ hfirst
    have hsub : sc.within I ⊆ sc₁.within I := Scene.within_subset hgrows subset_rfl
    refine (succeeds_columnsFrom hrows hwidth hchosen (hgrows.field.trans hf)
      (hvacant.later hgrows hfirst.toEffect (Nat.le_succ j) fun i hi hmem => ?_) (by omega)
      (fun row hrow s hs => hsub (hin row hrow s hs)) (fun s hs => hsub (hmem s hs))
      (fun o ho => (hopen o ho).later hgrows hfirst.toEffect ?_) hnd).mono ?_
    · have : i = j := by simpa using hmem
      omega
    · rintro (hmem | hmem)
      · exact hnew (List.mem_map.2 ⟨o, ho, hmem⟩)
      · have := hfit.numbered o (hopen o ho).mem
        have := hmem.1
        omega
    rintro _ sts sc' hgrows' - hrest
    have hrange := Set.Ico_union_Ico_eq_Ico (Int.ofNat_le.2 hgrows.length_le)
      (Int.ofNat_le.2 hgrows'.length_le)
    refine (hfirst.trans hrest Set.subset_union_left fun _ _ _ => trivial).mono subset_rfl ?_ ?_
      (by simp) (fun _ h => h) fun v hv => ?_
    · rw [Signal.numbers_cons, ← hrange]
      ext u
      simp only [Set.mem_union]
      tauto
    · rintro k (rfl | hk)
      · rfl
      · exact hk
    · rw [List.zipIdx_cons]
      exact List.forall_mem_cons.2 hv

/-! ## Multiplexers -/

/-- The inputs of a multiplexer. -/
def multiplexerInputs (bus : Bus) (sel : Signal) : List Declaration :=
  [⟨"inp", .input, bus⟩, ⟨"sel", .input, .single sel⟩]

/-- The entries of a column. -/
theorem getElem?_column {rows : List (List Signal)} {j : ℕ} (h : ∀ row ∈ rows, j < row.length)
    (i : ℕ) : (column rows j)[i]? = rows[i]?.bind (·[j]?) := by
  induction rows generalizing i with
  | nil => rfl
  | cons row rows ih =>
    obtain ⟨hrow, hrows⟩ := List.forall_mem_cons.1 h
    have hcons : column (row :: rows) j = row[j] :: column rows j := by
      simp [column, List.getElem?_eq_getElem hrow]
    rw [hcons]
    cases i with
    | zero => simp [List.getElem?_eq_getElem hrow]
    | succ i => simpa using ih hrows i

/-- Columns by one position are a row. -/
theorem map_eq_row {p n w i : ℕ} {v : Signal → ZMod p} {rows : List (List Signal)}
    {chosen outs row : List Signal} (hrows : rows.length = n)
    (hwidth : ∀ row ∈ rows, row.length = w) (houts : outs.length = w)
    (hchosen : chosen.map v = oneHot n i 1) (hrow : rows[i]? = some row)
    (h : ∀ q ∈ outs.zipIdx, v q.1 = inner v (column rows q.2) chosen) :
    outs.map v = row.map v := by
  have hlen : row.length = w := hwidth row (List.mem_of_getElem? hrow)
  refine List.ext_getElem? fun j => ?_
  rcases lt_or_ge j w with hj | hj
  · have hwide : ∀ row ∈ rows, j < row.length := fun row hmem => by rwa [hwidth row hmem]
    have ho := List.getElem?_eq_getElem (hj.trans_eq houts.symm)
    have hy := List.getElem?_eq_getElem (hj.trans_eq hlen.symm)
    have hentry : (column rows j)[i]? = some row[j] := by
      rw [getElem?_column hwide, hrow, Option.bind_some, hy]
    rw [List.getElem?_map, List.getElem?_map, ho, hy, Option.map_some, Option.map_some,
      h (_, j) (List.mem_zipIdx_iff_getElem?.2 ho)]
    refine congrArg some (inner_oneHot ?_ hentry)
    rw [hchosen, column, length_column hwide, hrows]
  · rw [List.getElem?_eq_none (by simpa [houts] using hj),
      List.getElem?_eq_none (by simpa [hlen] using hj)]

/-- What a multiplexer does once its inputs and outputs are declared. -/
def routing (w n : Value) (rows : List (List Signal)) (sel : Signal) (outs : List Signal) :
    Build σ Unit := do
  let dec ← component "dec" (decoderTemplate n)
  assign (← terminalSignal dec "inp") (.ofSignal sel)
  let ep ← slots "ep" w
  let chosen ← terminalSignals dec "out"
  columnsFrom ep n rows chosen 0 outs
  constrain (.ofSignal (← terminalSignal dec "success")) (← const 1)

/-- **A row is routed to the outputs**: the position of `sel` is decoded, and each output is
    the product of its column with the marks. -/
theorem succeeds_routing (hp : f.p.Prime) (hf : sc.field = f) {w n : ℕ} (hn : n ≤ f.p)
    {rows : List (List Signal)} {sel : Signal} {outs : List Signal} (hrows : rows.length = n)
    (hwidth : ∀ row ∈ rows, row.length = w) (houts : outs.length = w)
    (hfree : ∀ name ∈ ({"dec", "ep"} : Set String), name ∉ sc.names) (hw : w ≤ sc.signals.length)
    (hsel : sel ∈ sc.within I) (hentry : ∀ row ∈ rows, ∀ s ∈ row, s ∈ sc.within I)
    (hopen : ∀ o ∈ outs, sc.Open o) (hnd : (outs.map (·.uid)).Nodup) :
    (routing (.int w) (.int n) rows sel outs : Build σ Unit).Succeeds sc fun _ sts sc' =>
      sc.Step f sts sc' I
        (Signal.numbers outs ∪ Set.Ico (sc.signals.length : ℤ) sc'.signals.length)
        {k | sc.arrays ≤ k.1} {"dec", "ep"} (fun v => (v sel).val < n)
        fun v => ∃ row, rows[(v sel).val]? = some row ∧ outs.map v = row.map v := by
  -- the decoder and its input
  refine .fit fun hfit => (succeeds_placedDecoder hp hf (hfree "dec" (by simp)) hn).bind ?_
  rintro dec xs sc₁ hgrows₁ hfit₁ ⟨x, chosen, mark, success, hchosen, hplaced, hadvice⟩
  have hf₁ : sc₁.field = f := hgrows₁.field.trans hf
  have hline := hfit.line hf hsel
  have hfed := hplaced.fedSingle (hline.toForm.mono (Scene.within_subset hgrows₁ subset_rfl))
    sc₁.path fun v (_ : (v sel).val < n) _ => trivial
  refine (yields_terminalSignal (hplaced.terminal "inp")).skip fun _ _ => ?_
  refine (yields_assign hf₁ (hplaced.isOpen x (by simp))
    (hline.toForm.mono fun s hs => hgrows₁.mem hs.1)).emit fun hgrows₂ hfit₂ => ?_
  -- the columns
  have hgrows := hgrows₁.trans hgrows₂
  refine (yields_slots (n := w) (fun hmem => ?_) (hw.trans hgrows.length_le)).skip
    fun hgrows₃ hfit₃ => ?_
  · have hnames := hfed.names hmem
    simp [hfree] at hnames
  set sc₃ := (sc₁.assign x).array "ep"
  refine (yields_terminalSignals (hplaced.terminal "out")).skip fun _ _ => ?_
  rw [Bus.flat_row]
  have hinner : ∀ s ∈ chosen ++ [success], s ∈ sc₃.within
      (I ∪ Set.Ico (sc.signals.length : ℤ) sc₁.signals.length) := by
    intro s hs
    obtain ⟨hmem, hle⟩ := hplaced.given s (by simpa [decoderOutputs] using hs)
    exact ⟨hmem, Or.inr ⟨hle, hfit₁.numbered s hmem⟩⟩
  refine (succeeds_columnsFrom hrows hwidth hchosen (show sc₃.field = f from hf₁)
    (Scene.vacant_slots hfit₂ "ep" w) (by omega)
    (fun row hrow s hs => Scene.within_subset (hgrows.trans hgrows₃) Set.subset_union_left
      (hentry row hrow s hs))
    (fun s hs => hinner s (List.mem_append_left _ hs))
    (fun o ho => ((hopen o ho).below hfit hgrows hfed.toEffect).array "ep") hnd).bind ?_
  rintro _ ys sc₄ hgrows₄ hfit₄ hcolumns
  -- the advice sets `success` for every row
  have hf₄ : sc₄.field = f := hgrows₄.field.trans hf₁
  have hsuccess := hgrows₄.mem (hinner success (by simp)).1
  have hlineS : (Expr.ofSignal success).Line f {s | s ∈ sc₄.signals} fun v => v success :=
    .ofSignal hsuccess ((hfit₄.field success hsuccess).trans hf₄)
  have hone : (Expr.ofInt f 1).Line f {s | s ∈ sc₄.signals} _ := .ofInt 1
  refine (yields_terminalSignal (hplaced.terminal "success")).skip fun _ _ => ?_
  refine (yields_const 1).skip fun _ _ => ?_
  rw [hf₄]
  refine (yields_constrain hf₄ hlineS.toForm hone (by simp)).succeeds fun _ _ => ?_
  have hsteps := (hfed.trans hcolumns.arrayed subset_rfl fun _ _ _ => trivial).chain
    (sc₄.step_constrain (I := ∅) hlineS.toForm hone.toForm sc₄.path) (Set.empty_subset _)
    fun v hv hc hlt hpost => by
      have hadvised := hadvice v hv fun st hst =>
        hc st (List.mem_append_left _ (List.mem_append_left _ hst))
      rw [hadvised.success, hpost.1.1, flag, if_pos hlt, Int.cast_one]
  simp only [List.append_assoc, List.cons_append, List.nil_append] at hsteps
  refine hsteps.mono subset_rfl ?_ ?_ ?_ (fun _ h => h) ?_
  · have hrange := Set.Ico_union_Ico_eq_Ico (Int.ofNat_le.2 hgrows.length_le)
      (Int.ofNat_le.2 hgrows₄.length_le)
    rw [← hrange, Set.union_empty]
    exact Set.union_left_comm _ _ _
  · rintro k ((hk | hk) | hk)
    · exact hk.elim
    · exact hgrows₁.arrays.trans_eq hk.symm
    · exact hk.elim
  · simp [Set.pair_comm]
  · rintro v ⟨⟨⟨hvx, hout, hset⟩, hvouts⟩, hone⟩
    have := Fact.mk hp
    rw [Int.cast_one] at hone
    obtain ⟨-, hlt⟩ := hset.resolve_left (by rw [hone]; exact one_ne_zero)
    rw [hone] at hout
    rw [hvx] at hout hlt
    obtain ⟨row, hrow⟩ : ∃ row, rows[(v sel).val]? = some row :=
      ⟨_, List.getElem?_eq_getElem (hlt.trans_eq hrows.symm)⟩
    exact ⟨row, hrow, map_eq_row hrows hwidth houts hout hrow hvouts⟩

/-- **The component that chooses a row of a matrix.** -/
theorem succeeds_multiplexer (hp : f.p.Prime) (hf : sc.field = f) (hblank : sc.Blank) {w n : ℕ}
    (hn : n ≤ f.p) :
    (multiplexer (.int w) (.int n) : Build σ Unit).Succeeds sc fun _ sts sc' =>
      ∃ rows bus sel outs mark, bus.Grid rows n w ∧ outs.length = w ∧
        sc.Provides f (multiplexerInputs bus sel) [⟨"out", .output, .row outs mark⟩]
          (fun v => (v sel).val < n)
          (fun v => ∃ row, rows[(v sel).val]? = some row ∧ outs.map v = row.map v) sts sc' := by
  have hfree : "inp" ∉ sc.names := by simp [hblank.names]
  obtain ⟨rows, bus, hbus, hgrid, hmatrix⟩ := yields_matrix (σ := σ) .input n w hfree
  refine hmatrix.skip fun _ _ => ?_
  set sc₁ := sc.declare ⟨"inp", .input, bus⟩ with hsc₁
  refine (yields_signal (by simp [hsc₁, hblank.names])).skip fun _ hfit₂ => ?_
  set sel := sc₁.single .input "sel"
  set sc₂ := sc₁.declare ⟨"sel", .input, .single sel⟩ with hsc₂
  refine succeeds_row w (by simp [hsc₁, hsc₂, hblank.names]) fun outs hlen hrow _ => ?_
  set sc₃ := sc₂.declare ⟨"out", .output, .row outs sc₂.mark⟩ with hsc₃
  have hinterface : sc.Interface (multiplexerInputs bus sel)
      [⟨"out", .output, .row outs sc₂.mark⟩] :=
    (((Scene.Interface.nil sc).input hbus "inp").input (sc₁.new_single .input "sel")
      "sel").output hrow "out"
  have hin : ∀ s ∈ Declaration.flat (multiplexerInputs bus sel), s ∈ sc₃.within
      (Signal.numbers (Declaration.flat (multiplexerInputs bus sel))) := by
    intro s hs
    refine ⟨?_, Signal.mem_numbers hs⟩
    simp only [multiplexerInputs, Declaration.flat_cons, Declaration.flat_nil, Bus.flat_single,
      List.mem_append, List.mem_singleton, List.append_nil] at hs
    simp only [hsc₁, hsc₂, hsc₃, Scene.declare_signals, List.mem_append, Bus.flat_single,
      List.mem_singleton]
    tauto
  have hentry : ∀ row ∈ rows, ∀ s ∈ row, s ∈ sc₃.within
      (Signal.numbers (Declaration.flat (multiplexerInputs bus sel))) := by
    intro row hmem s hs
    refine hin s ?_
    simp only [multiplexerInputs, Declaration.flat_cons, hgrid.flat]
    exact List.mem_append_left _ (List.mem_flatten.2 ⟨row, hmem, hs⟩)
  have hf₃ : sc₃.field = f := by simpa [hsc₁, hsc₂, hsc₃] using hf
  refine (succeeds_routing hp hf₃ hn hgrid.length hgrid.width hlen
    (by simp [hsc₁, hsc₂, hsc₃, hblank.names]) (by simp [hsc₃, hlen])
    (hin sel (by simp [multiplexerInputs])) hentry (hrow.isOpen_row hfit₂ (Or.inl rfl))
    hrow.consecutive.nodup).mono ?_
  rintro _ sts sc' hgrows - hstep
  refine ⟨rows, bus, sel, outs, sc₂.mark, hgrid, hlen,
    hinterface.provides hblank hgrows hstep subset_rfl ?_ (by simp [hsc₁, hsc₂, hsc₃])⟩
  have hnumbers := hrow.consecutive.numbers
  rw [hlen] at hnumbers
  have hle := hgrows.length_le
  rw [hnumbers]
  ext u
  simp [multiplexerInputs, hsc₁, hsc₂, hsc₃, hlen] at hle ⊢
  omega

end Gadget

open Gadget

/-! ## Circuits -/

namespace Circuit

variable {c : Circuit} {f : PrimeField}

/-- **A circuit chooses a row of an `n` by `w` matrix below `p`**: the outcome is the row at
    `sel`, and there is none if `sel` is no row. -/
def Multiplexes (c : Circuit) (p n w : ℕ) : Prop :=
  ∀ (rows : List (List ℕ × Mark)) (mark : Mark) (sel : ℕ), rows.length = n →
    (∀ r ∈ rows, r.1.length = w) → (∀ r ∈ rows, ∀ x ∈ r.1, x < p) → sel < p →
    c.Settles [("inp", .matrix rows mark), ("sel", .single sel)]
      (rows[sel]?.map fun r => [("out", r.1)])

/-- The values of a matrix, row by row. -/
theorem map_rows {n w : ℕ} {v : Signal → ZMod f.p} {ss : List (List Signal)}
    {rows : List (List ℕ × Mark)} (hss : ss.length = n) (hwidth : ∀ row ∈ ss, row.length = w)
    (hrows : rows.length = n) (hwidth' : ∀ r ∈ rows, r.1.length = w)
    (h : ss.flatten.map v = elements f.p (rows.flatMap (·.1))) :
    ss.map (List.map v) = rows.map fun r => elements f.p r.1 := by
  refine List.eq_iff_flatten_eq.2 ⟨?_, ?_⟩
  · rw [← List.map_flatten, h, elements, List.map_flatMap, List.flatMap_def]
    rfl
  · trans List.replicate n w
    · rw [List.eq_replicate_iff]
      simpa [hss] using hwidth
    · rw [List.map_map, eq_comm, List.eq_replicate_iff, List.length_map, hrows]
      refine ⟨rfl, fun k hk => ?_⟩
      obtain ⟨r, hr, rfl⟩ := List.mem_map.1 hk
      simpa [elements] using hwidth' r hr

theorem Realizes.multiplexes {rows : List (List Signal)} {bus : Bus} {sel : Signal}
    {outs : List Signal} {mark : Mark} {n w : ℕ} (hgrid : bus.Grid rows n w)
    (h : c.Realizes f (multiplexerInputs bus sel) [⟨"out", .output, .row outs mark⟩]
      (fun v => (v sel).val < n)
      fun v => ∃ row, rows[(v sel).val]? = some row ∧ outs.map v = row.map v) :
    c.Multiplexes f.p n w := by
  intro xss mark' k hxss hwidth hxs hk
  have hin {v : Signal → ZMod f.p} (hv : Given v (multiplexerInputs bus sel)
      [("inp", .matrix xss mark'), ("sel", .single k)]) :
      rows.map (List.map v) = xss.map (fun r => elements f.p r.1) ∧ (v sel).val = k := by
    have hgiven : bus.flat.map v = elements f.p (xss.flatMap (·.1)) ∧ v sel = k := by
      simpa [Given, multiplexerInputs, elements, Supply.numbers] using hv
    rw [hgrid.flat] at hgiven
    refine ⟨map_rows hgrid.length hgrid.width hxss hwidth hgiven.1, ?_⟩
    rw [hgiven.2, ZMod.val_natCast_of_lt hk]
  have htakes : Declaration.Takes ⟨"inp", .input, bus⟩ ("inp", .matrix xss mark') := by
    refine ⟨rfl, ?_⟩
    change Supply.Shaped _ bus.shape
    rw [hgrid.shape, ← hxss]
    exact .matrix xss mark' w hwidth
  refine h.settles (.cons htakes (.cons ⟨rfl, .single k⟩ .nil))
    (fun d hd => h.mem_of_output hd) (by simp [multiplexerInputs]; decide) ?_
    (fun v hv hsome => ?_) fun v hv hp => ?_
  · simpa [Supply.numbers] using ⟨fun x r m hr hx => hxs (r, m) hr x hx, hk⟩
  · rw [(hin hv).2, ← hxss]
    simpa using hsome
  · obtain ⟨row, hrow, hout⟩ := hp
    obtain ⟨hmatrix, hval⟩ := hin hv
    rw [hval] at hrow
    have hget := congrArg (·[k]?) hmatrix
    simp only [List.getElem?_map, hrow, Option.map_some] at hget
    obtain ⟨r, hr, hvalues⟩ := Option.map_eq_some_iff.1 hget.symm
    refine ⟨[("out", r.1)], by simp [hr], .cons ⟨rfl, ?_⟩ .nil⟩
    rw [Bus.flat_row, hout, hvalues]

end Circuit

/-- The template of a multiplexer. -/
def multiplexerTemplate {σ : Type} (w n : Value) : Template σ :=
  ⟨.of "Multiplexer" [w, n], multiplexer w n⟩

/-- **Multiplexers are exact.**  A multiplexer of `n ≤ p` rows compiles, unless the outputs of
    its decoder are left unread for want of columns and this is an error.  Its circuit chooses
    the row that `sel` names. -/
theorem multiplexer_exact {σ : Type} {p : ℕ} (hp : p.Prime) {settings : Settings}
    (hs : settings.prime = .int p) (w : ℕ) {n : ℕ} (hn : n ≤ p) (host : σ)
    (public_ : List String) :
    (1 ≤ w ∨ settings.dangling = .warn → public_.Nodup → public_ ⊆ ["inp", "sel"] →
      ∃ c, (compile settings (multiplexerTemplate (.int w) (.int n)) host public_).result
        = .ok c) ∧
    ∀ c, (compile settings (multiplexerTemplate (.int w) (.int n)) host public_).result = .ok c →
      c.Multiplexes p n w := by
  let f : PrimeField := ⟨p, hp.two_le⟩
  have hf : settings.field = .ok f := Settings.field_of_prime hp hs
  have hbody (policy : DanglingPolicy) : (multiplexer (.int w) (.int n) : Build σ Unit).Succeeds
      (.main f policy) fun _ sts sc' => ∃ ins outs Pre Post,
        (Scene.main f policy).Provides f ins outs Pre Post sts sc' ∧
        ins.map (·.name) = ["inp", "sel"] ∧ ∀ c : Circuit, c.Realizes f ins outs Pre Post →
          c.Made f sc'.declarations sts → c.Multiplexes p n w := by
    refine (succeeds_multiplexer (f := f) hp rfl (Scene.blank_main f policy) hn).mono ?_
    rintro _ sts sc' - - ⟨rows, bus, sel, outs, mark, hgrid, -, hprov⟩
    exact ⟨_, _, _, _, hprov, rfl, fun c hc _ => hc.multiplexes hgrid⟩
  have hprovides := compile_provides (t := multiplexerTemplate (.int w) (.int n)) hf
    (hbody settings.dangling) host public_
  refine ⟨?_, hprovides.2⟩
  rintro (hw | hwarn)
  · refine (compile_realizes (t := multiplexerTemplate (.int w) (.int n)) hf (fun W hW ha => ?_)
      (hbody .warn) host public_).1
    exact keeps_multiplexer hW ha (by rintro k ⟨⟩; exact_mod_cast hw) (.int n)
  · exact hprovides.1 hwarn

/-- Below 97, a row of two entries is chosen from three rows. -/
theorem multiplexer_exact_below_97 :
    Nat.Prime 97 ∧ 3 ≤ 97 ∧
    (∃ c, (compile { prime := .int 97 } (multiplexerTemplate (.int 2) (.int 3)) () []).result
        = .ok c ∧
      c.Settles [("inp", .matrix [([1, 2], []), ([3, 4], []), ([5, 6], [])] []),
        ("sel", .single 1)] (some [("out", [3, 4])]) ∧
      c.Settles [("inp", .matrix [([1, 2], []), ([3, 4], []), ([5, 6], [])] []),
        ("sel", .single 3)] none) := by
  have hp : Nat.Prime 97 := by norm_num
  have hs : ({ prime := .int 97 } : Settings).prime = .int (97 : ℕ) := rfl
  obtain ⟨hok, hall⟩ := multiplexer_exact hp hs 2 (n := 3) (by decide) () []
  obtain ⟨c, hc⟩ := hok (Or.inl (by decide)) (by simp) (by simp)
  have hchooses := hall c hc [([1, 2], []), ([3, 4], []), ([5, 6], [])] []
  exact ⟨hp, by decide, c, hc,
    hchooses 1 rfl (by decide) (by decide) (by decide),
    hchooses 3 rfl (by decide) (by decide) (by decide)⟩

end RankOne
