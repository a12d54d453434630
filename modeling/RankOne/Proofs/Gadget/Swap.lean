/-
  RankOne — exchanges succeed, and exchange.

  An exchange reads the entries at its two positions by selectors, and mixes each entry of
  its output from them and the entry itself by two indicators.  Where the positions coincide
  both indicators fire, and one of them is dropped.

  * `exchanged`: a list with two entries exchanged;
  * `mixture`, `mixture_eq`: one entry of the output, and what it comes to;
  * `succeeds_blend`, `succeeds_swapAt`, `succeeds_swapFrom`: the entries, one by one;
  * `succeeds_ends`, `succeeds_mix`, `succeeds_swap`: the component;
  * `Circuit.Exchanges`, `swap_exact`: the circuit.
-/
import RankOne.Proofs.Gadget.Choose
import RankOne.Proofs.Gadget.Parents
import RankOne.Proofs.Witness.Supply

namespace RankOne

namespace Gadget

open Build

variable {σ : Type} {f : PrimeField} {sc : Scene} {I : Set ℤ}

/-! ## Exchanged lists -/

/-- A list with the entries at two positions exchanged, if both are there. -/
def exchanged {α : Type} (xs : List α) (i j : ℕ) : Option (List α) := do
  let x ← xs[i]?
  let y ← xs[j]?
  return (xs.set i y).set j x

theorem exchanged_map {α β : Type} (g : α → β) (xs : List α) (i j : ℕ) :
    exchanged (xs.map g) i j = (exchanged xs i j).map (List.map g) := by
  cases hx : xs[i]? with
  | none => simp [exchanged, hx]
  | some x =>
    cases hy : xs[j]? with
    | none => simp [exchanged, hx, hy]
    | some y => simp [exchanged, hx, hy, List.map_set]

/-- Two entries can be exchanged if both are there. -/
theorem exchanged_isSome {α : Type} {xs : List α} {i j : ℕ} :
    (exchanged xs i j).isSome ↔ i < xs.length ∧ j < xs.length := by
  by_cases hi : i < xs.length
  · by_cases hj : j < xs.length
    · simp [exchanged, hi, hj]
    · simp [exchanged, hi, hj]
  · simp [exchanged, hi]

/-- An entry of an exchanged list: `x` at the second position, `y` at the first one, `z`
    elsewhere. -/
def mixture {p : ℕ} (k s t x y z : ZMod p) : ZMod p :=
  (1 - flag (s = t)) * (flag (k = s) * y) + flag (k = t) * x +
    (1 - flag (k = s)) * (1 - flag (k = t)) * z

theorem mixture_eq {p : ℕ} (k s t x y z : ZMod p) :
    mixture k s t x y z = if k = t then x else if k = s then y else z := by
  by_cases ht : k = t
  · by_cases hs : k = s
    · simp [mixture, flag, ← ht, ← hs]
    · simp [mixture, flag, ← ht, hs]
  · by_cases hs : k = s
    · simp [mixture, flag, ← hs, ht]
    · simp [mixture, flag, hs, ht]

/-- **Mixed entries are an exchanged list.** -/
theorem exchanged_of_mixture {p n i j : ℕ} (hn : n ≤ p) {x y : ZMod p} {xs ys : List (ZMod p)}
    (hxs : xs.length = n) (hys : ys.length = n) (hx : xs[i]? = some x) (hy : xs[j]? = some y)
    (h : ∀ (k : ℕ) (z : ZMod p), xs[k]? = some z → ys[k]? = some (mixture k i j x y z)) :
    exchanged xs i j = some ys := by
  have hi : i < n := hxs ▸ (List.getElem?_eq_some_iff.1 hx).1
  have hj : j < n := hxs ▸ (List.getElem?_eq_some_iff.1 hy).1
  have hcast {k l : ℕ} (hk : k < n) (hl : l < n) : (k : ZMod p) = l ↔ k = l :=
    ⟨fun heq => CharP.natCast_injOn_Iio (ZMod p) p (hk.trans_le hn) (hl.trans_le hn) heq,
      congrArg _⟩
  have hset : exchanged xs i j = some ((xs.set i y).set j x) := by simp [exchanged, hx, hy]
  rw [hset, Option.some_inj]
  refine List.ext_getElem? fun k => ?_
  rcases lt_or_ge k n with hk | hk
  · have hz := List.getElem?_eq_getElem (hk.trans_eq hxs.symm)
    rw [h k _ hz, mixture_eq, List.getElem?_set, List.getElem?_set, List.length_set, hz]
    simp only [hcast hk hj, hcast hk hi, hxs, hi, hj, if_true, eq_comm (a := k)]
    split_ifs <;> rfl
  · rw [List.getElem?_eq_none (by simpa [hxs] using hk), List.getElem?_eq_none (hys.trans_le hk)]

/-! ## Entries -/

/-- The signals of an entry that get rules, in order. -/
def SwapEntry.assigned (e : SwapEntry) : List Signal :=
  [e.branchS, e.branchT, e.notST, e.branchOther, e.out]

/-- A product is assigned before others. -/
theorem succeeds_timesBefore (hf : sc.field = f) {s : Signal} {ss : List Signal} {a b : Expr}
    {d d' : (Signal → ZMod f.p) → ZMod f.p} (ha : a.Line f (sc.within I) d)
    (hb : b.Line f (sc.within I) d') (hopen : ∀ x ∈ s :: ss, sc.Open x)
    (hnd : ((s :: ss).map (·.uid)).Nodup) {k : Unit → Build σ Unit}
    {Post : (Signal → ZMod f.p) → Prop}
    (hk : sc.within I ⊆ (sc.assign s).within (I ∪ {s.uid}) →
      s ∈ (sc.assign s).within (I ∪ {s.uid}) → (∀ x ∈ ss, (sc.assign s).Open x) →
      (k ()).Succeeds (sc.assign s) fun _ sts sc' => sc' = (sc.assign s).assignAll ss ∧
        (sc.assign s).Step f sts sc' (I ∪ {s.uid}) (Signal.numbers ss) ∅ ∅ (fun _ => True) Post) :
    (times a b >>= fun product => assign s product >>= k).Succeeds sc fun _ sts sc' =>
      sc' = sc.assignAll (s :: ss) ∧
      sc.Step f sts sc' I (Signal.numbers (s :: ss)) ∅ ∅ (fun _ => True)
        fun v => v s = d v * d' v ∧ Post v := by
  obtain ⟨product, hproduct, hform, -⟩ := ha.mul hb
  refine (yields_times hproduct).skip fun _ _ => ?_
  exact succeeds_before hf hform hopen hnd hk

/-- A product and two more terms are assigned last. -/
theorem succeeds_total (hf : sc.field = f) {s : Signal} {a b x y : Expr}
    {d d' g g' : (Signal → ZMod f.p) → ZMod f.p} (ha : a.Line f (sc.within I) d)
    (hb : b.Line f (sc.within I) d') (hx : x.Line f (sc.within I) g)
    (hy : y.Line f (sc.within I) g') (hopen : ∀ x ∈ [s], sc.Open x) :
    (times a b >>= fun product => assign s ((product.add x).add y) : Build σ Unit).Succeeds sc
      fun _ sts sc' => sc' = sc.assignAll [s] ∧
        sc.Step f sts sc' I (Signal.numbers [s]) ∅ ∅ (fun _ => True)
          fun v => v s = d v * d' v + g v + g' v := by
  obtain ⟨product, hproduct, hform, -⟩ := ha.mul hb
  refine (yields_times hproduct).skip fun _ _ => ?_
  rw [← bind_pure (assign s _)]
  refine (succeeds_before hf ((hform.add hx).add hy) hopen (List.nodup_singleton _)
    fun _ _ _ => (yields_pure ()).succeeds fun _ _ => ⟨(Scene.assignAll_nil _).symm,
      .none fun _ => trivial⟩).mono ?_
  rintro _ sts sc' - - ⟨rfl, hstep⟩
  exact ⟨rfl, hstep.imp (fun _ h => h) fun v hv => hv.1⟩

/-- An entry, mixed by its indicators. -/
def blend (atThisS atThisT atS atT same : Signal) (e : SwapEntry) : Build σ Unit := do
  let one ← const 1
  let product ← times (.ofSignal atThisS) (.ofSignal atT)
  assign e.branchS product
  let product ← times (.ofSignal atThisT) (.ofSignal atS)
  assign e.branchT product
  let product ← times (one.sub (.ofSignal atThisS)) (one.sub (.ofSignal atThisT))
  assign e.notST product
  let product ← times (.ofSignal e.notST) (.ofSignal e.entry)
  assign e.branchOther product
  let product ← times (one.sub (.ofSignal same)) (.ofSignal e.branchS)
  assign e.out ((product.add (.ofSignal e.branchT)).add (.ofSignal e.branchOther))

/-- One entry of an exchange. -/
def swapAt (isS isT : SlotArray) (s t atS atT same : Signal) (i : ℕ) (e : SwapEntry) :
    Build σ Unit := do
  let atThisS ← isAt isS i s
  let atThisT ← isAt isT i t
  blend atThisS atThisT atS atT same e

theorem swapFrom_cons (isS isT : SlotArray) (s t atS atT same : Signal) (i : ℕ) (e : SwapEntry)
    (es : List SwapEntry) :
    (swapFrom isS isT s t atS atT same i (e :: es) : Build σ Unit) =
      swapAt isS isT s t atS atT same i e >>= fun _ =>
        swapFrom isS isT s t atS atT same (i + 1) es := by
  simp only [swapFrom, swapAt, blend, bind_assoc]

/-- **An entry is mixed.** -/
theorem succeeds_blend (hf : sc.field = f) {u w atS atT same : Signal} {e : SwapEntry}
    (hmem : ∀ x ∈ [u, w, atS, atT, same, e.entry], x ∈ sc.within I)
    (hopen : ∀ x ∈ e.assigned, sc.Open x) (hnd : (e.assigned.map (·.uid)).Nodup) :
    (blend u w atS atT same e : Build σ Unit).Succeeds sc fun _ sts sc' =>
      sc' = sc.assignAll e.assigned ∧
      sc.Step f sts sc' I (Signal.numbers e.assigned) ∅ ∅ (fun _ => True) fun v =>
        v e.out = (1 - v same) * (v u * v atT) + v w * v atS +
          (1 - v u) * (1 - v w) * v e.entry := by
  simp only [List.forall_mem_cons, List.not_mem_nil, false_imp_iff, implies_true, and_true] at hmem
  obtain ⟨hu, hw, hatS, hatT, hsame, hentry⟩ := hmem
  refine .fit fun hfit => (yields_const 1).skip fun _ _ => ?_
  rw [hf]
  have hline {sc' : Scene} {J : Set ℤ} (hsig : sc'.signals = sc.signals) {x : Signal}
      (hx : x ∈ sc'.within J) : (Expr.ofSignal x).Line f (sc'.within J) fun v => v x :=
    .ofSignal hx ((hfit.field x (hsig ▸ hx.1)).trans hf)
  have hf₁ : (sc.assign e.branchS).field = f := hf
  have hf₂ : ((sc.assign e.branchS).assign e.branchT).field = f := hf
  have hf₃ : (((sc.assign e.branchS).assign e.branchT).assign e.notST).field = f := hf
  have hf₄ : ((((sc.assign e.branchS).assign e.branchT).assign e.notST).assign
    e.branchOther).field = f := hf
  refine (succeeds_timesBefore hf (hline rfl hu) (hline rfl hatT) hopen hnd
    fun h₁ hbranchS hopen₁ => succeeds_timesBefore hf₁ (hline rfl (h₁ hw)) (hline rfl (h₁ hatS))
      hopen₁ hnd.of_cons
    fun h₂ hbranchT hopen₂ => succeeds_timesBefore hf₂
      ((Expr.Line.ofInt 1).sub (hline rfl (h₂ (h₁ hu))))
      ((Expr.Line.ofInt 1).sub (hline rfl (h₂ (h₁ hw)))) hopen₂ hnd.of_cons.of_cons
    fun h₃ hnotST hopen₃ => succeeds_timesBefore hf₃ (hline rfl hnotST)
      (hline rfl (h₃ (h₂ (h₁ hentry)))) hopen₃ hnd.of_cons.of_cons.of_cons
    fun h₄ hbranchOther hopen₄ => succeeds_total hf₄
      ((Expr.Line.ofInt 1).sub (hline rfl (h₄ (h₃ (h₂ (h₁ hsame))))))
      (hline rfl (h₄ (h₃ (h₂ hbranchS)))) (hline rfl (h₄ (h₃ hbranchT))) (hline rfl hbranchOther)
      hopen₄).mono ?_
  rintro _ sts sc' - - ⟨rfl, hstep⟩
  refine ⟨rfl, hstep.imp (fun _ h => h) ?_⟩
  rintro v ⟨hS, hT, hnot, hother, hout⟩
  rw [hout, hother, hnot, hS, hT, Int.cast_one]

section
variable {isS isT : SlotArray} {n : ℕ} {s t atS atT same : Signal}

/-- The value of an entry, by the values of the entries at the two positions. -/
def Mixes (f : PrimeField) (s t atS atT : Signal) (i : ℕ) (e : SwapEntry)
    (v : Signal → ZMod f.p) : Prop :=
  v e.out = mixture (i : ZMod f.p) (v s) (v t) (v atS) (v atT) (v e.entry)

/-- An entry and its indicators are one step. -/
theorem succeeds_swapAt (hp : f.p.Prime) (hf : sc.field = f) {i : ℕ} (hisS : sc.Vacant isS n i)
    (hisT : sc.Vacant isT n i) (hne : isT.id ≠ isS.id) (hi : i < n) {e : SwapEntry}
    (hmem : ∀ x ∈ [s, t, atS, atT, same, e.entry], x ∈ sc.within I)
    (hopen : ∀ x ∈ e.assigned, sc.Open x) (hnd : (e.assigned.map (·.uid)).Nodup) :
    (swapAt isS isT s t atS atT same i e : Build σ Unit).Succeeds sc fun _ sts sc' =>
      sc.Step f sts sc' I (Signal.numbers e.assigned ∪
        Set.Ico (sc.signals.length : ℤ) sc'.signals.length) {(isS.id, [i]), (isT.id, [i])} ∅
        (fun _ => True) fun v => v same = flag (v s = v t) → Mixes f s t atS atT i e v := by
  simp only [List.forall_mem_cons, List.not_mem_nil, false_imp_iff, implies_true, and_true] at hmem
  obtain ⟨hs, ht, hatS, hatT, hsame, hentry⟩ := hmem
  refine .fit fun hfit => (succeeds_isAt hp hf hisS hi hs).bind ?_
  rintro u xs sc₁ hgrows₁ hfit₁ ⟨hu, hindS⟩
  have hsub₁ : sc.within I ⊆ sc₁.within I := Scene.within_subset hgrows₁ subset_rfl
  have hf₁ : sc₁.field = f := hgrows₁.field.trans hf
  have hisT₁ : sc₁.Vacant isT n i := hisT.later hgrows₁ hindS.toEffect le_rfl fun j _ hmem =>
    hne (congrArg Prod.fst hmem)
  refine (succeeds_isAt hp hf₁ hisT₁ hi (hsub₁ ht)).bind ?_
  rintro w ys sc₂ hgrows₂ hfit₂ ⟨hw, hindT⟩
  set J := I ∪ (Set.Ico (sc.signals.length : ℤ) sc₁.signals.length ∪
    Set.Ico (sc₁.signals.length : ℤ) sc₂.signals.length) with hJ
  have hsub : sc.within I ⊆ sc₂.within J :=
    Scene.within_subset (hgrows₁.trans hgrows₂) Set.subset_union_left
  have hmem₂ : ∀ x ∈ [u, w, atS, atT, same, e.entry], x ∈ sc₂.within J := by
    simp only [List.forall_mem_cons, List.not_mem_nil, false_imp_iff, implies_true, and_true]
    exact ⟨⟨hgrows₂.mem hu.1, Or.inr (Or.inl hu.2)⟩, ⟨hw.1, Or.inr (Or.inr hw.2)⟩, hsub hatS,
      hsub hatT, hsub hsame, hsub hentry⟩
  refine (succeeds_blend (hgrows₂.field.trans hf₁) hmem₂ (fun x hx =>
    ((hopen x hx).below hfit hgrows₁ hindS.toEffect).below hfit₁ hgrows₂ hindT.toEffect) hnd).mono ?_
  rintro _ zs _ - - ⟨rfl, hblend⟩
  have hrange := Set.Ico_union_Ico_eq_Ico (Int.ofNat_le.2 hgrows₁.length_le)
    (Int.ofNat_le.2 hgrows₂.length_le)
  have hsteps := (hindS.trans hindT Set.subset_union_left fun _ _ _ => trivial).trans hblend
    hJ.subset fun _ _ _ => trivial
  rw [List.append_assoc] at hsteps
  refine hsteps.mono subset_rfl ?_ (Set.union_empty _).subset (by simp) (fun _ h => h) ?_
  · rw [hrange, Set.union_comm]
    rfl
  · rintro v ⟨⟨hvu, hvw⟩, hvout⟩ hvsame
    rw [Mixes, hvout, hvsame, hvu, hvw]
    rfl

/-- **The entries of an exchange, one by one.** -/
theorem succeeds_swapFrom (hp : f.p.Prime) (hne : isT.id ≠ isS.id) :
    ∀ {es : List SwapEntry} {i : ℕ} {sc : Scene}, sc.field = f → sc.Vacant isS n i →
    sc.Vacant isT n i → i + es.length ≤ n → (∀ x ∈ [s, t, atS, atT, same], x ∈ sc.within I) →
    (∀ e ∈ es, e.entry ∈ sc.within I) → (∀ x ∈ es.flatMap (·.assigned), sc.Open x) →
    ((es.flatMap (·.assigned)).map (·.uid)).Nodup →
    (swapFrom isS isT s t atS atT same i es : Build σ Unit).Succeeds sc fun _ sts sc' =>
      sc.Step f sts sc' I (Signal.numbers (es.flatMap (·.assigned)) ∪
        Set.Ico (sc.signals.length : ℤ) sc'.signals.length) {k | k.1 = isS.id ∨ k.1 = isT.id} ∅
        (fun _ => True) fun v => v same = flag (v s = v t) →
          ∀ q ∈ es.zipIdx i, Mixes f s t atS atT q.2 q.1 v
  | [], i, sc, _, _, _, _, _, _, _, _ => by
    refine (yields_pure ()).succeeds fun _ _ => ?_
    exact (Scene.Step.none (by simp)).mono subset_rfl (by simp) (Set.empty_subset _) subset_rfl
      (fun _ h => h) fun _ h => h
  | e :: es, i, sc, hf, hisS, hisT, hle, hmem, hentries, hopen, hnd => by
    rw [List.flatMap_cons] at hopen hnd
    rw [List.map_append, List.nodup_append] at hnd
    obtain ⟨hnd, hnd', hdisjoint⟩ := hnd
    obtain ⟨hopen, hopen'⟩ := List.forall_mem_append.1 hopen
    obtain ⟨hentry, hentries⟩ := List.forall_mem_cons.1 hentries
    rw [List.length_cons] at hle
    have hmem' : ∀ x ∈ [s, t, atS, atT, same, e.entry], x ∈ sc.within I := by
      intro x hx
      rcases List.mem_append.1 (show x ∈ [s, t, atS, atT, same] ++ [e.entry] from hx) with hx | hx
      · exact hmem x hx
      · rwa [List.mem_singleton.1 hx]
    rw [swapFrom_cons]
    refine .fit fun hfit => (succeeds_swapAt hp hf hisS hisT hne (by omega) hmem' hopen hnd).bind ?_
    rintro _ xs sc₁ hgrows hfit₁ hfirst
    have hsub : sc.within I ⊆ sc₁.within I := Scene.within_subset hgrows subset_rfl
    have hnext {a : SlotArray} (ha : sc.Vacant a n i) : sc₁.Vacant a n (i + 1) :=
      ha.later hgrows hfirst.toEffect (Nat.le_succ i) fun j hj hmem => by
        have : j = i := by
          rcases hmem with hmem | hmem <;> simpa using congrArg Prod.snd hmem
        omega
    refine (succeeds_swapFrom hp hne (hgrows.field.trans hf) (hnext hisS) (hnext hisT) (by omega)
      (fun x hx => hsub (hmem x hx)) (fun e he => hsub (hentries e he))
      (fun x hx => (hopen' x hx).later hgrows hfirst.toEffect ?_) hnd').mono ?_
    · rintro (⟨y, hy, heq⟩ | hmem)
      · exact hdisjoint _ (List.mem_map_of_mem hy) _ (List.mem_map_of_mem hx) heq
      · have := hfit.numbered x (hopen' x hx).mem
        have := hmem.1
        omega
    rintro _ sts sc' hgrows' - hrest
    have hrange := Set.Ico_union_Ico_eq_Ico (Int.ofNat_le.2 hgrows.length_le)
      (Int.ofNat_le.2 hgrows'.length_le)
    refine (hfirst.trans hrest Set.subset_union_left fun _ _ _ => trivial).mono subset_rfl ?_ ?_
      (by simp) (fun _ h => h) ?_
    · rw [List.flatMap_cons, Signal.numbers_append, ← hrange]
      ext u
      simp only [Set.mem_union]
      tauto
    · rintro k ((rfl | rfl) | hk)
      · exact Or.inl rfl
      · exact Or.inr rfl
      · exact hk
    · rintro v ⟨hmixes, hrest⟩ hvsame
      rw [List.zipIdx_cons]
      exact List.forall_mem_cons.2 ⟨hmixes hvsame, hrest hvsame⟩

end

/-- The entries of an exchange, and the signals that get rules. -/
theorem swapEntries_spec : ∀ {xs os ss ts ns bs : List Signal}, os.length = xs.length →
    ss.length = xs.length → ts.length = xs.length → ns.length = xs.length →
    bs.length = xs.length → (swapEntries xs os ss ts ns bs).map (·.entry) = xs ∧
      (swapEntries xs os ss ts ns bs).map (·.out) = os ∧
      ((swapEntries xs os ss ts ns bs).flatMap (·.assigned)).Perm (os ++ [ss, ts, ns, bs].flatten)
  | [], [], [], [], [], [], _, _, _, _, _ => ⟨rfl, rfl, .refl _⟩
  | x :: xs, o :: os, s :: ss, t :: ts, n :: ns, b :: bs, ho, hs, ht, hn, hb => by
    simp only [List.length_cons, Nat.add_right_cancel_iff] at ho hs ht hn hb
    obtain ⟨hentry, hout, hperm⟩ := swapEntries_spec ho hs ht hn hb
    refine ⟨by simp [swapEntries, hentry], by simp [swapEntries, hout], ?_⟩
    classical
    refine List.perm_iff_count.2 fun a => ?_
    have hcount := hperm.count_eq a
    simp only [swapEntries, SwapEntry.assigned, List.flatMap_cons, List.count_append,
      List.count_cons, List.flatten_cons, List.flatten_nil, List.count_nil] at hcount ⊢
    omega

/-! ## Rows of intermediates -/

/-- **Some rows of `n` intermediates are declared**, one after the other. -/
structure Rowed (sc : Scene) (n : ℕ) (names : List String) (rows : List (List Signal))
    (sc' : Scene) : Prop where
  grows : sc.Grows sc'
  numbers : Signal.Consecutive sc.signals.length rows.flatten
  size : sc'.signals.length = sc.signals.length + rows.flatten.length
  length : ∀ row ∈ rows, row.length = n
  isOpen : ∀ s ∈ rows.flatten, sc'.Open s
  lift : ∀ {f xs sc'' I U F N Pre Post}, sc'.Step f xs sc'' I U F N Pre Post →
    sc.Step f xs sc'' I U F ({name | name ∈ names} ∪ N) Pre Post

theorem Rowed.nil (sc : Scene) (n : ℕ) : Rowed sc n [] [] sc where
  grows := .refl sc
  numbers := Signal.consecutive_nil _
  size := rfl
  length := by simp
  isOpen := by simp
  lift := fun h => h.mono subset_rfl rfl subset_rfl Set.subset_union_right (fun _ h => h)
    fun _ h => h

theorem Rowed.concat {n : ℕ} {names : List String} {rows : List (List Signal)} {sc₁ : Scene}
    (h : Rowed sc n names rows sc₁) (hfit : sc₁.Fit) (name : String) :
    Rowed sc n (names ++ [name]) (rows ++ [sc₁.row .intermediate name n])
      (sc₁.declare ⟨name, .intermediate, .row (sc₁.row .intermediate name n) sc₁.mark⟩) where
  grows := h.grows.trans (sc₁.grows_declare _)
  numbers := by
    have hnew := (sc₁.new_row .intermediate name n sc₁.mark).consecutive
    rw [h.size] at hnew
    simpa using h.numbers.append hnew
  size := by
    simp [h.size]
    omega
  length := by
    intro row hrow
    rcases List.mem_append.1 hrow with hrow | hrow
    · exact h.length row hrow
    · rw [List.mem_singleton.1 hrow, sc₁.length_row]
  isOpen := by
    intro s hs
    rw [List.flatten_append, List.mem_append] at hs
    rcases hs with hs | hs
    · exact (h.isOpen s hs).declare _
    · exact (sc₁.new_row .intermediate name n sc₁.mark).isOpen_row hfit (Or.inr rfl) s (by
        simpa using hs)
  lift := fun hstep => (h.lift (hstep.declared rfl)).mono subset_rfl rfl subset_rfl (by
    intro x hx
    simp only [Set.mem_union, Set.mem_ofPred_eq, Set.mem_singleton_iff, List.mem_append,
      List.mem_singleton] at hx ⊢
    tauto) (fun _ h => h) fun _ h => h

/-- **The entries of an exchange**, once their rows are declared. -/
theorem Rowed.succeeds_entries {n : ℕ} {names : List String}
    {branchS branchT notST branchOther : List Signal} {sc₁ : Scene}
    (h : Rowed sc n names [branchS, branchT, notST, branchOther] sc₁) (hp : f.p.Prime)
    (hf : sc.field = f) (hfit : sc.Fit) {isS isT : SlotArray} (hisS : sc.Vacant isS n 0)
    (hisT : sc.Vacant isT n 0) (hne : isT.id ≠ isS.id) {arr outs : List Signal}
    (harr : arr.length = n) (houts : outs.length = n) {s t atS atT same : Signal}
    (hmem : ∀ x ∈ [s, t, atS, atT, same], x ∈ sc.within I) (hin : ∀ x ∈ arr, x ∈ sc.within I)
    (hopen : ∀ o ∈ outs, sc.Open o) (hnd : (outs.map (·.uid)).Nodup) :
    (swapFrom isS isT s t atS atT same 0
      (swapEntries arr outs branchS branchT notST branchOther) : Build σ Unit).Succeeds sc₁
      fun _ sts sc' => sc.Step f sts sc' I
        (Signal.numbers outs ∪ Set.Ico (sc.signals.length : ℤ) sc'.signals.length)
        {k | k.1 = isS.id ∨ k.1 = isT.id} {name | name ∈ names} (fun _ => True) fun v =>
          v same = flag (v s = v t) → ∀ (k : ℕ) (z : ZMod f.p), (arr.map v)[k]? = some z →
            (outs.map v)[k]? = some (mixture k (v s) (v t) (v atS) (v atT) z) := by
  have hlength := h.length
  simp only [List.forall_mem_cons, List.not_mem_nil, false_imp_iff, implies_true, and_true]
    at hlength
  rw [← harr] at hlength
  obtain ⟨hentry, hout, hperm⟩ := swapEntries_spec (houts.trans harr.symm) hlength.1 hlength.2.1
    hlength.2.2.1 hlength.2.2.2
  set es := swapEntries arr outs branchS branchT notST branchOther
  have hdeclared := (h.lift (Scene.Step.refl (f := f) (I := ∅) sc₁)).toEffect
  have hsub : sc.within I ⊆ sc₁.within I := Scene.within_subset h.grows subset_rfl
  have hnodup : ((es.flatMap (·.assigned)).map (·.uid)).Nodup := by
    rw [(hperm.map _).nodup_iff, List.map_append, List.nodup_append]
    refine ⟨hnd, h.numbers.nodup, fun a ha b hb heq => ?_⟩
    -- the outputs were declared before the rows
    obtain ⟨o, ho, rfl⟩ := List.mem_map.1 ha
    obtain ⟨r, hr, rfl⟩ := List.mem_map.1 hb
    have hlt := hfit.numbered o (hopen o ho).mem
    have hle := (h.numbers.numbers ▸ Signal.mem_numbers hr).1
    omega
  have hlen : 0 + es.length ≤ n := by
    rw [← harr, ← hentry, List.length_map, Nat.zero_add]
  refine (succeeds_swapFrom hp hne (h.grows.field.trans hf)
    (hisS.later h.grows hdeclared le_rfl (by simp)) (hisT.later h.grows hdeclared le_rfl (by simp))
    hlen (fun x hx => hsub (hmem x hx)) (fun e he => hsub (hin _ ?_)) (fun x hx => ?_)
    hnodup).mono ?_
  · rw [← hentry]
    exact List.mem_map_of_mem he
  · rcases List.mem_append.1 (hperm.mem_iff.1 hx) with hx | hx
    · exact (hopen x hx).later h.grows hdeclared (Set.notMem_empty _)
    · exact h.isOpen x hx
  rintro _ sts sc' hgrows' - hstep
  refine (h.lift hstep).mono subset_rfl ?_ subset_rfl (Set.union_empty _).subset (fun _ h => h) ?_
  · have hle := hgrows'.length_le
    rw [h.size] at hle
    rw [Signal.numbers_perm hperm, Signal.numbers_append, h.numbers.numbers, h.size,
      Set.union_assoc, Nat.cast_add, Set.Ico_union_Ico_eq_Ico (by omega) (by exact_mod_cast hle)]
  · intro v hv hsame k z hz
    rw [← hentry, List.map_map, List.getElem?_map, Option.map_eq_some_iff] at hz
    obtain ⟨e, he, rfl⟩ := hz
    have hmixes := hv hsame (e, k) (List.mem_zipIdx_iff_getElem?.2 he)
    rw [← hout, List.map_map, List.getElem?_map, he, Option.map_some]
    exact congrArg some hmixes

/-! ## Components -/

/-- The entries of an exchange, with the places and rows that they need. -/
def mix (n : Value) (arr outs : List Signal) (s t atS atT same : Signal) : Build σ Unit := do
  let isS ← slots "isS" n
  let isT ← slots "isT" n
  let branchS ← signals .intermediate "branchS" n
  let branchT ← signals .intermediate "branchT" n
  let notST ← signals .intermediate "notST" n
  let branchOther ← signals .intermediate "branchOther" n
  swapFrom isS isT s t atS atT same 0 (swapEntries arr outs branchS branchT notST branchOther)

/-- The names that the entries take. -/
def mixNames : List String := ["isS", "isT", "branchS", "branchT", "notST", "branchOther"]

/-- **The entries of an exchange**, mixed from those at the two positions. -/
theorem succeeds_mix (hp : f.p.Prime) (hf : sc.field = f)
    (hfree : ∀ name ∈ mixNames, name ∉ sc.names) {n : ℕ} {arr outs : List Signal}
    (harr : arr.length = n) (houts : outs.length = n) (hn : n ≤ sc.signals.length)
    {s t atS atT same : Signal} (hmem : ∀ x ∈ [s, t, atS, atT, same], x ∈ sc.within I)
    (hin : ∀ x ∈ arr, x ∈ sc.within I) (hopen : ∀ o ∈ outs, sc.Open o)
    (hnd : (outs.map (·.uid)).Nodup) :
    (mix (.int n) arr outs s t atS atT same : Build σ Unit).Succeeds sc fun _ sts sc' =>
      sc.Step f sts sc' I
        (Signal.numbers outs ∪ Set.Ico (sc.signals.length : ℤ) sc'.signals.length)
        {k | sc.arrays ≤ k.1} {name | name ∈ mixNames} (fun _ => True) fun v =>
          v same = flag (v s = v t) → ∀ (k : ℕ) (z : ZMod f.p), (arr.map v)[k]? = some z →
            (outs.map v)[k]? = some (mixture k (v s) (v t) (v atS) (v atT) z) := by
  simp only [mixNames, List.forall_mem_cons, List.not_mem_nil, false_imp_iff, implies_true,
    and_true] at hfree
  obtain ⟨hfreeS, hfreeT, hfree₁, hfree₂, hfree₃, hfree₄⟩ := hfree
  have hfreeT : "isT" ∉ (sc.array "isS").names := by simp [hfreeT]
  refine .fit fun hfit => (yields_slots hfreeS hn).skip fun hgrowsS hfitS => ?_
  refine (yields_slots hfreeT hn).skip fun hgrowsT hfitT => ?_
  set isS := sc.slots "isS" n
  set isT := (sc.array "isS").slots "isT" n
  set sc₀ := (sc.array "isS").array "isT" with hsc₀
  -- the four rows, one after the other
  have hnil := Rowed.nil sc₀ n
  refine (yields_signals n (by simp [hsc₀, hfree₁])).skip fun _ hfit₁ => ?_
  have hrow₁ := hnil.concat hfitT "branchS"
  refine (yields_signals n (by simp [hsc₀, hfree₂])).skip fun _ hfit₂ => ?_
  have hrow₂ := hrow₁.concat hfit₁ "branchT"
  refine (yields_signals n (by simp [hsc₀, hfree₃])).skip fun _ hfit₃ => ?_
  have hrow₃ := hrow₂.concat hfit₂ "notST"
  refine (yields_signals n (by simp [hsc₀, hfree₄])).skip fun _ _ => ?_
  have hrows := hrow₃.concat hfit₃ "branchOther"
  simp only [List.nil_append, List.cons_append] at hrows
  have hvacantS : sc₀.Vacant isS n 0 := (Scene.vacant_slots hfit "isS" n).later hgrowsT
    ((Scene.Step.refl (f := f) (I := ∅) sc₀).arrayed).toEffect le_rfl (by simp)
  have hne : isT.id ≠ isS.id := Nat.succ_ne_self sc.arrays
  refine (hrows.succeeds_entries hp hf hfitT hvacantS (Scene.vacant_slots hfitS "isT" n) hne harr
    houts hmem hin (fun o ho => ((hopen o ho).array _).array _) hnd).mono ?_
  rintro _ sts sc' - - hstep
  refine hstep.arrayed.arrayed.mono subset_rfl rfl ?_ ?_ (fun _ h => h) fun _ h => h
  · rintro k (hk | hk)
    · exact hk.ge
    · exact (Nat.le_succ _).trans hk.ge
  · intro name hname
    simp only [mixNames, Set.mem_union, Set.mem_singleton_iff, Set.mem_ofPred_eq, List.mem_cons]
      at hname ⊢
    tauto

/-- Whether two signals are equal, by a named indicator. -/
def areEqual (name : String) (s t : Signal) : Build σ Signal := do
  let eq ← component name isEqualTemplate
  assignAll (← terminalSignals eq "in") [.ofSignal s, .ofSignal t]
  terminalSignal eq "out"

theorem succeeds_areEqual (hp : f.p.Prime) (hf : sc.field = f) {name : String}
    (hname : name ∉ sc.names) {s t : Signal} (hs : s ∈ sc.within I) (ht : t ∈ sc.within I) :
    (areEqual name s t : Build σ Signal).Succeeds sc fun u sts sc' =>
      u ∈ sc'.within (Set.Ico (sc.signals.length : ℤ) sc'.signals.length) ∧
        sc.Step f sts sc' I (Set.Ico (sc.signals.length : ℤ) sc'.signals.length) ∅ {name}
          (fun _ => True) fun v => v u = flag (v s = v t) := by
  refine .fit fun hfit => (succeeds_placedEqual hp hf hname).bind ?_
  rintro c xs sc₁ hgrows - ⟨x, y, out, mark, hplaced⟩
  refine (yields_terminalSignals (hplaced.terminal "in")).skip fun _ _ => ?_
  exact succeeds_fedEqual hplaced hgrows (hgrows.field.trans hf) (hfit.line hf hs)
    (hfit.line hf ht) fun _ h => h

/-- The entries at two positions, and whether these coincide. -/
def ends (n : Value) (arr : List Signal) (s t : Signal) : Build σ (Signal × Signal × Signal) := do
  let atS ← entryAt "atS" arr n s
  let atT ← entryAt "atT" arr n t
  return (atS, atT, ← areEqual "sEqT" s t)

/-- The names that the two positions take. -/
def endNames : List String := ["atS", "atT", "sEqT"]

/-- **The entries at two positions** are read, if the positions are there. -/
theorem succeeds_ends (hp : f.p.Prime) (hf : sc.field = f) (hwarn : sc.policy = .warn)
    (hfree : ∀ name ∈ endNames, name ∉ sc.names) {n : ℕ} {arr : List Signal}
    (harr : arr.length = n) (hn : 1 ≤ n) (hwidth : Width f (Decimal.bitLength n))
    (hin : ∀ x ∈ arr, x ∈ sc.within I) {s t : Signal} (hs : s ∈ sc.within I)
    (ht : t ∈ sc.within I) :
    (ends (.int n) arr s t : Build σ (Signal × Signal × Signal)).Succeeds sc fun q sts sc' =>
      (∀ x ∈ [q.1, q.2.1, q.2.2],
        x ∈ sc'.within (Set.Ico (sc.signals.length : ℤ) sc'.signals.length)) ∧
      sc.Step f sts sc' I (Set.Ico (sc.signals.length : ℤ) sc'.signals.length) ∅
        {name | name ∈ endNames}
        (fun v => (∃ i : ℕ, i < n ∧ v s = i) ∧ ∃ i : ℕ, i < n ∧ v t = i)
        fun v => Picks f arr s q.1 v ∧ Picks f arr t q.2.1 v ∧ v q.2.2 = flag (v s = v t) := by
  simp only [endNames, List.forall_mem_cons, List.not_mem_nil, false_imp_iff, implies_true,
    and_true] at hfree
  obtain ⟨hfreeS, hfreeT, hfreeE⟩ := hfree
  refine (succeeds_entryAt hp hf hwarn hfreeS harr hn hwidth hin hs).bind ?_
  rintro atS xs sc₁ hgrows₁ - ⟨hatS, hstepS⟩
  have hsub₁ : sc.within I ⊆ sc₁.within I := Scene.within_subset hgrows₁ subset_rfl
  have hfreeT₁ : "atT" ∉ sc₁.names := fun hmem => by
    rcases hstepS.names hmem with hmem | hmem
    · exact hfreeT hmem
    · simp at hmem
  refine (succeeds_entryAt hp (hgrows₁.field.trans hf) (hgrows₁.policy.trans hwarn) hfreeT₁ harr
    hn hwidth (fun x hx => hsub₁ (hin x hx)) (hsub₁ ht)).bind ?_
  rintro atT ys sc₂ hgrows₂ - ⟨hatT, hstepT⟩
  have hgrows := hgrows₁.trans hgrows₂
  have hsub₂ : sc.within I ⊆ sc₂.within I := Scene.within_subset hgrows subset_rfl
  have hfreeE₂ : "sEqT" ∉ sc₂.names := fun hmem => by
    rcases hstepT.names hmem with hmem | hmem
    · rcases hstepS.names hmem with hmem | hmem
      · exact hfreeE hmem
      · simp at hmem
    · simp at hmem
  refine (succeeds_areEqual hp (hgrows.field.trans hf) hfreeE₂ (hsub₂ hs) (hsub₂ ht)).bind ?_
  rintro same zs sc₃ hgrows₃ - ⟨hsame, hstepE⟩
  have hle₁ : (sc.signals.length : ℤ) ≤ sc₁.signals.length := by exact_mod_cast hgrows₁.length_le
  have hle₂ : (sc₁.signals.length : ℤ) ≤ sc₂.signals.length := by exact_mod_cast hgrows₂.length_le
  have hle₃ : (sc₂.signals.length : ℤ) ≤ sc₃.signals.length := by exact_mod_cast hgrows₃.length_le
  refine (yields_pure (atS, atT, same)).succeeds fun _ _ => ⟨?_, ?_⟩
  · simp only [List.forall_mem_cons, List.not_mem_nil, false_imp_iff, implies_true, and_true]
    exact ⟨Scene.within_subset (hgrows₂.trans hgrows₃)
        (Set.Ico_subset_Ico_right (hle₂.trans hle₃)) hatS,
      Scene.within_subset hgrows₃ (Set.Ico_subset_Ico hle₁ hle₃) hatT,
      Scene.within_subset (.refl sc₃) (Set.Ico_subset_Ico_left (hle₁.trans hle₂)) hsame⟩
  · have hfirst := hstepS.imp
      (fun v (h : (∃ i : ℕ, i < n ∧ v s = i) ∧ ∃ i : ℕ, i < n ∧ v t = i) => h.1) fun _ h => h
    have hsteps := (hfirst.trans hstepT Set.subset_union_left fun v hv _ => hv.2).trans hstepE
      Set.subset_union_left fun _ _ _ => trivial
    rw [List.append_assoc] at hsteps
    rw [List.append_nil]
    refine hsteps.mono subset_rfl ?_ (by simp) ?_ (fun _ h => h) fun v hv => ⟨hv.1.1, hv.1.2, hv.2⟩
    · rw [Set.Ico_union_Ico_eq_Ico hle₁ hle₂, Set.Ico_union_Ico_eq_Ico (hle₁.trans hle₂) hle₃]
    · rintro name ((hname | hname) | hname) <;> simp_all [endNames]

/-- The inputs of an exchange. -/
def swapInputs (arr : List Signal) (mark : Mark) (s t : Signal) : List Declaration :=
  [⟨"arr", .input, .row arr mark⟩, ⟨"s", .input, .single s⟩, ⟨"t", .input, .single t⟩]

theorem flat_swapInputs (arr : List Signal) (mark : Mark) (s t : Signal) :
    Declaration.flat (swapInputs arr mark s t) = arr ++ [s, t] := by
  simp [swapInputs]

/-- The inputs and outputs of an exchange are declared. -/
def swapInterface (n : Value) : Build σ (List Signal × Signal × Signal × List Signal) := do
  let arr ← signals .input "arr" n
  let s ← signal .input "s"
  let t ← signal .input "t"
  let outs ← signals .output "out" n
  return (arr, s, t, outs)

theorem swap_eq (n : Value) : (swap n : Build σ Unit) =
    checkBound n 1 >>= fun _ => swapInterface n >>= fun q => ends n q.1 q.2.1 q.2.2.1 >>= fun r =>
      mix n q.1 q.2.2.2 q.2.1 q.2.2.1 r.1 r.2.1 r.2.2 := by
  simp only [swap, swapInterface, ends, areEqual, mix, bind_assoc, pure_bind]

/-- What an exchange has declared first. -/
structure Offered (sc : Scene) (n : ℕ) (arr : List Signal) (mark : Mark) (s t : Signal)
    (outs : List Signal) (mark' : Mark) (sc' : Scene) : Prop where
  interface : sc.Interface (swapInputs arr mark s t) [⟨"out", .output, .row outs mark'⟩]
  scene : sc' = sc.declareAll (swapInputs arr mark s t ++ [⟨"out", .output, .row outs mark'⟩])
  length : arr.length = n
  outputs : outs.length = n
  isOpen : ∀ o ∈ outs, sc'.Open o
  numbers : Signal.Consecutive (sc.signals.length + (n + 2)) outs
  free : ∀ name ∈ endNames ++ mixNames, name ∉ sc'.names

theorem succeeds_swapInterface (hblank : sc.Blank) (n : ℕ) :
    (swapInterface (.int n) : Build σ (List Signal × Signal × Signal × List Signal)).Succeeds sc
      fun q sts sc' => sts = [] ∧
        ∃ mark mark', Offered sc n q.1 mark q.2.1 q.2.2.1 q.2.2.2 mark' sc' := by
  refine succeeds_row n (by simp [hblank.names]) fun arr hlen hbus _ => ?_
  set sc₁ := sc.declare ⟨"arr", .input, .row arr sc.mark⟩ with hsc₁
  refine (yields_signal (by simp [hsc₁, hblank.names])).skip fun _ _ => ?_
  set s := sc₁.single .input "s"
  set sc₂ := sc₁.declare ⟨"s", .input, .single s⟩ with hsc₂
  refine (yields_signal (by simp [hsc₁, hsc₂, hblank.names])).skip fun _ hfit₃ => ?_
  set t := sc₂.single .input "t"
  set sc₃ := sc₂.declare ⟨"t", .input, .single t⟩ with hsc₃
  refine succeeds_row n (by simp [hsc₁, hsc₂, hsc₃, hblank.names]) fun outs houts hrow _ => ?_
  have hinterface : sc.Interface (swapInputs arr sc.mark s t)
      [⟨"out", .output, .row outs sc₃.mark⟩] :=
    ((((Scene.Interface.nil sc).input hbus "arr").input (sc₁.new_single .input "s") "s").input
      (sc₂.new_single .input "t") "t").output hrow "out"
  have hnumbers := hrow.consecutive
  rw [show sc₃.signals.length = sc.signals.length + (n + 2) by
    simp [hsc₁, hsc₂, hsc₃, hlen]] at hnumbers
  refine (yields_pure (arr, s, t, outs)).succeeds fun _ _ => ⟨rfl, sc.mark, sc₃.mark, hinterface,
    rfl, hlen, houts, hrow.isOpen_row hfit₃ (Or.inl rfl), hnumbers, ?_⟩
  simp [hsc₁, hsc₂, hsc₃, hblank.names, endNames, mixNames]

/-- **The component that exchanges two entries.** -/
theorem succeeds_swap (hp : f.p.Prime) (hf : sc.field = f) (hwarn : sc.policy = .warn)
    (hblank : sc.Blank) {n : ℕ} (hn : 1 ≤ n) (hwidth : Width f (Decimal.bitLength n)) :
    (swap (.int n) : Build σ Unit).Succeeds sc fun _ sts sc' => ∃ arr mark s t outs mark',
      arr.length = n ∧
      sc.Provides f (swapInputs arr mark s t) [⟨"out", .output, .row outs mark'⟩]
        (fun v => (∃ i : ℕ, i < n ∧ v s = i) ∧ ∃ i : ℕ, i < n ∧ v t = i)
        (fun v => ∃ i j : ℕ, v s = i ∧ v t = j ∧ exchanged (arr.map v) i j = some (outs.map v))
        sts sc' := by
  rw [swap_eq]
  refine (yields_checkBound hn).skip fun _ _ => (succeeds_swapInterface hblank n).bind ?_
  rintro ⟨arr, s, t, outs⟩ _ sc₁ hgrows₁ hfit₁ ⟨rfl, mark, mark', hoffered⟩
  have hlen₁ : sc₁.signals.length = sc.signals.length + (n + 2) + n := by
    rw [hoffered.scene, sc.declareAll_signals, Declaration.flat_append, flat_swapInputs]
    simp [hoffered.length, hoffered.outputs]
    omega
  have hnumbers := hoffered.numbers.numbers
  rw [hoffered.outputs] at hnumbers
  set J := Signal.numbers (Declaration.flat (swapInputs arr mark s t)) with hJ
  have hin : ∀ x ∈ arr ++ [s, t], x ∈ sc₁.within J := by
    intro x hx
    rw [← flat_swapInputs arr mark s t] at hx
    rw [hJ, hoffered.interface.numbers.numbers, hoffered.scene]
    exact hoffered.interface.within_numbers hx
  have hf₁ : sc₁.field = f := hgrows₁.field.trans hf
  -- the entries at the two positions
  refine (succeeds_ends hp hf₁ (hgrows₁.policy.trans hwarn)
    (fun name hname => hoffered.free name (List.mem_append_left _ hname)) hoffered.length hn hwidth
    (fun x hx => hin x (List.mem_append_left _ hx)) (hin s (by simp)) (hin t (by simp))).bind ?_
  rintro ⟨atS, atT, same⟩ xs sc₂ hgrows₂ - ⟨hnew, hends⟩
  set K := J ∪ Set.Ico (sc₁.signals.length : ℤ) sc₂.signals.length with hK
  have hsub : sc₁.within J ⊆ sc₂.within K := Scene.within_subset hgrows₂ Set.subset_union_left
  have hmem : ∀ x ∈ [s, t] ++ [atS, atT, same], x ∈ sc₂.within K := by
    rw [List.forall_mem_append]
    refine ⟨fun x hx => hsub (hin x (List.mem_append_right _ hx)), fun x hx => ?_⟩
    exact Scene.within_subset (.refl sc₂) Set.subset_union_right (hnew x hx)
  have hfree : ∀ name ∈ mixNames, name ∉ sc₂.names := by
    intro name hname htaken
    rcases hends.names htaken with htaken | htaken
    · exact hoffered.free name (List.mem_append_right _ hname) htaken
    · have hother : ∀ name ∈ endNames, name ∉ mixNames := by decide
      exact hother name htaken hname
  have hle₂ := hgrows₂.length_le
  -- the entries of the output
  refine (succeeds_mix hp (hgrows₂.field.trans hf₁) hfree hoffered.length hoffered.outputs
    (by omega) hmem (fun x hx => hsub (hin x (List.mem_append_left _ hx)))
    (fun o ho => (hoffered.isOpen o ho).below hfit₁ hgrows₂ hends.toEffect)
    hoffered.numbers.nodup).mono ?_
  rintro _ ys sc' hgrows' - hmix
  have hle' := hgrows'.length_le
  have hsteps := hends.trans hmix subset_rfl fun _ _ _ => trivial
  have hgrows := hgrows₂.trans hgrows'
  have harrays : sc.arrays ≤ sc₂.arrays := (hgrows₁.trans hgrows₂).arrays
  rw [hoffered.scene] at hgrows hsteps
  refine ⟨arr, mark, s, t, outs, mark', hoffered.length, hoffered.interface.provides hblank hgrows
    (hsteps.imp (fun _ h => h) ?_) subset_rfl ?_ ?_⟩
  · rintro v ⟨⟨⟨i, x, hx, hvs, hvx⟩, ⟨j, y, hy, hvt, hvy⟩, hsame⟩, hmixed⟩
    refine ⟨i, j, hvs, hvt, exchanged_of_mixture hwidth.le_p (x := v x) (y := v y)
      (by simp [hoffered.length]) (by simp [hoffered.outputs]) (by simp [hx]) (by simp [hy]) ?_⟩
    rw [← hvs, ← hvt, ← hvx, ← hvy]
    exact hmixed hsame
  · rw [← hoffered.scene, hnumbers, flat_swapInputs]
    ext u
    simp [hoffered.length]
    omega
  · rintro k (hk | hk)
    · exact hk.elim
    · exact harrays.trans hk

/-- **A size is refused** whose positions are too wide to be compared. -/
theorem fails_swap (hp : sc.field.p.Prime) (hblank : sc.Blank) {n : ℕ} (hn : 1 ≤ n)
    (hwidth : ¬ Width sc.field (Decimal.bitLength n)) :
    (swap (.int n) : Build σ Unit).Fails sc (Refused (Decimal.bitLength n)) := by
  rw [swap_eq]
  refine (yields_checkBound hn).fails ((succeeds_swapInterface hblank n).fails ?_)
  rintro ⟨arr, s, t, outs⟩ _ sc₁ hgrows₁ - ⟨rfl, mark, mark', hoffered⟩
  have hfield : sc₁.field = sc.field := hgrows₁.field
  exact (fails_entryAt (hfield ▸ hp) (hoffered.free "atS" (by simp [endNames])) hn (hfield ▸ hwidth)
    arr s).bind.bind

/-- The template of an exchange. -/
def swapTemplate (n : Value) : Template σ := ⟨.of "Swap" [n], swap n⟩

end Gadget

open Gadget

/-! ## Circuits -/

namespace Circuit

variable {c : Circuit} {f : PrimeField}

/-- **A circuit exchanges two of `n` entries below `p`**: the outcome is the list with the
    entries at `s` and `t` exchanged, and there is none if one of these is no position. -/
def Exchanges (c : Circuit) (p n : ℕ) : Prop :=
  ∀ (xs : List ℕ) (mark : Mark) (s t : ℕ), xs.length = n → (∀ x ∈ xs, x < p) → s < p → t < p →
    c.Settles [("arr", .row xs mark), ("s", .single s), ("t", .single t)]
      ((exchanged xs s t).map fun ys => [("out", ys)])

theorem Realizes.exchanges {arr : List Signal} {mark : Mark} {s t : Signal} {outs : List Signal}
    {mark' : Mark} {n : ℕ} (hlen : arr.length = n)
    (h : c.Realizes f (swapInputs arr mark s t) [⟨"out", .output, .row outs mark'⟩]
      (fun v => (∃ i : ℕ, i < n ∧ v s = i) ∧ ∃ i : ℕ, i < n ∧ v t = i)
      fun v => ∃ i j : ℕ, v s = i ∧ v t = j ∧ exchanged (arr.map v) i j = some (outs.map v))
    (hn : n ≤ f.p) : c.Exchanges f.p n := by
  intro xs mark'' k l hxs hlt hk hl
  have hin {v : Signal → ZMod f.p} (hv : Given v (swapInputs arr mark s t)
      [("arr", .row xs mark''), ("s", .single k), ("t", .single l)]) :
      arr.map v = elements f.p xs ∧ v s = k ∧ v t = l := by
    simpa [Given, swapInputs, elements, Supply.numbers] using hv
  refine h.settles (.cons ⟨rfl, Supply.shaped_row (hxs.trans hlen.symm).symm _ _⟩
      (.cons ⟨rfl, .single _⟩ (.cons ⟨rfl, .single _⟩ .nil)))
    (fun d hd => h.mem_of_output hd) (by simp [swapInputs]; decide)
    (by simpa [Supply.numbers] using ⟨hlt, hk, hl⟩) (fun v hv hsome => ?_) fun v hv hp => ?_
  · obtain ⟨-, hvs, hvt⟩ := hin hv
    rw [Option.isSome_map] at hsome
    obtain ⟨hks, hls⟩ := exchanged_isSome.1 hsome
    exact ⟨⟨k, hxs ▸ hks, hvs⟩, l, hxs ▸ hls, hvt⟩
  · obtain ⟨i, j, hvi, hvj, hvout⟩ := hp
    obtain ⟨hvarr, hvs, hvt⟩ := hin hv
    rw [hvarr, elements, exchanged_map] at hvout
    obtain ⟨ys, hys, hvys⟩ := Option.map_eq_some_iff.1 hvout
    obtain ⟨hi, hj⟩ := exchanged_isSome.1 (Option.isSome_of_mem hys)
    have hcast {a b : ℕ} (ha : a < xs.length) (hb : b < f.p) (heq : (a : ZMod f.p) = b) : a = b :=
      CharP.natCast_injOn_Iio (ZMod f.p) f.p ((ha.trans_eq hxs).trans_le hn) hb heq
    obtain rfl := hcast hi hk (hvi.symm.trans hvs)
    obtain rfl := hcast hj hl (hvj.symm.trans hvt)
    refine ⟨[("out", ys)], by simp [hys], .cons ⟨rfl, ?_⟩ .nil⟩
    rw [Bus.flat_row, ← hvys]
    rfl

end Circuit

/-- **Exchanges are exact.**  An exchange in a row of `n` entries compiles exactly when the
    digits of `n` and one more fit below the prime, and its circuit exchanges.  Rows without
    entries and rows that are too long are refused. -/
theorem swap_exact {σ : Type} {p : ℕ} (hp : p.Prime) {settings : Settings}
    (hs : settings.prime = .int p) (host : σ) (public_ : List String) :
    (∀ n : ℕ, 1 ≤ n → Decimal.bitLength n + 1 < Decimal.bitLength p →
      (public_.Nodup → public_ ⊆ ["arr", "s", "t"] →
        ∃ c, (compile settings (swapTemplate (.int n)) host public_).result = .ok c) ∧
      ∀ c, (compile settings (swapTemplate (.int n)) host public_).result = .ok c →
        c.Exchanges p n) ∧
    (∀ n : ℕ, 1 ≤ n → ¬ Decimal.bitLength n + 1 < Decimal.bitLength p →
      ∃ e, (compile settings (swapTemplate (.int n)) host public_).result = .error e ∧
        Refused (Decimal.bitLength n) e) ∧
    ∀ n : ℤ, n < 1 →
      ∃ e, (compile settings (swapTemplate (.int n)) host public_).result = .error e ∧
        Refused n e := by
  let f : PrimeField := ⟨p, hp.two_le⟩
  have hf : settings.field = .ok f := Settings.field_of_prime hp hs
  refine ⟨fun n hn hlt => ?_, fun n hn hle => ?_, fun n hsmall => ?_⟩
  · have hwidth : Width f (Decimal.bitLength n) := (width_bitLength hn).2 hlt
    refine compile_realizes (f := f) hf (fun W hW _ => keeps_swap hW _) ?_ host public_
    refine (succeeds_swap (f := f) hp rfl rfl (Scene.blank_main f .warn) hn hwidth).mono ?_
    rintro _ sts sc' - - ⟨arr, mark, s, t, outs, mark', hlen, hprov⟩
    exact ⟨_, _, _, _, hprov, rfl, fun c hc _ => hc.exchanges hlen hwidth.le_p⟩
  · refine compile_of_fails hf ?_ public_
    exact fails_swap hp (Scene.blank_main f _) hn ((width_bitLength hn).not.2 hle)
  · refine compile_of_fails hf ?_ public_
    change (swap (.int n)).Fails _ _
    rw [swap_eq]
    exact (fails_checkBound hsmall).bind

/-- Below 97, two of five entries are exchanged, also if they are one. -/
theorem swap_exact_below_97 :
    Nat.Prime 97 ∧
    (∃ c, (compile { prime := .int 97 } (swapTemplate (.int 5)) () ["s", "t"]).result = .ok c ∧
      c.Settles [("arr", .row [10, 20, 30, 40, 50] []), ("s", .single 1), ("t", .single 3)]
        (some [("out", [10, 40, 30, 20, 50])]) ∧
      c.Settles [("arr", .row [10, 20, 30, 40, 50] []), ("s", .single 4), ("t", .single 4)]
        (some [("out", [10, 20, 30, 40, 50])]) ∧
      c.Settles [("arr", .row [10, 20, 30, 40, 50] []), ("s", .single 0), ("t", .single 5)]
        none) ∧
    ∃ e, (compile { prime := .int 97 } (swapTemplate (.int 0)) () []).result = .error e ∧
      Refused 0 e := by
  have hp : Nat.Prime 97 := by norm_num
  have hs : ({ prime := .int 97 } : Settings).prime = .int (97 : ℕ) := rfl
  refine ⟨hp, ?_, (swap_exact hp hs () []).2.2 0 (by decide)⟩
  obtain ⟨hok, hall⟩ := (swap_exact hp hs () ["s", "t"]).1 5 (by decide) (by decide +kernel)
  obtain ⟨c, hc⟩ := hok (by simp) (by simp)
  have hexchanges := hall c hc [10, 20, 30, 40, 50] []
  exact ⟨c, hc, hexchanges 1 3 rfl (by decide) (by decide) (by decide),
    hexchanges 4 4 rfl (by decide) (by decide) (by decide),
    hexchanges 0 5 rfl (by decide) (by decide) (by decide)⟩

end RankOne
