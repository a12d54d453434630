/-
  RankOne — an expression and its row.

  * `Over.sub`, `toRow_over`: differences and rows stay over the field and the
    signals of their expressions;
  * `toRow_value`: `e` has the value of `A * B - C`;
  * `value_congr`: an expression whose row exists over linear forms depends on
    the signals that it lists.
-/
import RankOne.Proofs.Expr.Sum

namespace RankOne

/-! ## Sets of signals -/

namespace Signal

theorem mem_of_mem_insert {s t : Signal} : ∀ {ss : List Signal}, t ∈ s.insert ss → t = s ∨ t ∈ ss
  | [], h => by simpa [Signal.insert] using h
  | u :: ss, h => by
    rw [Signal.insert] at h
    split_ifs at h
    · exact List.mem_cons.1 h
    · exact Or.inr h
    · rcases List.mem_cons.1 h with rfl | h
      · exact Or.inr List.mem_cons_self
      · exact (mem_of_mem_insert h).imp id (List.mem_cons_of_mem _)

theorem exists_mem_insert_self (s : Signal) : ∀ ss : List Signal, ∃ t ∈ s.insert ss, t.uid = s.uid
  | [] => ⟨s, by simp [Signal.insert], rfl⟩
  | u :: ss => by
    rw [Signal.insert]
    split_ifs with _ h
    · exact ⟨s, List.mem_cons_self, rfl⟩
    · exact ⟨u, List.mem_cons_self, h.symm⟩
    · obtain ⟨t, ht, hu⟩ := exists_mem_insert_self s ss
      exact ⟨t, List.mem_cons_of_mem _ ht, hu⟩

theorem mem_insert_of_mem {s t : Signal} : ∀ {ss : List Signal}, t ∈ ss → t ∈ s.insert ss
  | u :: ss, h => by
    rw [Signal.insert]
    split_ifs
    · exact List.mem_cons_of_mem _ h
    · exact h
    · rcases List.mem_cons.1 h with rfl | h
      · exact List.mem_cons_self
      · exact List.mem_cons_of_mem _ (mem_insert_of_mem h)

theorem mem_of_mem_insertAll {t : Signal} {ss : List Signal} : ∀ {acc : List Signal},
    t ∈ ss.foldl (fun acc s => s.insert acc) acc → t ∈ acc ∨ t ∈ ss := by
  induction ss with
  | nil => exact fun h => Or.inl h
  | cons s ss ih =>
    intro acc h
    rcases ih h with h | h
    · rcases mem_of_mem_insert h with rfl | h
      · exact Or.inr List.mem_cons_self
      · exact Or.inl h
    · exact Or.inr (List.mem_cons_of_mem _ h)

theorem mem_of_mem_sorted {t : Signal} {ss : List Signal} (h : t ∈ Signal.sorted ss) : t ∈ ss :=
  (mem_of_mem_insertAll h).resolve_left List.not_mem_nil

/-- A set of signals holds each of them, up to the declaration number. -/
theorem exists_mem_sorted {s : Signal} {ss : List Signal} (h : s ∈ ss) :
    ∃ t ∈ Signal.sorted ss, t.uid = s.uid := by
  have haux : ∀ (ss acc : List Signal), (s ∈ ss ∨ ∃ t ∈ acc, t.uid = s.uid) →
      ∃ t ∈ ss.foldl (fun acc s => s.insert acc) acc, t.uid = s.uid := by
    intro ss
    induction ss with
    | nil => exact fun acc h => h.resolve_left List.not_mem_nil
    | cons u ss ih =>
      intro acc h
      refine ih _ ?_
      rcases h with h | ⟨t, ht, hu⟩
      · rcases List.mem_cons.1 h with rfl | h
        · exact Or.inr (exists_mem_insert_self s acc)
        · exact Or.inl h
      · exact Or.inr ⟨t, mem_insert_of_mem ht, hu⟩
  exact haux ss [] (Or.inl h)

end Signal

namespace Expr

variable {f : PrimeField} {S : Set Signal}

/-! ## Staying over a field and its signals -/

theorem over_zero : (zero f).Over f S := over_iff.2 ⟨rfl, by simp [zero, ofInt], trivial⟩

theorem over_ofSignal {s : Signal} (hf : s.field = f) (hs : s ∈ S) : (ofSignal s).Over f S :=
  over_iff.2 ⟨hf, by simpa [ofSignal] using hs, trivial⟩

mutual

theorem Over.scaleBy (k : ℕ) : ∀ (e : Expr), e.Over f S → (scaleBy k e).Over f S
  | ⟨field, const, linear, products, degree⟩, h => by
    have h' := h
    rw [Over] at h
    rw [Expr.scaleBy]
    split_ifs
    · rw [h.1]; exact over_zero
    · exact h'
    · refine over_iff.2 ⟨h.1, Terms.mem_reduce ?_,
        ProductsOver.scaleProducts (k % field.p) products h.2.2⟩
      intro t ht
      obtain ⟨u, hu, rfl⟩ := List.mem_map.1 ht
      exact h.2.1 u hu

theorem ProductsOver.scaleProducts (k : ℕ) : ∀ (ps : List (Expr × Expr)),
    ProductsOver f S ps → ProductsOver f S (scaleProducts k ps)
  | [], _ => trivial
  | (a, b) :: ps, h => by
    rw [ProductsOver] at h
    rw [Expr.scaleProducts, ProductsOver]
    exact ⟨Over.scaleBy k a h.1, h.2.1, ProductsOver.scaleProducts k ps h.2.2⟩

end

theorem Over.neg {e : Expr} (h : e.Over f S) : e.neg.Over f S := Over.scaleBy _ e h

theorem Over.addAt : ∀ (d : ℕ) {a b : Expr}, a.Over f S → b.Over f S → (addAt d a b).Over f S
  | 0, a, b, ha, hb => by
    rw [addAt_zero]
    refine over_iff.2 ⟨ha.field, Terms.mem_reduce (Terms.mem_merge ha.linear hb.linear), ?_⟩
    refine productsOver_iff.2 fun p hp => ?_
    rcases List.mem_append.1 hp with hp | hp
    · exact ha.products p hp
    · exact hb.products p hp
  | d + 1, a, b, ha, hb => by
    rw [addAt_succ]
    exact over_iff.2 ⟨ha.field, Terms.mem_reduce (Terms.mem_merge ha.linear hb.linear),
      productsOver_iff.2 (foldl_mergeProduct_induct (fun _ _ => Over.addAt d)
        (fun _ hr _ => Over.scaleBy _ _ hr) hb.products ha.products)⟩

theorem Over.sub {a b : Expr} (ha : a.Over f S) (hb : b.Over f S) : (a.sub b).Over f S :=
  Over.addAt _ ha hb.neg

/-! ## Rows -/

variable {v : Signal → ZMod f.p}

theorem value_of_isZero {e : Expr} (h : e.isZero = true) : e.value v = 0 := by
  simp only [isZero, Bool.and_eq_true, beq_iff_eq, List.isEmpty_iff] at h
  obtain ⟨⟨hc, hl⟩, hp⟩ := h
  rw [value_eq, hc, hl, hp, Terms.value, productsValue, Nat.cast_zero]; ring

/-- Products with a zero factor add nothing. -/
theorem productsValue_liveProducts (e : Expr) :
    productsValue v e.liveProducts = productsValue v e.products := by
  unfold liveProducts
  induction e.products with
  | nil => rfl
  | cons p ps ih =>
    obtain ⟨a, b⟩ := p
    by_cases ha : a.isZero = true
    · rw [List.filter_cons_of_neg (by simp [ha]), ih, productsValue, value_of_isZero ha]; ring
    · by_cases hb : b.isZero = true
      · rw [List.filter_cons_of_neg (by simp [hb]), ih, productsValue, value_of_isZero hb]; ring
      · rw [List.filter_cons_of_pos (by simp [ha, hb]), productsValue, ih, productsValue]

theorem Over.linearPart {e : Expr} (h : e.Over f S) : e.linearPart.Over f S :=
  over_iff.2 ⟨h.field, h.linear, trivial⟩

theorem value_linearPart (e : Expr) : e.linearPart.value v = e.const + e.linear.value v := by
  rw [linearPart, value_eq, productsValue, add_zero]

/-- The cases of a row: no live product, or one. -/
theorem toRow_cases {e a b c : Expr} (h : e.toRow = .ok (a, b, c)) :
    c = e.linearPart.neg ∧ ((e.liveProducts = [] ∧ a = zero e.field ∧ b = zero e.field) ∨
      e.liveProducts = [(a, b)]) := by
  unfold toRow at h
  split at h
  · next hl => cases h; exact ⟨rfl, Or.inl ⟨hl, rfl, rfl⟩⟩
  · next x y hl => cases h; exact ⟨rfl, Or.inr hl⟩
  · cases h

theorem toRow_over {e a b c : Expr} (h : e.Over f S) (hr : e.toRow = .ok (a, b, c)) :
    a.Over f S ∧ b.Over f S ∧ c.Over f S := by
  obtain ⟨rfl, ⟨-, rfl, rfl⟩ | hl⟩ := toRow_cases hr
  · rw [h.field]; exact ⟨over_zero, over_zero, h.linearPart.neg⟩
  · have hm : (a, b) ∈ e.liveProducts := by rw [hl]; exact List.mem_singleton_self _
    obtain ⟨ha, hb⟩ := h.products (a, b) (List.mem_of_mem_filter hm)
    exact ⟨ha, hb, h.linearPart.neg⟩

/-- **An expression has the value of `A * B - C` for its row.** -/
theorem toRow_value {e a b c : Expr} (h : e.Over f S) (hr : e.toRow = .ok (a, b, c)) :
    e.value v = a.value v * b.value v - c.value v := by
  obtain ⟨rfl, hab⟩ := toRow_cases hr
  rw [value_neg h.linearPart, value_linearPart, value_eq, ← productsValue_liveProducts]
  rcases hab with ⟨hl, rfl, rfl⟩ | hl
  · rw [hl, h.field, value_zero, productsValue]; ring
  · rw [hl, productsValue, productsValue]; ring

/-! ## Dependence on the listed signals -/

theorem mem_signals {e : Expr} {s : Signal} (h : (∃ t ∈ e.linear, t.1 = s) ∨
    ∃ p ∈ e.products, (∃ t ∈ p.1.linear, t.1 = s) ∨ ∃ t ∈ p.2.linear, t.1 = s) :
    ∃ t ∈ e.signals, t.uid = s.uid := by
  refine Signal.exists_mem_sorted (List.mem_append.2 ?_)
  rcases h with ⟨t, ht, rfl⟩ | ⟨⟨a, b⟩, hp, h⟩
  · exact Or.inl (List.mem_map.2 ⟨t, ht, rfl⟩)
  · refine Or.inr (List.mem_flatMap.2 ⟨(a, b), hp, List.mem_append.2 ?_⟩)
    exact h.imp List.mem_map.2 List.mem_map.2

/-- The listed signals are signals of the expression. -/
theorem Over.signals {e : Expr} (h : e.Over f S) : ∀ s ∈ e.signals, s ∈ S := by
  intro s hs
  rcases List.mem_append.1 (Signal.mem_of_mem_sorted hs) with hs | hs
  · obtain ⟨t, ht, rfl⟩ := List.mem_map.1 hs
    exact h.linear t ht
  · obtain ⟨p, hp, hs⟩ := List.mem_flatMap.1 hs
    obtain ⟨ha, hb⟩ := h.products p hp
    rcases List.mem_append.1 hs with hs | hs <;> obtain ⟨t, ht, rfl⟩ := List.mem_map.1 hs
    · exact ha.linear t ht
    · exact hb.linear t ht

/-- No factor holds a product of its own. -/
def Shallow (e : Expr) : Prop := ∀ p ∈ e.products, p.1.products = [] ∧ p.2.products = []

instance (e : Expr) : Decidable e.Shallow :=
  decidable_of_iff (∀ p ∈ e.products, p.1.products.isEmpty ∧ p.2.products.isEmpty)
    (forall₂_congr fun p _ => by rw [List.isEmpty_iff, List.isEmpty_iff])

/-- All signals of a shallow expression are listed. -/
theorem Shallow.over {e : Expr} (hs : e.Shallow) (h : e.Over f S) :
    e.Over f {s | s ∈ S ∧ ∃ t ∈ e.signals, t.uid = s.uid} := by
  refine over_iff.2 ⟨h.field, fun t ht => ⟨h.linear t ht, mem_signals (Or.inl ⟨t, ht, rfl⟩)⟩,
    productsOver_iff.2 fun p hp => ?_⟩
  obtain ⟨ha, hb⟩ := h.products p hp
  obtain ⟨hpa, hpb⟩ := hs p hp
  constructor
  · exact over_iff.2 ⟨ha.field, fun t ht =>
      ⟨ha.linear t ht, mem_signals (Or.inr ⟨p, hp, Or.inl ⟨t, ht, rfl⟩⟩)⟩, by rw [hpa]; trivial⟩
  · exact over_iff.2 ⟨hb.field, fun t ht =>
      ⟨hb.linear t ht, mem_signals (Or.inr ⟨p, hp, Or.inr ⟨t, ht, rfl⟩⟩)⟩, by rw [hpb]; trivial⟩

theorem liveProducts_sub_ofSignal (e : Expr) (s : Signal) :
    (e.sub (ofSignal s)).liveProducts = e.liveProducts := by
  rw [sub, add, addAt_of_linear _ (neg_ofSignal_products s)]; rfl

/-- An expression whose live products have linear factors depends on the signals
    that it lists. -/
theorem value_congr {e : Expr} {v' : Signal → ZMod f.p} (hv : ByUid v) (hv' : ByUid v')
    (hl : ∀ p ∈ e.liveProducts, p.1.products = [] ∧ p.2.products = [])
    (h : ∀ s ∈ e.signals, v s = v' s) : e.value v = e.value v' := by
  have hlisted {s : Signal} (hs : ∃ t ∈ e.signals, t.uid = s.uid) : v s = v' s := by
    obtain ⟨t, ht, hu⟩ := hs
    rw [← hv t s hu, h t ht, hv' t s hu]
  have hfactor (x : Expr) (hx : x.products = [])
      (hs : ∀ t ∈ x.linear, ∃ u ∈ e.signals, u.uid = t.1.uid) : x.value v = x.value v' := by
    rw [value_eq, value_eq v', hx, Terms.value_congr v fun t ht => hlisted (hs t ht)]; rfl
  have hproducts : ∀ ps : List (Expr × Expr), (∀ p ∈ ps, p ∈ e.liveProducts) →
      productsValue v ps = productsValue v' ps := by
    intro ps hps
    induction ps with
    | nil => rfl
    | cons p ps ih =>
      obtain ⟨a, b⟩ := p
      have hm := hps _ List.mem_cons_self
      have hp := List.mem_of_mem_filter hm
      rw [productsValue, productsValue, ih fun p hp => hps p (List.mem_cons_of_mem _ hp),
        hfactor a (hl _ hm).1 fun t ht => mem_signals (Or.inr ⟨_, hp, Or.inl ⟨t, ht, rfl⟩⟩),
        hfactor b (hl _ hm).2 fun t ht => mem_signals (Or.inr ⟨_, hp, Or.inr ⟨t, ht, rfl⟩⟩)]
  rw [value_eq, value_eq v', ← productsValue_liveProducts, ← productsValue_liveProducts (v := v'),
    hproducts _ fun _ h => h,
    Terms.value_congr v fun t ht => hlisted (mem_signals (Or.inl ⟨t, ht, rfl⟩))]

end Expr

end RankOne
