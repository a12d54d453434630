/-
  RankOne — what remains of two sides of an equality.

  An equality folds the products of its right side into those of its left side, each
  into the first that shares a factor with it.

  * `sharedFactor?_isSome_iff`: when a factor is shared;
  * `Expr.Meet f p q`: products that fit one row together;
  * `Expr.length_liveProducts_sub`: a difference of single products fits one row exactly
    if they meet;
  * `Draft.Skips`, `Draft.Adds`, `Draft.Refuses`: what an equality does to a draft, and
    `Draft.constrain_iff` when it does it.
-/
import RankOne.Proofs.Expr.Form
import RankOne.Proofs.Expr.Ratio

namespace RankOne

namespace Expr

variable {f : PrimeField}

/-! ## Products that meet -/

/-- Two products that fit one row together: one of them is zero, or a factor of one is
    a multiple of a factor of the other. -/
def Meet (f : PrimeField) (p q : Expr × Expr) : Prop :=
  (∃ x ∈ [p.1, p.2, q.1, q.2], x.isZero = true) ∨
    ∃ x ∈ [p.1, p.2], ∃ y ∈ [q.1, q.2], Proportional f y x

theorem Meet.symm [Fact f.p.Prime] {p q : Expr × Expr} (h : Meet f p q) : Meet f q p := by
  rcases h with ⟨x, hx, hzero⟩ | ⟨x, hx, y, hy, h⟩
  · refine Or.inl ⟨x, ?_, hzero⟩
    simp only [List.mem_cons, List.not_mem_nil, or_false] at hx ⊢
    tauto
  · exact Or.inr ⟨y, hy, x, hx, h.symm⟩

/-- A factor may be replaced by a multiple. -/
theorem Meet.of_proportional [Fact f.p.Prime] {p : Expr × Expr} {a a' b : Expr}
    (ha : a.Affine f) (ha' : a'.Affine f) (haa' : Proportional f a a') (h : Meet f p (a, b)) :
    Meet f p (a', b) := by
  rcases h with ⟨x, hx, hzero⟩ | ⟨x, hx, y, hy, h⟩
  · by_cases hxa : x = a
    · subst hxa
      exact Or.inl ⟨a', by simp, haa'.symm.isZero ha' ha hzero⟩
    · refine Or.inl ⟨x, ?_, hzero⟩
      simp only [List.mem_cons, List.not_mem_nil, or_false, hxa, false_or] at hx ⊢
      exact hx.imp_right (Or.imp_right Or.inr)
  · rcases List.mem_pair.1 hy with rfl | rfl
    · exact Or.inr ⟨x, hx, a', by simp, haa'.symm.trans h⟩
    · exact Or.inr ⟨x, hx, y, by simp, h⟩

theorem sharedFactor?_isSome_iff {x y a b : Expr} :
    (sharedFactor? x y a b).isSome ↔ ∃ s ∈ [x, y], ∃ n ∈ [a, b], (ratio? n s).isSome := by
  simp only [List.mem_cons, List.not_mem_nil, or_false, exists_eq_or_imp, exists_eq_left]
  rw [sharedFactor?_eq]
  rcases ratio? a x with _ | _ <;> rcases ratio? a y with _ | _ <;>
    rcases ratio? b x with _ | _ <;> rcases ratio? b y with _ | _ <;> simp

/-- A product folded into one other leaves a product, or two that share nothing. -/
theorem mergeProduct_singleton (plus : Expr → Expr → Expr) (x y a b : Expr) :
    (∃ p, mergeProduct plus a b [(x, y)] = [p]) ∧ (sharedFactor? x y a b).isSome ∨
      mergeProduct plus a b [(x, y)] = [(x, y), (a, b)] ∧ ¬ (sharedFactor? x y a b).isSome := by
  rw [mergeProduct_cons]
  rcases sharedFactor? x y a b with _ | ⟨s, o, e⟩
  · exact Or.inr ⟨rfl, by simp⟩
  · exact Or.inl ⟨⟨_, rfl⟩, rfl⟩

/-! ## Products of a difference -/

/-- A single product is scaled in its first factor. -/
theorem Canonical.products_scale {e a b : Expr} (he : e.Canonical f) (h : e.products = [(a, b)])
    (c : Int) :
    ((c : ZMod f.p) = 0 ∧ (e.scale c).products = []) ∨
      (c : ZMod f.p) ≠ 0 ∧ ∃ a', (e.scale c).products = [(a', b)] ∧ a'.Affine f ∧
        Multiple f c a' a := by
  obtain ⟨field, const, linear, products, degree⟩ := e
  obtain rfl : field = f := he.field
  obtain rfl : products = [(a, b)] := h
  obtain ⟨ha, -⟩ := he.factors _ List.mem_cons_self
  have hk : ((field.reduce c % field.p : ℕ) : ZMod field.p) = c := by
    rw [cast_mod, PrimeField.cast_reduce]
  rw [Expr.scale, Expr.scaleBy]
  split_ifs with h₀ h₁
  · refine Or.inl ⟨?_, rfl⟩
    rw [← hk, h₀, Nat.cast_zero]
  · have hone : (c : ZMod field.p) = 1 := by rw [← hk, h₁, Nat.cast_one]
    refine Or.inr ⟨?_, a, rfl, ha, fun v _ => by rw [hone, one_mul]⟩
    rw [← hk]
    exact cast_ne_zero (by rwa [Nat.mod_mod])
  · refine Or.inr ⟨?_, _, rfl, ha.scaleBy (by rwa [Nat.mod_mod]), ?_⟩
    · rw [← hk]
      exact cast_ne_zero (by rwa [Nat.mod_mod])
    · rw [← hk]
      exact ha.multiple_scaleBy _

theorem Canonical.products_neg [Fact f.p.Prime] {e a b : Expr} (he : e.Canonical f)
    (h : e.products = [(a, b)]) :
    ∃ a', e.neg.products = [(a', b)] ∧ a'.Affine f ∧ Proportional f a' a := by
  rcases he.products_scale h (-1) with ⟨hzero, -⟩ | ⟨hne, a', hneg, ha', hmul⟩
  · simp at hzero
  · exact ⟨a', hneg, ha', _, hne, hmul⟩

/-- A single product on the right is folded into the products on the left. -/
theorem products_add {a b : Expr} {x y : Expr} (hb : b.products = [(x, y)]) :
    ∃ n, (a.add b).products = mergeProduct (addAt n) x y a.products := by
  obtain ⟨field, const, linear, products, degree⟩ := b
  obtain rfl : products = [(x, y)] := hb
  refine ⟨max x.depth y.depth, ?_⟩
  have hdepth : (⟨field, const, linear, [(x, y)], degree⟩ : Expr).depth
      = max x.depth y.depth + 1 := by
    rw [depth, productsDepth, productsDepth, Nat.max_zero]
  rw [add, hdepth]
  rfl

theorem length_liveProducts_le (e : Expr) : e.liveProducts.length ≤ e.products.length :=
  List.length_filter_le _ _

/-- A row can be made of one product that is not zero, and not of two. -/
theorem toRow_or (e : Expr) :
    (e.liveProducts.length ≤ 1 ∧ ∃ a b c, e.toRow = .ok (a, b, c)) ∨
      (¬ e.liveProducts.length ≤ 1 ∧
        e.toRow = .error (.manyProducts e.text e.liveProducts.length)) := by
  unfold toRow
  rcases e.liveProducts with _ | ⟨p, _ | ⟨q, ps⟩⟩
  · exact Or.inl ⟨Nat.zero_le _, _, _, _, rfl⟩
  · exact Or.inl ⟨le_rfl, _, _, _, rfl⟩
  · exact Or.inr ⟨by simp, rfl⟩

/-- Two products stay apart in a row exactly if none of them is zero. -/
theorem length_liveProducts_pair {e x y a b : Expr} (h : e.products = [(x, y), (a, b)]) :
    e.liveProducts.length ≤ 1 ↔ ∃ z ∈ [x, y, a, b], z.isZero = true := by
  simp only [List.mem_cons, List.not_mem_nil, or_false, exists_eq_or_imp, exists_eq_left,
    liveProducts, h, List.filter_cons, List.filter_nil]
  rcases x.isZero <;> rcases y.isZero <;> rcases a.isZero <;> rcases b.isZero <;> simp

section
variable [hp : Fact f.p.Prime] {l r : Expr} (hl : l.Canonical f) (hr : r.Canonical f)
include hp hl hr

/-- The difference of two products. -/
theorem length_liveProducts_sub_single {x y a b : Expr} (hlp : l.products = [(x, y)])
    (hrp : r.products = [(a, b)]) :
    (l.sub r).liveProducts.length ≤ 1 ↔ Meet f (x, y) (a, b) := by
  obtain ⟨hx, hy⟩ := hl.factors (x, y) (by rw [hlp]; exact List.mem_cons_self)
  obtain ⟨ha, hb⟩ := hr.factors (a, b) (by rw [hrp]; exact List.mem_cons_self)
  obtain ⟨a', hneg, ha', haa'⟩ := hr.products_neg hrp
  obtain ⟨n, hsum⟩ := products_add (a := l) hneg
  rw [hlp] at hsum
  -- the new product has the factor `a'` in the place of `a`
  have hmeet : Meet f (x, y) (a, b) ↔ Meet f (x, y) (a', b) :=
    ⟨.of_proportional ha ha' haa'.symm, .of_proportional ha' ha haa'⟩
  have hratio {s t : Expr} (hs : s ∈ [x, y]) (ht : t ∈ [a', b]) :
      (ratio? t s).isSome ↔ s.isZero = false ∧ Proportional f t s := by
    have hsa : s.Affine f := by rcases List.mem_pair.1 hs with rfl | rfl <;> assumption
    have hta : t.Affine f := by rcases List.mem_pair.1 ht with rfl | rfl <;> assumption
    exact ratio?_isSome_iff hta hsa
  rw [hmeet]
  rcases mergeProduct_singleton (addAt n) x y a' b with ⟨⟨p, hone⟩, hshared⟩ | ⟨htwo, hapart⟩
  · have hlive : (l.sub r).liveProducts.length ≤ 1 := by
      refine (length_liveProducts_le _).trans ?_
      rw [Expr.sub, hsum, hone]
      exact le_rfl
    obtain ⟨s, hs, t, ht, hst⟩ := sharedFactor?_isSome_iff.1 hshared
    exact iff_of_true hlive (Or.inr ⟨s, hs, t, ht, ((hratio hs ht).1 hst).2⟩)
  · rw [Expr.sub, length_liveProducts_pair (hsum.trans htwo)]
    refine ⟨Or.inl, fun h => ?_⟩
    rcases h with h | ⟨s, hs, t, ht, hst⟩
    · exact h
    · -- proportional factors that were not shared are zero
      refine ⟨s, List.mem_append_left [a', b] hs, ?_⟩
      by_contra hzero
      rw [Bool.not_eq_true] at hzero
      exact hapart (sharedFactor?_isSome_iff.2 ⟨s, hs, t, ht, (hratio hs ht).2 ⟨hzero, hst⟩⟩)

/-- **The difference of sides with at most one product fits one row exactly if their
    products meet.** -/
theorem length_liveProducts_sub (hl₁ : l.products.length ≤ 1) (hr₁ : r.products.length ≤ 1) :
    (l.sub r).liveProducts.length ≤ 1 ↔ ∀ p ∈ l.products, ∀ q ∈ r.products, Meet f p q := by
  have hneg := length_products_neg r
  rcases hlp : l.products with _ | ⟨⟨x, y⟩, ls⟩
  · refine iff_of_true ((length_liveProducts_le _).trans ?_) (by simp)
    exact products_addAt_of_linear _ hlp (hneg.trans_le hr₁)
  rcases hrp : r.products with _ | ⟨⟨a, b⟩, rs⟩
  · refine iff_of_true ((length_liveProducts_le _).trans ?_) (by simp)
    rw [hrp, List.length_nil, List.length_eq_zero_iff] at hneg
    rw [Expr.sub, Expr.add, addAt_of_linear _ hneg]
    exact hl₁
  · obtain rfl : ls = [] := by
      rw [hlp, List.length_cons] at hl₁
      exact List.length_eq_zero_iff.1 (by omega)
    obtain rfl : rs = [] := by
      rw [hrp, List.length_cons] at hr₁
      exact List.length_eq_zero_iff.1 (by omega)
    simpa using length_liveProducts_sub_single hl hr hlp hrp

end

end Expr

/-! ## Statements -/

namespace Draft

variable (d : Draft) (l r : Expr) (origin : String)

/-- The equality adds the row. -/
def Adds (row : Row) : Prop :=
  d.constrain l r origin = .ok (some d.rows.size, { d with rows := d.rows.push row })

/-- The equality needs no row. -/
def Skips : Prop := d.constrain l r origin = .ok (none, d)

/-- The equality is refused for a cause of this class. -/
def Refuses (k : Error.Kind) : Prop := ∃ e, d.constrain l r origin = .error e ∧ e.kind = k

instance (k : Error.Kind) : Decidable (d.Refuses l r origin k) :=
  match h : d.constrain l r origin with
  | .ok _ => .isFalse (by simp [Refuses, h])
  | .error e => decidable_of_iff (e.kind = k) (by simp [Refuses, h])

variable {d l r origin} {f : PrimeField}

/-- The row that is added is that of the difference. -/
theorem Adds.toRow {row : Row} (h : d.Adds l r origin row) :
    (l.sub r).toRow = .ok (row.a, row.b, row.c) := by
  obtain ⟨-, -, -, ⟨-, -, hnone, -⟩ | ⟨-, -, a, b, c, hrow, hd⟩⟩ := constrain_eq_ok h
  · cases hnone
  · have hpush : d.rows.push row = d.rows.push ⟨a, b, c, origin⟩ := congrArg Draft.rows hd
    obtain rfl := Array.push_inj_right.1 hpush
    exact hrow

section
variable (d origin) (hl : l.Canonical f) (hr : r.Canonical f)
include hl hr

/-- The degrees and the fields of canonical sides are accepted. -/
theorem constrain_eq : d.constrain l r origin =
    if max l.degree r.degree = 0 then
      if (l.sub r).const ≠ 0 then .error (.contradiction l.text r.text) else .ok (none, d)
    else (l.sub r).toRow.map fun t =>
      (some d.rows.size, { d with rows := d.rows.push ⟨t.1, t.2.1, t.2.2, origin⟩ }) := by
  have hdegree {e : Expr} (he : e.Canonical f) : checkDegree e = .ok () := by
    have := he.degree
    exact if_neg (by omega)
  have hsub : combine "sub" [.expr l, .expr r] = .ok (l.sub r) :=
    combine_sub_ok (fun _ => rfl) (fun _ => rfl) rfl rfl (hl.field.trans hr.field.symm)
  have hconst : (l.sub r).isConstant = true ↔ max l.degree r.degree = 0 := by
    rw [Expr.isConstant, Expr.degree_sub, beq_iff_eq]
  rw [constrain, hdegree hl, hdegree hr, hsub]
  refine if_congr hconst rfl ?_
  rw [append]
  rcases (l.sub r).toRow with e | ⟨a, b, c⟩ <;> rfl

/-- **What an equality of canonical forms does**, by the degrees of its sides and the
    products of their difference. -/
theorem constrain_iff :
    (d.Skips l r origin ↔ max l.degree r.degree = 0 ∧ (l.sub r).const = 0) ∧
    (d.Refuses l r origin .unsatisfiable ↔
      max l.degree r.degree = 0 ∧ (l.sub r).const ≠ 0) ∧
    ((∃ row, d.Adds l r origin row) ↔
      max l.degree r.degree ≠ 0 ∧ (l.sub r).liveProducts.length ≤ 1) ∧
    (d.Refuses l r origin .degree ↔
      max l.degree r.degree ≠ 0 ∧ ¬ (l.sub r).liveProducts.length ≤ 1) := by
  simp only [Skips, Refuses, Adds, constrain_eq d origin hl hr]
  by_cases hdegree : max l.degree r.degree = 0
  · by_cases hconst : (l.sub r).const = 0
    · simp [hdegree, hconst]
    · simp [hdegree, hconst, Error.kind]
  · rcases Expr.toRow_or (l.sub r) with ⟨hlive, a, b, c, hrow⟩ | ⟨hlive, hrow⟩
    · simp [hdegree, hrow, hlive, Except.map]
    · simp [hdegree, hrow, hlive, Except.map, Error.kind]

end

end Draft

end RankOne
