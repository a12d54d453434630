/-
  RankOne — sums of products that share a factor.

  A sum of `c₁ * (f * g₁) + … + cₘ * (f * gₘ)` could always be held in one row, as `f`
  times `c₁ * g₁ + … + cₘ * gₘ`.  Folding keeps to one product as long as this product
  keeps a multiple of `f` as one of its factors.  It can lose it where the shared factor
  is written second: a summand that cancels what was there is folded in by its other
  factor, and leaves that factor times zero.

  * `Expr.Contains`, `Expr.Holds`: a product as `f` times a form, and `Holds.merge` what
    folding two of them gives;
  * `Summand`, `Summand.total`: the summands and their sum from left to right;
  * `Summand.Erases`: a summand that takes the shared factor away;
  * `shared_factor_fits`: where no summand does so before the last, the sum fits one row.
-/
import RankOne.Proofs.Expr.Fold

namespace RankOne

namespace Expr

variable {f : PrimeField}

/-! ## Products with a multiple of a form -/

/-- `x * y` is `shared` times the form whose values are `G`, where `x` is the multiple
    of `shared`. -/
def Contains (f : PrimeField) (shared x y : Expr) (G : (Signal → ZMod f.p) → ZMod f.p) : Prop :=
  ∃ k : ZMod f.p, k ≠ 0 ∧ Multiple f k x shared ∧ ∀ v, ByUid v → G v = k * y.value v

/-- The form with these values is zero. -/
def Vanishes (f : PrimeField) (G : (Signal → ZMod f.p) → ZMod f.p) : Prop :=
  ∀ v, ByUid v → G v = 0

/-- One of the factors is the multiple of `shared`. -/
def Holds (f : PrimeField) (shared : Expr) (p : Expr × Expr)
    (G : (Signal → ZMod f.p) → ZMod f.p) : Prop :=
  Contains f shared p.1 p.2 G ∨ Contains f shared p.2 p.1 G

section
variable {shared x y a b s o n r z : Expr} {G H : (Signal → ZMod f.p) → ZMod f.p} {m : ZMod f.p}

theorem Contains.proportional (h : Contains f shared x y G) : Proportional f x shared := by
  obtain ⟨k, hk, h, -⟩ := h
  exact ⟨k, hk, h⟩

/-- If both factors are multiples, any of them may be taken as the one. -/
theorem Contains.swap (h : Contains f shared x y G) (hy : Proportional f y shared) :
    Contains f shared y x G := by
  obtain ⟨k, -, hx, hG⟩ := h
  obtain ⟨l, hl, hy⟩ := hy
  refine ⟨l, hl, hy, fun v hv => ?_⟩
  rw [hG v hv, hx v hv, hy v hv]
  ring

theorem Contains.congr (h : Contains f shared x y G) (hGH : ∀ v, ByUid v → G v = H v) :
    Contains f shared x y H := by
  obtain ⟨k, hk, hx, hG⟩ := h
  exact ⟨k, hk, hx, fun v hv => (hGH v hv).symm.trans (hG v hv)⟩

theorem Holds.congr (h : Holds f shared (x, y) G) (hGH : ∀ v, ByUid v → G v = H v) :
    Holds f shared (x, y) H := h.imp (·.congr hGH) (·.congr hGH)

theorem Holds.symm (h : Holds f shared (x, y) G) : Holds f shared (y, x) G := Or.symm h

theorem Holds.contains (h : Holds f shared (x, y) G) (hx : Proportional f x shared) :
    Contains f shared x y G := h.elim id fun h => h.swap hx

theorem Holds.contains_other (h : Holds f shared (x, y) G) (hx : ¬ Proportional f x shared) :
    Contains f shared y x G := h.resolve_left fun h => hx h.proportional

theorem exists_value_ne_zero (h : shared.Affine f) (hne : shared.isZero = false) :
    ∃ v : Signal → ZMod f.p, ByUid v ∧ shared.value v ≠ 0 := by
  by_contra hall
  push Not at hall
  rw [h.isZero_iff.2 hall] at hne
  cases hne

/-- A new product folded into one by its multiples of `shared`. -/
theorem Contains.merge [Fact f.p.Prime] (hshared : shared.Affine f) (hne : shared.isZero = false)
    (h : Contains f shared s o G) (h' : Contains f shared n r H) (hn : Multiple f m n s)
    (hz : ∀ v, ByUid v → z.value v = o.value v + m * r.value v) :
    Contains f shared s z (G + H) := by
  obtain ⟨k, hk, hs, hG⟩ := h
  obtain ⟨l, -, hl, hH⟩ := h'
  -- both scalars of the new factor are the same, as `shared` does not vanish
  have hlk : l = m * k := by
    obtain ⟨v, hv, hv₀⟩ := exists_value_ne_zero hshared hne
    refine mul_right_cancel₀ hv₀ ?_
    rw [← hl v hv, hn v hv, hs v hv, mul_assoc]
  refine ⟨k, hk, hs, fun v hv => ?_⟩
  rw [Pi.add_apply, hG v hv, hH v hv, hz v hv, hlk]
  ring

/-- Both products have their multiples of `shared` beside the factor they are folded by. -/
theorem Contains.merge_other (h : Contains f shared o s G) (h' : Contains f shared r n H)
    (hn : Multiple f m n s) (hz : ∀ v, ByUid v → z.value v = o.value v + m * r.value v) :
    Contains f shared z s (G + H) ∨ Vanishes f (G + H) := by
  obtain ⟨k, hk, ho, hG⟩ := h
  obtain ⟨l, -, hr, hH⟩ := h'
  have hsum (v : Signal → ZMod f.p) (hv : ByUid v) :
      (G + H) v = (k + m * l) * s.value v := by
    rw [Pi.add_apply, hG v hv, hH v hv, hn v hv]
    ring
  by_cases hkl : k + m * l = 0
  · refine Or.inr fun v hv => ?_
    rw [hsum v hv, hkl, zero_mul]
  · refine Or.inl ⟨k + m * l, hkl, fun v hv => ?_, hsum⟩
    rw [hz v hv, ho v hv, hr v hv]
    ring

theorem Contains.ne_zero [Fact f.p.Prime] (h : Contains f shared x y G) (hy : y.Affine f)
    (hne : y.isZero = false) : ¬ Vanishes f G := by
  obtain ⟨k, hk, -, hG⟩ := h
  obtain ⟨v, hv, hv₀⟩ := exists_value_ne_zero hy hne
  exact fun hall => mul_ne_zero hk hv₀ ((hG v hv).symm.trans (hall v hv))

/-- The first factor of a new product is compared before the second. -/
theorem ratio?_of_sharedFactor? {e u : Expr} (hu : u ∈ [x, y]) (h : (ratio? a u).isSome)
    (hs : sharedFactor? x y a b = some (s, o, e)) : ∃ k, ratio? a s = some k := by
  rw [sharedFactor?_eq] at hs
  rcases hax : ratio? a x with _ | k
  · rcases List.mem_pair.1 hu with rfl | rfl
    · rw [hax] at h
      cases h
    · obtain ⟨k, hk⟩ := Option.isSome_iff_exists.1 h
      rw [hax, hk] at hs
      cases hs
      exact ⟨k, hk⟩
  · rw [hax] at hs
    cases hs
    exact ⟨k, hax⟩

section
variable [hp : Fact f.p.Prime] (hshared : shared.Affine f) (hne : shared.isZero = false)
include hp hshared hne

theorem Proportional.isZero_eq_false (hx : x.Affine f) (h : Proportional f x shared) :
    x.isZero = false := by
  by_contra hzero
  rw [h.symm.isZero hshared hx (by simpa using hzero)] at hne
  cases hne

/-- **A fold by any of the factors** keeps a multiple of `shared`, unless the forms beside
    it cancel; then the product was folded by other factors. -/
theorem Holds.fold {k : ZMod f.p} (hs : s.Affine f) (hs₀ : s.isZero = false) (hk : k ≠ 0)
    (hns : Multiple f k n s) (hz : ∀ v, ByUid v → z.value v = o.value v + k * r.value v)
    (h : Holds f shared (s, o) G) (h' : Holds f shared (n, r) H) :
    Holds f shared (s, z) (G + H) ∨
      Vanishes f (G + H) ∧ ¬ Vanishes f G ∧ ¬ Proportional f s shared ∧
        Contains f shared r n H := by
  have hnprop : Proportional f n s := ⟨k, hk, hns⟩
  by_cases hss : Proportional f s shared
  · exact Or.inl (Or.inl ((h.contains hss).merge hshared hne
      (h'.contains (hnprop.trans hss)) hns hz))
  · have hos := h.contains_other hss
    have hrn := h'.contains_other fun hn => hss (hnprop.symm.trans hn)
    rcases hos.merge_other hrn hns hz with hq | hvanish
    · exact Or.inl (Or.inr hq)
    · exact Or.inr ⟨hvanish, hos.ne_zero hs hs₀, hss, hrn⟩

variable (hx : x.Affine f) (hy : y.Affine f) (ha : a.Affine f) (hb : b.Affine f)
include hx hy ha hb

/-- Two products that hold `shared` have a factor in common. -/
theorem Holds.exists_shared (h : Holds f shared (x, y) G) (h' : Holds f shared (a, b) H) :
    ∃ s o e, sharedFactor? x y a b = some (s, o, e) ∧
      (Proportional f a shared → Proportional f s shared) := by
  have hratio {u w : Expr} (hu : u.Affine f) (hw : w.Affine f) (hus : Proportional f u shared)
      (hws : Proportional f w shared) : (ratio? w u).isSome :=
    (ratio?_isSome_iff hw hu).2
      ⟨hus.isZero_eq_false hshared hne hu, hws.trans hus.symm⟩
  obtain ⟨u, hu, hua, hus⟩ : ∃ u ∈ [x, y], u.Affine f ∧ Proportional f u shared := by
    rcases h with h | h
    · exact ⟨x, by simp, hx, h.proportional⟩
    · exact ⟨y, by simp, hy, h.proportional⟩
  obtain ⟨w, hw, hwa, hws⟩ : ∃ w ∈ [a, b], w.Affine f ∧ Proportional f w shared := by
    rcases h' with h | h
    · exact ⟨a, by simp, ha, h.proportional⟩
    · exact ⟨b, by simp, hb, h.proportional⟩
  obtain ⟨⟨s, o, e⟩, hs⟩ := Option.isSome_iff_exists.1
    (sharedFactor?_isSome_iff.2 ⟨u, hu, w, hw, hratio hua hwa hus hws⟩)
  refine ⟨s, o, e, hs, fun has => ?_⟩
  obtain ⟨k, hk⟩ := ratio?_of_sharedFactor? hu (hratio hua ha hus has) hs
  have hk := multiple_of_ratio? ha (sharedFactor?_affine hx hy ha hb hs).1 hk
  exact Proportional.trans (Proportional.symm ⟨k, hk⟩) has

/-- **Two products that hold `shared` fold into one.**  It holds `shared` as well, unless
    the forms beside it cancel; this takes a new product whose first factor is no multiple
    of `shared`, and whose form is none. -/
theorem Holds.merge (h : Holds f shared (x, y) G) (h' : Holds f shared (a, b) H) (d : ℕ) :
    ∃ q, mergeProduct (addAt d) a b [(x, y)] = [q] ∧
      (Holds f shared q (G + H) ∨
        Vanishes f (G + H) ∧ ¬ Vanishes f G ∧ ¬ Proportional f a shared ∧
        ∀ e, (∃ c : ZMod f.p, c ≠ 0 ∧ ∀ v, ByUid v → H v = c * e.value v) →
          ¬ Proportional f e shared) := by
  obtain ⟨s, o, e, hshare, hfirst⟩ := h.exists_shared hshared hne hx hy ha hb h'
  obtain ⟨hs, ho, he⟩ := sharedFactor?_affine hx hy ha hb hshare
  refine ⟨(s, addAt d o e), by rw [mergeProduct_cons, hshare], ?_⟩
  obtain ⟨n, r, k, hso, hnr, hk, rfl⟩ := sharedFactor?_cases hshare
  have hn : n.Affine f := by rcases hnr with ⟨rfl, -⟩ | ⟨rfl, -⟩ <;> assumption
  have hr : r.Affine f := by rcases hnr with ⟨-, rfl⟩ | ⟨-, rfl⟩ <;> assumption
  obtain ⟨hk₀, hns⟩ := multiple_of_ratio? hn hs hk
  have hz (v : Signal → ZMod f.p) (hv : ByUid v) :
      (addAt d o (scaleBy k r)).value v = o.value v + k * r.value v := by
    rw [(value_addAt hv d ho.isLinear.quadratic he.isLinear.quadratic).2,
      hr.multiple_scaleBy k v hv]
  have hold : Holds f shared (s, o) G := by
    rcases hso with ⟨rfl, rfl⟩ | ⟨rfl, rfl⟩
    exacts [h, h.symm]
  have hnew : Holds f shared (n, r) H := by
    rcases hnr with ⟨rfl, rfl⟩ | ⟨rfl, rfl⟩
    exacts [h', h'.symm]
  rcases hold.fold hshared hne hs (isZero_of_ratio? hk) hk₀ hns hz hnew with
    hq | ⟨hvanish, hG, hss, l, hl, -, hH⟩
  · exact Or.inl hq
  refine Or.inr ⟨hvanish, hG, fun has => hss (hfirst has), fun e he hes => ?_⟩
  obtain ⟨c, hc, hec⟩ := he
  -- the form of the new product is a multiple of `n`, and so of `s`
  have hne : Proportional f n e := ⟨l⁻¹ * c, mul_ne_zero (inv_ne_zero hl) hc, fun v hv => by
    rw [mul_assoc, ← hec v hv, hH v hv, inv_mul_cancel_left₀ hl]⟩
  exact hss (Proportional.trans (Proportional.symm ⟨k, hk₀, hns⟩) (hne.trans hes))

end

end

/-- The list of products is empty or one product with a multiple of `shared`. -/
def Held (f : PrimeField) (shared : Expr) (ps : List (Expr × Expr))
    (G : (Signal → ZMod f.p) → ZMod f.p) : Prop :=
  ps = [] ∧ Vanishes f G ∨ ∃ x y, ps = [(x, y)] ∧ Holds f shared (x, y) G

theorem Held.congr {shared : Expr} {ps : List (Expr × Expr)}
    {G H : (Signal → ZMod f.p) → ZMod f.p} (h : Held f shared ps G)
    (hGH : ∀ v, ByUid v → G v = H v) : Held f shared ps H := by
  rcases h with ⟨hnil, hzero⟩ | ⟨x, y, hone, h⟩
  · exact Or.inl ⟨hnil, fun v hv => (hGH v hv).symm.trans (hzero v hv)⟩
  · exact Or.inr ⟨x, y, hone, h.congr hGH⟩

theorem Held.length_le {shared : Expr} {ps : List (Expr × Expr)}
    {G : (Signal → ZMod f.p) → ZMod f.p} (h : Held f shared ps G) : ps.length ≤ 1 := by
  rcases h with ⟨rfl, -⟩ | ⟨x, y, rfl, -⟩
  exacts [Nat.zero_le _, le_rfl]

theorem products_scale_of_nil {e : Expr} (he : e.products = []) (k : Int) :
    (e.scale k).products = [] := by
  obtain ⟨field, const, linear, products, degree⟩ := e
  obtain rfl : products = [] := he
  rw [Expr.scale, Expr.scaleBy]
  split_ifs <;> rfl

/-- The product of two linear forms: a multiple of one of them, or one product. -/
theorem Canonical.mul_cases {a b : Expr} (ha : a.Canonical f) (hb : b.Canonical f)
    (hda : a.degree ≤ 1) (hdb : b.degree ≤ 1) :
    ∃ e, a.mul b = .ok e ∧
      ((a.degree = 0 ∨ b.degree = 0) ∧ e.products = [] ∨
        a.degree = 1 ∧ b.degree = 1 ∧ e.products = [(a, b)]) := by
  have hda₀ := ha.degree
  have hdb₀ := hb.degree
  unfold Expr.mul
  split_ifs with h₁ h₂ h₃
  · exact ⟨_, rfl, Or.inl ⟨Or.inl h₁, products_scale_of_nil (hb.products hdb) _⟩⟩
  · exact ⟨_, rfl, Or.inl ⟨Or.inr h₂, products_scale_of_nil (ha.products hda) _⟩⟩
  · omega
  · exact ⟨_, rfl, Or.inr ⟨by omega, by omega, rfl⟩⟩

end Expr

/-- Two operands over one field are combined. -/
theorem combine_two {name : String} {op : Operation} {f : PrimeField} {l r : Operand}
    {x y e : Expr} (hop : Operation.ofName? name = some op) (hl : l.toExpr (some f) = .ok x)
    (hr : r.toExpr (some f) = .ok y) (hlf : l.field? = none ∨ l.field? = some f)
    (hrf : r.field? = some f) (he : op.apply [x, y] = .ok e) : combine name [l, r] = .ok e := by
  have hcommon : Operand.commonField [l, r] = .ok (some f) := by
    rcases hlf with hlf | hlf
    · simp only [Operand.commonField, List.foldlM_cons, List.foldlM_nil, hlf, hrf]
      rfl
    · simp only [Operand.commonField, List.foldlM_cons, List.foldlM_nil, hlf, hrf]
      exact bind_eq_ok.2 ⟨some f, rfl, bind_eq_ok.2 ⟨some f, if_pos rfl, rfl⟩⟩
  refine combine_eq_ok.2 ⟨f, [x, y], op, hcommon, ?_, hop, he⟩
  rw [mapM_eq_ok]
  exact .cons hl (.cons hr .nil)

/-- The multiple of a product of two linear forms: no product, or one that is scaled in
    its first factor. -/
theorem combine_scaled {f : PrimeField} {a b : Expr} (ha : a.Canonical f) (hb : b.Canonical f)
    (hda : a.degree ≤ 1) (hdb : b.degree ≤ 1) (c : Int) :
    ∃ p e, combine "product" [.expr a, .expr b] = .ok p ∧
      combine "product" [.const c, .expr p] = .ok e ∧ e.Canonical f ∧
      (∀ v, e.value v = (c : ZMod f.p) * (a.value v * b.value v)) ∧
      ((a.degree = 0 ∨ b.degree = 0 ∨ (c : ZMod f.p) = 0) ∧ e.products = [] ∨
        a.degree = 1 ∧ b.degree = 1 ∧ (c : ZMod f.p) ≠ 0 ∧
          ∃ a', e.products = [(a', b)] ∧ Expr.Multiple f c a' a) := by
  obtain ⟨p, hp, hcases⟩ := ha.mul_cases hb hda hdb
  have hcanonical := ha.mul hb hp
  -- the scalar is reduced before the product is scaled
  let k : Int := ((Expr.ofInt f c).const : ℕ)
  have hk : (k : ZMod f.p) = c := by
    change (((f.reduce c : ℕ) : Int) : ZMod f.p) = c
    rw [Int.cast_natCast, f.cast_reduce]
  have hproduct : Operation.ofName? "product" = some .product := rfl
  refine ⟨p, p.scale k, ?_, ?_, hcanonical.scale k, fun v => ?_, ?_⟩
  · refine combine_two (f := f) hproduct rfl rfl (Or.inr ?_) ?_ ?_
    · rw [Operand.field?, ha.field]
    · rw [Operand.field?, hb.field]
    · exact bind_eq_ok.2 ⟨p, hp, rfl⟩
  · refine combine_two (f := f) hproduct rfl rfl (Or.inl rfl) ?_ ?_
    · rw [Operand.field?, hcanonical.field]
    · exact bind_eq_ok.2 ⟨_, if_pos rfl, rfl⟩
  · rw [hcanonical.value_scale, ha.value_mul hb hp, hk]
  · rcases hcases with ⟨hdegree, hnil⟩ | ⟨hda₁, hdb₁, hone⟩
    · exact Or.inl ⟨hdegree.imp_right Or.inl, Expr.products_scale_of_nil hnil k⟩
    · rcases hcanonical.products_scale hone k with ⟨hzero, hnil⟩ | ⟨hne, a', hone', -, hmul⟩
      · exact Or.inl ⟨Or.inr (Or.inr (hk ▸ hzero)), hnil⟩
      · exact Or.inr ⟨hda₁, hdb₁, hk ▸ hne, a', hone', hk ▸ hmul⟩

/-! ## Summands -/

/-- A summand `c * (f * g)`, or `c * (g * f)` with the shared factor second. -/
structure Summand where
  scalar : Int
  other : Expr
  second : Bool

namespace Summand

/-- The summand as an expression. -/
def expr (shared : Expr) (t : Summand) : Except Error Expr := do
  let factors := if t.second then [.expr t.other, .expr shared] else [.expr shared, .expr t.other]
  combine "product" [.const t.scalar, .expr (← combine "product" factors)]

/-- The sum from left to right. -/
def total (shared : Expr) : List Summand → Except Error Expr
  | [] => .error (.noOperand "sum")
  | t :: ts => do
    ts.foldlM (fun acc t => do combine "sum" [.expr acc, .expr (← t.expr shared)])
      (← t.expr shared)

variable (f : PrimeField) (shared : Expr)

/-- The value of the form that the summand brings beside the shared factor; a constant
    factor makes no product. -/
def weight (t : Summand) (v : Signal → ZMod f.p) : ZMod f.p :=
  if shared.degree = 0 ∨ t.other.degree = 0 then 0 else t.scalar * t.other.value v

/-- The values of the form beside the shared factor. -/
def beside (ts : List Summand) (v : Signal → ZMod f.p) : ZMod f.p :=
  (ts.map fun t => t.weight f shared v).sum

/-- A summand with the shared factor second that cancels a form, and is no multiple of the
    shared factor. -/
def Erases (pre : List Summand) (t : Summand) : Prop :=
  t.second = true ∧ ¬ Expr.Proportional f t.other shared ∧
    ¬ Expr.Vanishes f (beside f shared pre) ∧ Expr.Vanishes f (beside f shared (pre ++ [t]))

/-- A summand and its expression. -/
structure Part (t : Summand) (e : Expr) : Prop where
  canonical : e.Canonical f
  value : ∀ v, e.value v = (t.scalar : ZMod f.p) * (shared.value v * t.other.value v)
  products : e.products = [] ∧ Expr.Vanishes f (t.weight f shared) ∨
    ∃ a b, e.products = [(a, b)] ∧ shared.Affine f ∧
      Expr.Holds f shared (a, b) (t.weight f shared) ∧
      (t.second = false → Expr.Proportional f a shared) ∧
      ∃ c : ZMod f.p, c ≠ 0 ∧ ∀ v, ByUid v → t.weight f shared v = c * t.other.value v

variable {f shared}

theorem beside_append (pre : List Summand) (t : Summand) :
    beside f shared (pre ++ [t]) = beside f shared pre + t.weight f shared := by
  funext v
  simp [beside]

section
variable [Fact f.p.Prime] (hs : shared.Canonical f) (hd : shared.degree ≤ 1)
include hs hd

theorem exists_part {t : Summand} (ho : t.other.Canonical f) (hod : t.other.degree ≤ 1) :
    ∃ e, t.expr shared = .ok e ∧ t.Part f shared e := by
  have hzero (h : shared.degree = 0 ∨ t.other.degree = 0 ∨ (t.scalar : ZMod f.p) = 0) :
      Expr.Vanishes f (t.weight f shared) := fun v _ => by
    rw [weight]
    split_ifs with h₀
    · rfl
    · rcases h with h | h | h
      · exact absurd (Or.inl h) h₀
      · exact absurd (Or.inr h) h₀
      · rw [h, zero_mul]
  have hweight (h₁ : shared.degree = 1) (h₂ : t.other.degree = 1) (v : Signal → ZMod f.p) :
      t.weight f shared v = t.scalar * t.other.value v := by
    refine if_neg ?_
    omega
  rcases ht : t.second
  · obtain ⟨p, e, hp, he, hcanonical, hvalue, hcases⟩ := combine_scaled hs ho hd hod t.scalar
    refine ⟨e, bind_eq_ok.2 ⟨p, by rw [ht]; exact hp, he⟩, hcanonical, hvalue, ?_⟩
    rcases hcases with ⟨h, hnil⟩ | ⟨h₁, h₂, hc, a', hone, hmul⟩
    · exact Or.inl ⟨hnil, hzero h⟩
    · exact Or.inr ⟨a', t.other, hone, hs.affine h₁,
        Or.inl ⟨t.scalar, hc, hmul, fun v _ => hweight h₁ h₂ v⟩, fun _ => ⟨_, hc, hmul⟩,
        t.scalar, hc, fun v _ => hweight h₁ h₂ v⟩
  · obtain ⟨p, e, hp, he, hcanonical, hvalue, hcases⟩ := combine_scaled ho hs hod hd t.scalar
    refine ⟨e, bind_eq_ok.2 ⟨p, by rw [ht]; exact hp, he⟩, hcanonical, fun v => ?_, ?_⟩
    · rw [hvalue, mul_comm (t.other.value v)]
    rcases hcases with ⟨h, hnil⟩ | ⟨h₁, h₂, hc, a', hone, hmul⟩
    · exact Or.inl ⟨hnil, hzero (by tauto)⟩
    · refine Or.inr ⟨a', shared, hone, hs.affine h₂,
        Or.inr ⟨1, one_ne_zero, fun v _ => (one_mul _).symm, fun v hv => ?_⟩, ?_,
        t.scalar, hc, fun v _ => hweight h₂ h₁ v⟩
      · rw [hweight h₂ h₁, hmul v hv, one_mul]
      · rw [ht]
        exact fun h => absurd h (by decide)

end

/-! ## The run of a sum -/

section
variable [hp : Fact f.p.Prime] (hne : shared.isZero = false)
include hp hne

/-- **One summand**: there is still one product at most, and if nothing was erased it holds
    the shared factor. -/
theorem Part.add {t : Summand} {e acc : Expr} {pre : List Summand} (ht : t.Part f shared e)
    (hacc : acc.Canonical f) (h : Expr.Held f shared acc.products (beside f shared pre)) :
    (acc.add e).products.length ≤ 1 ∧ (¬ Erases f shared pre t →
      Expr.Held f shared (acc.add e).products (beside f shared (pre ++ [t]))) := by
  rw [beside_append]
  rcases ht.products with ⟨hnil, hweight⟩ | ⟨a, b, hone, hshared, hholds, hfirst, hform⟩
  · -- the summand brings no product
    have hsame : (acc.add e).products = acc.products := by
      rw [Expr.add, Expr.addAt_of_linear _ hnil]
      rfl
    rw [hsame]
    refine ⟨h.length_le, fun _ => h.congr fun v hv => ?_⟩
    rw [Pi.add_apply, hweight v hv, add_zero]
  · obtain ⟨d, hadd⟩ := Expr.products_add (a := acc) hone
    rcases h with ⟨hnil, hzero⟩ | ⟨x, y, hxy, hxyholds⟩
    · rw [hadd, hnil]
      refine ⟨le_rfl, fun _ => Or.inr ⟨a, b, rfl, hholds.congr fun v hv => ?_⟩⟩
      rw [Pi.add_apply, hzero v hv, zero_add]
    · obtain ⟨ha, hb⟩ := ht.canonical.factors (a, b) (by rw [hone]; exact List.mem_cons_self)
      obtain ⟨hx, hy⟩ := hacc.factors (x, y) (by rw [hxy]; exact List.mem_cons_self)
      obtain ⟨q, hq, hcases⟩ := hxyholds.merge hshared hne hx hy ha hb hholds d
      rw [hadd, hxy, hq]
      refine ⟨le_rfl, fun hkept => Or.inr ⟨q.1, q.2, rfl, hcases.resolve_right ?_⟩⟩
      rintro ⟨hsum, hpre, hfirst', hform'⟩
      refine hkept ⟨?_, hform' _ hform, hpre, by rwa [beside_append]⟩
      by_contra hsecond
      exact hfirst' (hfirst (by simpa using hsecond))

variable (hs : shared.Canonical f) (hd : shared.degree ≤ 1)
include hs hd

/-- **The summands that follow**, from left to right. -/
theorem exists_foldlM {ts : List Summand}
    (hts : ∀ t ∈ ts, t.other.Canonical f ∧ t.other.degree ≤ 1) :
    ∀ {pre : List Summand} {acc : Expr}, acc.Canonical f →
      Expr.Held f shared acc.products (beside f shared pre) →
      (∀ mid t post, ts = mid ++ t :: post → post ≠ [] → ¬ Erases f shared (pre ++ mid) t) →
      ∃ e, ts.foldlM (fun acc t => do combine "sum" [.expr acc, .expr (← t.expr shared)]) acc
          = .ok e ∧ e.Canonical f ∧ e.products.length ≤ 1 ∧
        ∀ v, ByUid v → e.value v = acc.value v +
          (ts.map fun t => (t.scalar : ZMod f.p) * (shared.value v * t.other.value v)).sum := by
  induction ts with
  | nil => exact fun hacc h _ => ⟨_, rfl, hacc, h.length_le, fun v _ => by simp⟩
  | cons t ts ih =>
    intro pre acc hacc h hkept
    rw [List.forall_mem_cons] at hts
    obtain ⟨e, he, hpart⟩ := exists_part hs hd hts.1.1 hts.1.2
    obtain ⟨hlength, hheld⟩ := hpart.add hne hacc h
    have hadd := hacc.add hpart.canonical
    have hvalue (v : Signal → ZMod f.p) (hv : ByUid v) :
        (acc.add e).value v = acc.value v + t.scalar * (shared.value v * t.other.value v) := by
      rw [Expr.add, (Expr.value_addAt hv _ hacc.isQuadratic hpart.canonical.isQuadratic).2,
        hpart.value]
    have hsum : combine "sum" [.expr acc, .expr e] = .ok (acc.add e) := by
      have hop : Operation.ofName? "sum" = some .sum := rfl
      refine combine_two (f := f) hop rfl rfl (Or.inr ?_) ?_ rfl
      · rw [Operand.field?, hacc.field]
      · rw [Operand.field?, hpart.canonical.field]
    have hstep : (do combine "sum" [.expr acc, .expr (← t.expr shared)]) = .ok (acc.add e) :=
      bind_eq_ok.2 ⟨e, he, hsum⟩
    by_cases hlast : ts = []
    · subst hlast
      refine ⟨acc.add e, bind_eq_ok.2 ⟨_, hstep, rfl⟩, hadd, hlength, fun v hv => ?_⟩
      rw [hvalue v hv, List.map_singleton, List.sum_singleton]
    · obtain ⟨e', hrest, hcanonical, hlength', hvalue'⟩ := ih hts.2 hadd
        (hheld (by simpa using hkept [] t ts rfl hlast)) fun mid u post hts' hpost => by
          simpa using hkept (t :: mid) u post (by rw [hts', List.cons_append]) hpost
      refine ⟨e', bind_eq_ok.2 ⟨_, hstep, hrest⟩, hcanonical, hlength', fun v hv => ?_⟩
      rw [hvalue' v hv, hvalue v hv, List.map_cons, List.sum_cons, add_assoc]

/-- The sum of one summand or more. -/
theorem exists_total {ts : List Summand} (hts : ∀ t ∈ ts, t.other.Canonical f ∧ t.other.degree ≤ 1)
    (hnil : ts ≠ [])
    (hkept : ∀ pre t post, ts = pre ++ t :: post → post ≠ [] → ¬ Erases f shared pre t) :
    ∃ e, total shared ts = .ok e ∧ e.Canonical f ∧ e.products.length ≤ 1 ∧
      ∀ v, ByUid v → e.value v =
        (ts.map fun t => (t.scalar : ZMod f.p) * (shared.value v * t.other.value v)).sum := by
  cases ts with
  | nil => exact absurd rfl hnil
  | cons t ts =>
    rw [List.forall_mem_cons] at hts
    obtain ⟨e, he, hpart⟩ := exists_part hs hd hts.1.1 hts.1.2
    have hheld : Expr.Held f shared e.products (beside f shared [t]) := by
      have hweight (v : Signal → ZMod f.p) (_ : ByUid v) :
          t.weight f shared v = beside f shared [t] v := by simp [beside]
      rcases hpart.products with ⟨hnil, hzero⟩ | ⟨a, b, hone, -, hholds, -⟩
      · exact (show Expr.Held f shared e.products _ from Or.inl ⟨hnil, hzero⟩).congr hweight
      · exact (show Expr.Held f shared e.products _ from Or.inr ⟨a, b, hone, hholds⟩).congr hweight
    obtain ⟨e', hrest, hcanonical, hlength, hvalue⟩ := exists_foldlM hne hs hd hts.2
      hpart.canonical hheld fun mid u post hts' hpost =>
        hkept (t :: mid) u post (by rw [hts', List.cons_append]) hpost
    refine ⟨e', bind_eq_ok.2 ⟨e, he, hrest⟩, hcanonical, hlength, fun v hv => ?_⟩
    rw [hvalue v hv, hpart.value, List.map_cons, List.sum_cons]

end

end Summand

/-- **Products that share a factor fit one row**, as long as no summand before the last
    erases the shared factor, and so always where this one is written first: the sum has
    its value, at most one product remains, and setting it equal to a linear form adds a
    row, unless both are constants. -/
theorem shared_factor_fits {f : PrimeField} (hp : f.p.Prime) {shared : Expr}
    (hs : shared.Canonical f) (hd : shared.degree ≤ 1) (hne : shared.isZero = false)
    {ts : List Summand} (hts : ∀ t ∈ ts, t.other.Canonical f ∧ t.other.degree ≤ 1) (hnil : ts ≠ [])
    (hkept : ∀ pre t post, ts = pre ++ t :: post → post ≠ [] → ¬ Summand.Erases f shared pre t) :
    ∃ e, Summand.total shared ts = .ok e ∧
      (∀ v, ByUid v → e.value v =
        (ts.map fun t => (t.scalar : ZMod f.p) * (shared.value v * t.other.value v)).sum) ∧
      e.liveProducts.length ≤ 1 ∧ (∃ a b c, e.toRow = .ok (a, b, c)) ∧
      ∀ (d : Draft) (origin : String) (l : Expr), l.Canonical f → l.degree ≤ 1 →
        (max e.degree l.degree ≠ 0 → ∃ row, d.Adds e l origin row) ∧
          ¬ d.Refuses e l origin .degree := by
  have : Fact f.p.Prime := ⟨hp⟩
  obtain ⟨e, he, hcanonical, hlength, hvalue⟩ := Summand.exists_total hne hs hd hts hnil hkept
  refine ⟨e, he, hvalue, (Expr.length_liveProducts_le e).trans hlength, Expr.exists_toRow hlength,
    fun d origin l hl hld => ?_⟩
  have hlp := hl.products hld
  have hlive : (e.sub l).liveProducts.length ≤ 1 :=
    (Expr.length_liveProducts_sub hcanonical hl hlength (by simp [hlp])).2 (by simp [hlp])
  obtain ⟨-, -, hadd, hdegree⟩ := Draft.constrain_iff d origin hcanonical hl
  exact ⟨fun h => hadd.2 ⟨h, hlive⟩, fun h => (hdegree.1 h).2 hlive⟩

/-- In `x₂ * x₁ - x₁ * x₂ + x₃ * x₁` the second summand cancels the first and keeps `x₁`. -/
theorem shared_factor_fits_refilled :
    let f : PrimeField := ⟨7, by decide⟩
    let x := fun n => Expr.ofSignal (signalMod7 n)
    let ts : List Summand := [⟨1, x 2, true⟩, ⟨-1, x 2, false⟩, ⟨1, x 3, true⟩]
    (x 1).isZero = false ∧
      (∀ pre t post, ts = pre ++ t :: post → post ≠ [] → ¬ Summand.Erases f (x 1) pre t) ∧
      ∃ e, Summand.total (x 1) ts = .ok e ∧ e.liveProducts.length ≤ 1 ∧
        ∃ row, (Draft.empty f).Adds e (.ofInt f 0) "main" row := by
  intro f x ts
  have hcanonical (n : Int) : (x n).Canonical f := .ofSignal rfl
  have hkept : ∀ pre t post, ts = pre ++ t :: post → post ≠ [] →
      ¬ Summand.Erases f (x 1) pre t := by
    rintro pre t post hts hpost ⟨hsecond, -, hpre, -⟩
    rcases pre with _ | ⟨p, _ | ⟨q, pre⟩⟩
    · exact hpre fun v _ => by simp [Summand.beside]
    · injection hts with _ hts
      injection hts with ht
      rw [← ht] at hsecond
      cases hsecond
    · injection hts with _ hts
      injection hts with _ hts
      rcases pre with _ | ⟨r, pre⟩
      · injection hts with _ hts
        exact hpost hts.symm
      · injection hts with _ hts
        cases pre <;> cases hts
  have hlinear : ∀ t ∈ ts, t.other.Canonical f ∧ t.other.degree ≤ 1 := by simp [ts, hcanonical, x]
  obtain ⟨e, he, -, hlive, -, hadd⟩ := shared_factor_fits (f := f) (by decide) (hcanonical 1)
    le_rfl rfl hlinear (by simp [ts]) hkept
  have hdegree : max e.degree (Expr.ofInt f 0).degree ≠ 0 := by
    cases he
    decide
  exact ⟨rfl, hkept, e, he, hlive, (hadd (.empty f) "main" _ (.ofInt f 0) (by simp)).1 hdegree⟩

/-- In `x₂ * x₁ - x₂ * x₁ + x₃ * x₁ + x₂ * x₁` the second summand erases `x₁`: what is left
    of the first is `x₂` times zero.  The third starts a product of its own, and the last is
    folded into the first by `x₂`. -/
theorem shared_factor_refused :
    let f : PrimeField := ⟨7, by decide⟩
    let x := fun n => Expr.ofSignal (signalMod7 n)
    ∃ e, Summand.total (x 1)
        [⟨1, x 2, true⟩, ⟨-1, x 2, true⟩, ⟨1, x 3, true⟩, ⟨1, x 2, true⟩] = .ok e ∧
      e.liveProducts.length = 2 ∧ (Draft.empty f).Refuses e (.ofInt f 0) "main" .degree := by
  intro f x
  exact exists_ok (by decide +kernel)

end RankOne
