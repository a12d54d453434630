/-
  RankOne — the canonical form.

  The degree of an expression is recorded from the operations that built it, and
  not read off its terms.  The canonical form ties the two together: a constant
  has no terms, a linear form no products, and the factors of a product are of
  degree one.

  * `Expr.Normal`, `Expr.Affine`, `Expr.Canonical`: the form without its factors,
    the form of a factor, and the form with all factors;
  * `ratio?_mod_ne_zero`: the scalar between two factors is no multiple of the
    modulus, so that folding keeps the degree of a factor;
  * `Canonical.scale`, `Canonical.add`, `Canonical.mul`, `Canonical.linearPart`,
    `Canonical.toRow`: every operation gives the form.
-/
import RankOne.Proofs.Draft
import RankOne.Proofs.Field

namespace RankOne

variable {f : PrimeField}

theorem Terms.coeff_reduce {p : ℕ} (hp : 0 < p) {ts : Terms} {t : Signal × ℕ}
    (h : t ∈ Terms.reduce p ts) : 0 < t.2 ∧ t.2 < p := by
  obtain ⟨u, -, hu⟩ := List.mem_filterMap.1 h
  split_ifs at hu with h₀
  cases hu
  exact ⟨Nat.pos_of_ne_zero h₀, Nat.mod_lt _ hp⟩

theorem PrimeField.div_of_pos {a b : ℕ} (hb : 0 < b) (hlt : b < f.p) :
    f.div a b = .ok (f.mul a (f.inverse b)) := by
  have hne : f.reduce b ≠ 0 := by
    rw [f.reduce_natCast hlt]
    exact hb.ne'
  rw [PrimeField.div, PrimeField.inv, if_neg hne]
  rfl

namespace Expr

/-! ## The form -/

/-- An expression with canonical coefficients whose degree agrees with its terms. -/
structure Normal (f : PrimeField) (e : Expr) : Prop where
  field : e.field = f
  const : e.const < f.p
  linear : ∀ t ∈ e.linear, 0 < t.2 ∧ t.2 < f.p
  distinct : e.linear.uids.Nodup
  degree : e.degree = 0 ∨ e.degree = 1 ∨ e.degree = 2
  constant : e.degree = 0 → e.linear = []
  products : e.degree ≤ 1 → e.products = []

/-- A factor: the form in degree one. -/
structure Affine (f : PrimeField) (e : Expr) : Prop extends Normal f e where
  degree_eq : e.degree = 1

/-- **The canonical form.** -/
structure Canonical (f : PrimeField) (e : Expr) : Prop extends Normal f e where
  factors : ∀ p ∈ e.products, p.1.Affine f ∧ p.2.Affine f

section
variable {e : Expr}

theorem Affine.products_eq (h : e.Affine f) : e.products = [] := h.products h.degree_eq.le

theorem Affine.canonical (h : e.Affine f) : e.Canonical f :=
  ⟨h.toNormal, by simp [h.products_eq]⟩

theorem Normal.isLinear (h : e.Normal f) (hd : e.degree ≤ 1) : e.IsLinear f :=
  ⟨h.field, h.products hd, h.distinct⟩

theorem Affine.isLinear (h : e.Affine f) : e.IsLinear f := h.toNormal.isLinear h.degree_eq.le

theorem Canonical.affine (h : e.Canonical f) (hd : e.degree = 1) : e.Affine f := ⟨h.toNormal, hd⟩

theorem Canonical.isQuadratic (h : e.Canonical f) : e.IsQuadratic f :=
  ⟨h.field, h.distinct, fun p hp => ⟨(h.factors p hp).1.isLinear, (h.factors p hp).2.isLinear⟩⟩

/-- Canonical factors are canonical, of degree one. -/
theorem Canonical.factor (h : e.Canonical f) : ∀ p ∈ e.products,
    (p.1.Canonical f ∧ p.1.degree = 1) ∧ (p.2.Canonical f ∧ p.2.degree = 1) := by
  intro p hp
  obtain ⟨ha, hb⟩ := h.factors p hp
  exact ⟨⟨ha.canonical, ha.degree_eq⟩, hb.canonical, hb.degree_eq⟩

theorem Normal.degree_nonneg (h : e.Normal f) : 0 ≤ e.degree := by
  rcases h.degree with hd | hd | hd <;> omega

theorem Normal.products_of_degree_zero (h : e.Normal f) (hd : e.degree = 0) : e.products = [] :=
  h.products (by omega)

/-- In degree zero there is nothing but the constant. -/
theorem Normal.value_const (h : e.Normal f) (hd : e.degree = 0) (v : Signal → ZMod f.p) :
    e.value v = e.const := by
  rw [value_eq, h.constant hd, h.products_of_degree_zero hd, Terms.value, productsValue]; ring

end

/-- A form with reduced coefficients is normal when its degree covers its terms. -/
theorem normal_of {const : ℕ} {linear : Terms} {products : List (Expr × Expr)} {degree : Int}
    (hl : linear.uids.Nodup) (hd : degree = 0 ∨ degree = 1 ∨ degree = 2)
    (h₀ : degree = 0 → linear = []) (h₁ : degree ≤ 1 → products = []) :
    (of f const linear products degree).Normal f where
  field := rfl
  const := Nat.mod_lt _ f.p_pos
  linear := fun _ => Terms.coeff_reduce f.p_pos
  distinct := (Terms.uids_reduce_sublist _ _).nodup hl
  degree := hd
  constant := fun h => by rw [of, h₀ h]; rfl
  products := h₁

theorem Canonical.ofInt (f : PrimeField) (n : Int) : (ofInt f n).Canonical f where
  field := rfl
  const := f.reduce_lt n
  linear := by simp [Expr.ofInt]
  distinct := List.nodup_nil
  degree := Or.inl rfl
  constant := fun _ => rfl
  products := fun _ => rfl
  factors := by simp [Expr.ofInt]

theorem Canonical.ofSignal {s : Signal} (hs : s.field = f) : (ofSignal s).Canonical f where
  field := hs
  const := f.p_pos
  linear := by simpa [Expr.ofSignal] using f.one_lt_p
  distinct := List.nodup_singleton _
  degree := Or.inr (Or.inl rfl)
  constant := by simp [Expr.ofSignal]
  products := fun _ => rfl
  factors := by simp [Expr.ofSignal]

/-! ## Multiples -/

theorem degree_scaleBy {k : ℕ} {e : Expr} (hk : k % e.field.p ≠ 0) :
    (scaleBy k e).degree = e.degree := by
  obtain ⟨field, const, linear, products, degree⟩ := e
  rw [scaleBy, if_neg hk]
  split_ifs <;> rfl

theorem Normal.scaleBy {e : Expr} (h : e.Normal f) (k : ℕ) : (scaleBy k e).Normal f := by
  obtain ⟨field, const, linear, products, degree⟩ := e
  obtain rfl : field = f := h.field
  rw [Expr.scaleBy]
  split_ifs
  · exact (Canonical.ofInt field 0).toNormal
  · exact h
  · refine normal_of ?_ h.degree (fun hd => ?_) fun hd => ?_
    · rw [linear_scale_uids]; exact h.distinct
    · rw [show linear = [] from h.constant hd]; rfl
    · rw [show products = [] from h.products hd]; rfl

theorem Affine.scaleBy {e : Expr} (h : e.Affine f) {k : ℕ} (hk : k % f.p ≠ 0) :
    (scaleBy k e).Affine f :=
  ⟨h.toNormal.scaleBy k, by rw [degree_scaleBy (by rwa [h.field]), h.degree_eq]⟩

theorem Canonical.scaleBy {e : Expr} (h : e.Canonical f) (k : ℕ) : (scaleBy k e).Canonical f := by
  refine ⟨h.toNormal.scaleBy k, ?_⟩
  obtain ⟨field, const, linear, products, degree⟩ := e
  obtain rfl : field = f := h.field
  rw [Expr.scaleBy]
  split_ifs with h₀ h₁
  · simp [zero, Expr.ofInt]
  · exact h.factors
  · intro p hp
    obtain ⟨q, hq, rfl⟩ := mem_scaleProducts hp
    obtain ⟨ha, hb⟩ := h.factors q hq
    exact ⟨ha.scaleBy (by rwa [Nat.mod_mod]), hb⟩

theorem Canonical.scale {e : Expr} (h : e.Canonical f) (k : Int) : (e.scale k).Canonical f :=
  h.scaleBy _

/-! ## Sums -/

/-- A product with a canonical number that is no multiple of `p`. -/
theorem mod_ne_zero_of_mul_eq {p k c d : ℕ} (hd : 0 < d) (hp : d < p) (h : k * c % p = d % p) :
    k % p ≠ 0 := by
  intro hk
  rw [Nat.mul_mod, hk, zero_mul, Nat.zero_mod, Nat.mod_eq_of_lt hp] at h
  omega

/-- **The scalar between two forms is no multiple of the modulus**, as it takes a
    nonzero coefficient to a nonzero one. -/
theorem ratio?_mod_ne_zero {x y : Expr} {k : ℕ} (hx : x.Normal f) (h : ratio? x y = some k) :
    k % f.p ≠ 0 := by
  obtain ⟨hs, hm, q, hq, -⟩ := ratio?_eq_some.1 h
  simp only [sameShape, Bool.and_eq_true, beq_iff_eq, List.all_eq_true] at hs
  simp only [isMultiple, Bool.and_eq_true, beq_iff_eq, List.all_eq_true, hx.field] at hm
  unfold pivot? at hq
  split_ifs at hq with hc
  · have hxc : x.const ≠ 0 := by simpa [hc] using hs.2
    exact mod_ne_zero_of_mul_eq (Nat.pos_of_ne_zero hxc) hx.const hm.2
  · obtain ⟨t, ht, -⟩ := Option.map_eq_some_iff.1 hq
    have ht : t ∈ y.linear := List.mem_of_mem_head? ht
    obtain ⟨d, hd⟩ := Option.isSome_iff_exists.1 (hs.1.2 _ ht)
    obtain ⟨l, r, u, hx', -⟩ := coeff?_eq_some hd
    have hdp := hx.linear (u, d) (by rw [hx']; simp)
    have hk := hm.1 _ ht
    rw [hd, Option.getD_some] at hk
    exact mod_ne_zero_of_mul_eq hdp.1 hdp.2 hk

/-- The divisor at the pivot is a coefficient, which is never zero. -/
theorem pivot?_pos {x y : Expr} (hy : y.Normal f) {q : ℕ × ℕ} (h : pivot? x y = some q) :
    0 < q.2 ∧ q.2 < f.p := by
  unfold pivot? at h
  split_ifs at h with hc
  · cases h
    exact ⟨Nat.pos_of_ne_zero hc, hy.const⟩
  · obtain ⟨t, ht, rfl⟩ := Option.map_eq_some_iff.1 h
    exact hy.linear t (List.mem_of_mem_head? ht)

/-- **The division behind a ratio is never refused.** -/
theorem ratio_eq {x y : Expr} (hx : x.Normal f) (hy : y.Normal f) : x.ratio y = .ok (ratio? x y) := by
  have hok : ∃ r, x.ratio y = .ok r := by
    rw [ratio]
    split_ifs
    · cases hq : pivot? x y with
      | none => exact ⟨none, rfl⟩
      | some q =>
        obtain ⟨hpos, hlt⟩ := pivot?_pos hy hq
        rw [Option.elim_some, hx.field, PrimeField.div_of_pos hpos hlt]
        exact ⟨_, rfl⟩
    · exact ⟨none, rfl⟩
  obtain ⟨r, hr⟩ := hok
  rw [ratio?, hr]
  cases r <;> rfl

theorem sharedFactor?_affine {x y a b s o e : Expr} (hx : x.Affine f) (hy : y.Affine f)
    (ha : a.Affine f) (hb : b.Affine f) (h : sharedFactor? x y a b = some (s, o, e)) :
    s.Affine f ∧ o.Affine f ∧ e.Affine f :=
  sharedFactor?_induct hx hy ha hb
    (fun hn hr hk => hr.scaleBy (ratio?_mod_ne_zero hn.toNormal hk)) h

theorem degree_addAt (d : ℕ) (a b : Expr) : (addAt d a b).degree = max a.degree b.degree := by
  cases d <;> rfl

theorem Normal.merge_eq_nil {a b : Expr} (ha : a.Normal f) (hb : b.Normal f)
    (hd : max a.degree b.degree = 0) : Terms.merge a.linear b.linear = [] := by
  have ha₀ := ha.degree_nonneg
  have hb₀ := hb.degree_nonneg
  rw [ha.constant (by omega), hb.constant (by omega)]; rfl

theorem Normal.max_degree {a b : Expr} (ha : a.Normal f) (hb : b.Normal f) :
    max a.degree b.degree = 0 ∨ max a.degree b.degree = 1 ∨ max a.degree b.degree = 2 := by
  have ha₀ := ha.degree
  have hb₀ := hb.degree
  omega

theorem Affine.addAt (d : ℕ) {x y : Expr} (hx : x.Affine f) (hy : y.Affine f) :
    (addAt d x y).Affine f := by
  refine ⟨?_, by rw [degree_addAt, hx.degree_eq, hy.degree_eq, max_self]⟩
  rw [addAt_of_linear d hy.products_eq, hx.field]
  exact normal_of (Terms.nodup_merge hx.distinct) (hx.max_degree hy.toNormal)
    (hx.merge_eq_nil hy.toNormal) fun _ => hx.products_eq

/-- Folding a product into factors of degree one leaves such factors. -/
theorem mergeProduct_affine {plus : Expr → Expr → Expr}
    (hplus : ∀ x y : Expr, x.Affine f → y.Affine f → (plus x y).Affine f) {a b : Expr}
    (ha : a.Affine f) (hb : b.Affine f) {ps : List (Expr × Expr)}
    (hps : ∀ p ∈ ps, p.1.Affine f ∧ p.2.Affine f) :
    ∀ p ∈ mergeProduct plus a b ps, p.1.Affine f ∧ p.2.Affine f :=
  mergeProduct_induct hplus
    (fun hn hr hk => hr.scaleBy (ratio?_mod_ne_zero hn.toNormal hk)) ha hb hps

/-- **A sum of canonical forms is canonical.** -/
theorem Canonical.addAt (d : ℕ) {a b : Expr} (ha : a.Canonical f) (hb : b.Canonical f) :
    (addAt d a b).Canonical f := by
  have hn (ps : List (Expr × Expr)) (h : max a.degree b.degree ≤ 1 → ps = []) :
      (of f (a.const + b.const) (a.linear.merge b.linear) ps (max a.degree b.degree)).Normal f :=
    normal_of (Terms.nodup_merge ha.distinct) (ha.max_degree hb.toNormal)
      (ha.merge_eq_nil hb.toNormal) h
  have hnil (h : max a.degree b.degree ≤ 1) : a.products = [] ∧ b.products = [] :=
    ⟨ha.products (by omega), hb.products (by omega)⟩
  cases d with
  | zero =>
    rw [addAt_zero, ha.field]
    refine ⟨hn _ fun h => by rw [(hnil h).1, (hnil h).2]; rfl, fun p hp => ?_⟩
    rcases List.mem_append.1 hp with hp | hp
    · exact ha.factors p hp
    · exact hb.factors p hp
  | succ d =>
    rw [addAt_succ, ha.field]
    exact ⟨hn _ fun h => by rw [(hnil h).1, (hnil h).2]; rfl,
      foldl_mergeProduct_induct (fun _ _ => Affine.addAt d)
        (fun hn hr hk => hr.scaleBy (ratio?_mod_ne_zero hn.toNormal hk)) hb.factors ha.factors⟩

theorem Canonical.add {a b : Expr} (ha : a.Canonical f) (hb : b.Canonical f) :
    (a.add b).Canonical f := ha.addAt _ hb

/-! ## Products and powers -/

theorem Canonical.mul {a b e : Expr} (ha : a.Canonical f) (hb : b.Canonical f)
    (h : a.mul b = .ok e) : e.Canonical f := by
  unfold Expr.mul at h
  split_ifs at h with hd₁ hd₂ hd₃
  · cases h; exact hb.scale _
  · cases h; exact ha.scale _
  · cases h
    -- neither degree is zero and their sum is at most two
    have ha₁ : a.degree = 1 := by have := ha.degree; have := hb.degree; omega
    have hb₁ : b.degree = 1 := by have := ha.degree; have := hb.degree; omega
    rw [ha.field, ha₁, hb₁]
    refine ⟨normal_of List.nodup_nil (by omega) (by omega) (by omega), fun p hp => ?_⟩
    obtain rfl : p = (a, b) := List.mem_singleton.1 hp
    exact ⟨ha.affine ha₁, hb.affine hb₁⟩

/-! ## Rows -/

theorem Canonical.linearPart {e : Expr} (h : e.Canonical f) : e.linearPart.Canonical f where
  field := h.field
  const := h.const
  linear := h.linear
  distinct := h.distinct
  degree := by have := h.degree; simp only [Expr.linearPart]; omega
  constant := fun hd => h.constant (by simp only [Expr.linearPart] at hd; omega)
  products := fun _ => rfl
  factors := by simp [Expr.linearPart]

theorem Canonical.neg {e : Expr} (h : e.Canonical f) : e.neg.Canonical f := h.scale _

/-- The sides of a row are canonical. -/
theorem Canonical.toRow {e a b c : Expr} (h : e.Canonical f) (hr : e.toRow = .ok (a, b, c)) :
    a.Canonical f ∧ b.Canonical f ∧ c.Canonical f := by
  obtain ⟨rfl, ⟨-, rfl, rfl⟩ | hl⟩ := toRow_cases hr
  · rw [h.field]
    exact ⟨Canonical.ofInt f 0, Canonical.ofInt f 0, h.linearPart.neg⟩
  · have hm : (a, b) ∈ e.liveProducts := by rw [hl]; exact List.mem_singleton_self _
    obtain ⟨ha, hb⟩ := h.factors (a, b) (List.mem_of_mem_filter hm)
    exact ⟨ha.canonical, hb.canonical, h.linearPart.neg⟩

end Expr

end RankOne
