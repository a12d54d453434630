/-
  RankOne — proportional forms.

  Two linear forms are proportional when one is a nonzero multiple of the other
  under every valuation.  Which coefficients they have follows, by valuations that
  are one at a single signal.

  * `Signal.unit`, `Terms.value_unit`: such a valuation, and the coefficient it reads;
  * `Expr.Multiple`, `Expr.Times`, `Multiple.times`: multiples, by value and by
    coefficient;
  * `Affine.isZero_iff`: a form vanishes everywhere exactly when it has no terms;
  * `Times.exists_ratio?`, `ratio?_isSome_iff`: the scalar between proportional forms
    is found.
-/
import RankOne.Proofs.Expr.Canonical

namespace RankOne

variable {f : PrimeField}

/-! ## Coefficients as values -/

/-- The valuation that is one at a signal, and zero at all others. -/
def Signal.unit (f : PrimeField) (s : Signal) : Signal → ZMod f.p :=
  fun t => if t.uid = s.uid then 1 else 0

theorem byUid_unit (s : Signal) : ByUid (s.unit f) := fun t u h => by
  rw [Signal.unit, Signal.unit, h]

theorem byUid_zero : ByUid (fun _ : Signal => (0 : ZMod f.p)) := fun _ _ _ => rfl

namespace Terms

theorem value_zero (ts : Terms) : ts.value (fun _ => (0 : ZMod f.p)) = 0 := by
  induction ts with
  | nil => rfl
  | cons t ts ih => rw [Terms.value, ih, mul_zero, add_zero]

theorem coeff?_of_mem {ts : Terms} (h : ts.uids.Nodup) {t : Signal × ℕ} (ht : t ∈ ts) :
    ts.coeff? t.1 = some t.2 := by
  have hfind : ts.find? (fun u => u.1.same t.1) = some t :=
    find?_of_nodup (show (ts.map fun u => u.1.uid).Nodup from h) ht
  rw [Terms.coeff?, hfind]
  rfl

theorem coeff?_cons (t s : Signal) (d : ℕ) (ts : Terms) :
    Terms.coeff? ((t, d) :: ts) s = if t.uid = s.uid then some d else ts.coeff? s := by
  by_cases h : t.uid = s.uid
  · rw [if_pos h, Terms.coeff?, List.find?_cons_of_pos (by simpa [Signal.same_iff] using h)]
    rfl
  · rw [if_neg h, Terms.coeff?, List.find?_cons_of_neg (by simpa [Signal.same_iff] using h)]
    rfl

theorem coeff?_eq_none {ts : Terms} {s : Signal} (h : s.uid ∉ ts.uids) : ts.coeff? s = none := by
  induction ts with
  | nil => rfl
  | cons t ts ih =>
    rw [uids, List.map_cons, List.mem_cons, not_or] at h
    rw [coeff?_cons, if_neg (Ne.symm h.1), ih h.2]

/-- **The unit of a signal reads its coefficient.** -/
theorem value_unit {ts : Terms} (h : ts.uids.Nodup) (s : Signal) :
    ts.value (s.unit f) = ((ts.coeff? s).getD 0 : ℕ) := by
  induction ts with
  | nil => simp [Terms.value, Terms.coeff?]
  | cons t ts ih =>
    obtain ⟨t, d⟩ := t
    rw [uids, List.map_cons, List.nodup_cons] at h
    rw [Terms.value, ih h.2, coeff?_cons, Signal.unit]
    by_cases hs : t.uid = s.uid
    · rw [if_pos hs, if_pos hs, coeff?_eq_none (fun hmem => h.1 (hs ▸ hmem))]
      simp
    · rw [if_neg hs, if_neg hs, mul_zero, zero_add]

end Terms

/-- A number below the modulus is zero when its residue is. -/
theorem PrimeField.cast_eq_zero {n : ℕ} (h : n < f.p) : (n : ZMod f.p) = 0 ↔ n = 0 := by
  rw [ZMod.natCast_eq_zero_iff]
  exact ⟨fun hdvd => Nat.eq_zero_of_dvd_of_lt hdvd h, fun h₀ => h₀ ▸ dvd_zero _⟩

namespace Expr

/-! ## Multiples -/

/-- `x` is `k` times `y`, under every valuation. -/
def Multiple (f : PrimeField) (k : ZMod f.p) (x y : Expr) : Prop :=
  ∀ v : Signal → ZMod f.p, ByUid v → x.value v = k * y.value v

/-- `x` is `k` times `y` in the constant and in the coefficient of every signal. -/
structure Times (f : PrimeField) (k : ZMod f.p) (x y : Expr) : Prop where
  const : (x.const : ZMod f.p) = k * y.const
  coeff : ∀ s : Signal,
    (((x.linear.coeff? s).getD 0 : ℕ) : ZMod f.p) = k * ((y.linear.coeff? s).getD 0 : ℕ)

/-- Each of two forms is a nonzero multiple of the other. -/
def Proportional (f : PrimeField) (x y : Expr) : Prop := ∃ k ≠ 0, Multiple f k x y

section
variable {x y z : Expr} {k l : ZMod f.p}

theorem Multiple.trans (h : Multiple f k x y) (h' : Multiple f l y z) :
    Multiple f (k * l) x z := fun v hv => by rw [h v hv, h' v hv, mul_assoc]

theorem Multiple.symm [Fact f.p.Prime] (hk : k ≠ 0) (h : Multiple f k x y) :
    Multiple f k⁻¹ y x := fun v hv => by rw [h v hv, inv_mul_cancel_left₀ hk]

theorem Proportional.symm [Fact f.p.Prime] (h : Proportional f x y) : Proportional f y x := by
  obtain ⟨k, hk, h⟩ := h
  exact ⟨k⁻¹, inv_ne_zero hk, h.symm hk⟩

theorem Proportional.trans [Fact f.p.Prime] (h : Proportional f x y) (h' : Proportional f y z) :
    Proportional f x z := by
  obtain ⟨k, hk, h⟩ := h
  obtain ⟨l, hl, h'⟩ := h'
  exact ⟨k * l, mul_ne_zero hk hl, h.trans h'⟩

theorem Affine.multiple_scaleBy (hx : x.Affine f) (n : ℕ) : Multiple f n (Expr.scaleBy n x) x :=
  fun _ _ => value_scaleBy n x hx.isLinear.quadratic.over

theorem cast_ne_zero {n : ℕ} (hn : n % f.p ≠ 0) : (n : ZMod f.p) ≠ 0 := fun h =>
  hn (Nat.mod_eq_zero_of_dvd ((ZMod.natCast_eq_zero_iff _ _).1 h))

end

/-- A multiple by value is one by coefficient. -/
theorem Multiple.times {x y : Expr} {k : ZMod f.p} (hx : x.IsLinear f) (hy : y.IsLinear f)
    (h : Multiple f k x y) : Times f k x y := by
  have hconst : (x.const : ZMod f.p) = k * y.const := by
    have h₀ := h _ byUid_zero
    rwa [hx.value, hy.value, Terms.value_zero, Terms.value_zero, add_zero, add_zero] at h₀
  refine ⟨hconst, fun s => ?_⟩
  have hs := h _ (byUid_unit s)
  rw [hx.value, hy.value, Terms.value_unit hx.distinct, Terms.value_unit hy.distinct] at hs
  linear_combination hs - hconst

/-- A multiple passes the test of all coefficients. -/
theorem Times.isMultiple {x y : Expr} {n : ℕ} (hx : x.field = f) (hy : y.linear.uids.Nodup)
    (h : Times f n x y) : x.isMultiple y n = true := by
  have hmod {a b : ℕ} (hab : (b : ZMod f.p) = n * a) : n * a % f.p = b % f.p := by
    rw [← ZMod.natCast_eq_natCast_iff', Nat.cast_mul, hab]
  simp only [Expr.isMultiple, Bool.and_eq_true, beq_iff_eq, List.all_eq_true, hx]
  refine ⟨fun t ht => hmod ?_, hmod h.const⟩
  have hcoeff := h.coeff t.1
  rwa [Terms.coeff?_of_mem hy ht, Option.getD_some] at hcoeff

/-- **A form vanishes everywhere exactly when it has no terms.** -/
theorem Affine.isZero_iff {e : Expr} (he : e.Affine f) :
    e.isZero = true ↔ ∀ v : Signal → ZMod f.p, ByUid v → e.value v = 0 := by
  refine ⟨fun h v _ => value_of_isZero h, fun h => ?_⟩
  have hmultiple : Multiple f 0 e e := fun v hv => by rw [h v hv, mul_zero]
  have hzero := hmultiple.times he.isLinear he.isLinear
  have hconst : e.const = 0 := by rw [← f.cast_eq_zero he.const, hzero.const, zero_mul]
  have hlinear : e.linear = [] := by
    refine List.eq_nil_iff_forall_not_mem.2 fun t ht => ?_
    obtain ⟨hpos, hlt⟩ := he.linear t ht
    have hcoeff := hzero.coeff t.1
    rw [Terms.coeff?_of_mem he.distinct ht, Option.getD_some, zero_mul, f.cast_eq_zero hlt]
      at hcoeff
    omega
  simp [isZero, hconst, hlinear, he.products_eq]

theorem Proportional.isZero {x y : Expr} (hx : x.Affine f) (hy : y.Affine f)
    (h : Proportional f x y) (h₀ : y.isZero = true) : x.isZero = true := by
  obtain ⟨k, -, h⟩ := h
  exact hx.isZero_iff.2 fun v hv => by rw [h v hv, hy.isZero_iff.1 h₀ v hv, mul_zero]

/-! ## The ratio of two forms -/

section
variable [hp : Fact f.p.Prime] {x y : Expr} {k : ZMod f.p} (hx : x.Normal f) (hy : y.Normal f)
  (h : Times f k x y)
include hp hx hy h

/-- The coefficients at the pivot of a nonzero form have the scalar of a multiple as
    their quotient. -/
theorem Times.pivot? (hlinear : y.products = []) (hne : y.isZero = false) :
    ∃ q n, Expr.pivot? x y = some q ∧ x.field.div q.1 q.2 = .ok n ∧ (n : ZMod f.p) = k := by
  have hquotient (a b : ℕ) (hb : b < f.p) (hpos : b ≠ 0) (hab : (a : ZMod f.p) = k * b) :
      ∃ n, f.div a b = .ok n ∧ (n : ZMod f.p) = k := by
    refine ⟨_, PrimeField.div_of_pos (Nat.pos_of_ne_zero hpos) hb, ?_⟩
    have hb₀ : ((b : Int) : ZMod f.p) ≠ 0 := by
      rw [Int.cast_natCast, Ne, f.cast_eq_zero hb]
      exact hpos
    have hinv := f.cast_inverse_mul hp.out hb₀
    rw [PrimeField.mul, f.cast_reduce]
    push_cast at hinv ⊢
    rw [hab]
    linear_combination k * hinv
  rw [Expr.pivot?, hx.field]
  by_cases hc : y.const = 0
  · rw [if_neg (not_not.2 hc)]
    cases hl : y.linear with
    | nil => simp [isZero, hc, hl, hlinear] at hne
    | cons t ts =>
      obtain ⟨s, c⟩ := t
      have hmem : (s, c) ∈ y.linear := by rw [hl]; exact List.mem_cons_self
      obtain ⟨hpos, hlt⟩ := hy.linear _ hmem
      have hcoeff := h.coeff s
      rw [show y.linear.coeff? s = some c from Terms.coeff?_of_mem hy.distinct hmem,
        Option.getD_some] at hcoeff
      obtain ⟨n, hn⟩ := hquotient _ c hlt hpos.ne' hcoeff
      exact ⟨_, n, rfl, hn⟩
  · rw [if_pos hc]
    obtain ⟨n, hn⟩ := hquotient _ _ hy.const hc h.const
    exact ⟨_, n, rfl, hn⟩

variable (hk : k ≠ 0)
include hk

/-- A signal has a term in a form exactly when it has one in a multiple. -/
theorem Times.mem_uids (u : Int) : u ∈ x.linear.uids ↔ u ∈ y.linear.uids := by
  have hnone {e : Expr} (he : e.Normal f) (s : Signal) :
      s.uid ∈ e.linear.uids ↔ (((e.linear.coeff? s).getD 0 : ℕ) : ZMod f.p) ≠ 0 := by
    constructor
    · intro hmem hzero
      obtain ⟨t, ht, hts⟩ := List.mem_map.1 hmem
      obtain ⟨hpos, hlt⟩ := he.linear t ht
      have hcoeff : e.linear.coeff? s = e.linear.coeff? t.1 := by
        simp only [Terms.coeff?, Signal.same, hts]
      rw [hcoeff, Terms.coeff?_of_mem he.distinct ht, Option.getD_some, f.cast_eq_zero hlt] at hzero
      omega
    · intro hne
      by_contra hmem
      rw [Terms.coeff?_eq_none hmem] at hne
      exact hne Nat.cast_zero
  have hcoeff (s : Signal) : s.uid ∈ x.linear.uids ↔ s.uid ∈ y.linear.uids := by
    rw [hnone hx, hnone hy, h.coeff s, mul_ne_zero_iff, and_iff_right hk]
  constructor <;> intro hu <;> obtain ⟨t, ht, rfl⟩ := List.mem_map.1 hu
  · exact (hcoeff t.1).1 hu
  · exact (hcoeff t.1).2 hu

theorem Times.sameShape : x.sameShape y = true := by
  have hlength : x.linear.length = y.linear.length := by
    have hperm := (List.perm_ext_iff_of_nodup hx.distinct hy.distinct).2 (h.mem_uids hx hy hk)
    simpa [Terms.uids] using hperm.length_eq
  have hsome (t : Signal × ℕ) (ht : t ∈ y.linear) : (x.linear.coeff? t.1).isSome := by
    obtain ⟨u, hu, hut⟩ := List.mem_map.1
      ((h.mem_uids hx hy hk t.1.uid).2 (List.mem_map.2 ⟨t, ht, rfl⟩))
    have hcoeff := Terms.coeff?_of_mem hx.distinct hu
    simp only [Terms.coeff?, Signal.same, hut] at hcoeff ⊢
    rw [hcoeff]
    rfl
  have hconst : x.const = 0 ↔ y.const = 0 := by
    rw [← f.cast_eq_zero hx.const, ← f.cast_eq_zero hy.const, h.const, mul_eq_zero, or_iff_right hk]
  simp only [Expr.sameShape, Bool.and_eq_true, beq_iff_eq, List.all_eq_true]
  exact ⟨⟨hlength, hsome⟩, by rw [Bool.eq_iff_iff, beq_iff_eq, beq_iff_eq, hconst]⟩

/-- **The scalar of a multiple of a nonzero form is found.** -/
theorem Times.exists_ratio? (hlinear : y.products = []) (hne : y.isZero = false) :
    ∃ n, ratio? x y = some n ∧ (n : ZMod f.p) = k := by
  obtain ⟨q, n, hq, hdiv, rfl⟩ := h.pivot? hx hy hlinear hne
  exact ⟨n, ratio?_eq_some.2 ⟨h.sameShape hx hy hk, h.isMultiple hx.field hy.distinct, q, hq, hdiv⟩,
    rfl⟩

end

/-- A ratio is only found to a form with terms. -/
theorem isZero_of_ratio? {x y : Expr} {n : ℕ} (h : ratio? x y = some n) : y.isZero = false := by
  obtain ⟨-, -, q, hq, -⟩ := ratio?_eq_some.1 h
  by_contra hzero
  rw [Bool.not_eq_false] at hzero
  simp only [isZero, Bool.and_eq_true, beq_iff_eq, List.isEmpty_iff] at hzero
  rw [pivot?, if_neg (not_not.2 hzero.1.1), hzero.1.2] at hq
  cases hq

/-- What is found is the scalar, and it is not zero. -/
theorem multiple_of_ratio? {x y : Expr} {n : ℕ} (hx : x.Affine f) (hy : y.Affine f)
    (h : ratio? x y = some n) : (n : ZMod f.p) ≠ 0 ∧ Multiple f n x y :=
  ⟨cast_ne_zero (ratio?_mod_ne_zero hx.toNormal h),
    fun _ hv => value_of_ratio? (hv.agree _ _) hx.isLinear hy.isLinear h⟩

/-- **Ratios are found between proportional forms, and only there.** -/
theorem ratio?_isSome_iff [Fact f.p.Prime] {x y : Expr} (hx : x.Affine f) (hy : y.Affine f) :
    (ratio? x y).isSome ↔ y.isZero = false ∧ Proportional f x y := by
  rw [Option.isSome_iff_exists]
  constructor
  · rintro ⟨n, hn⟩
    exact ⟨isZero_of_ratio? hn, n, multiple_of_ratio? hx hy hn⟩
  · rintro ⟨hne, k, hk, h⟩
    obtain ⟨n, hn, -⟩ := (h.times hx.isLinear hy.isLinear).exists_ratio? hx.toNormal hy.toNormal hk
      hy.products_eq hne
    exact ⟨n, hn⟩

end Expr

end RankOne
