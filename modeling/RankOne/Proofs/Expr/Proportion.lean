/-
  RankOne — the test for proportional forms is exact.

  The test takes the quotient of one pair of coefficients, the pivot, and compares
  all others with it.  The division of the field refuses zero, but the pivot of
  canonical forms is never zero.

  * `times_of_ratio?`, `Times.unique`: what is found is the scalar, and the only one;
  * `ratio_exact`: a scalar is found exactly between forms that are proportional in
    every coefficient, and it is the only one.
-/
import RankOne.Proofs.Expr.Built
import RankOne.Proofs.Expr.Ratio

namespace RankOne

variable {f : PrimeField}

namespace Expr

section
variable {x y : Expr}

theorem ratio?_lt {n : ℕ} (h : ratio? x y = some n) : n < x.field.p := by
  obtain ⟨-, -, q, -, hdiv⟩ := ratio?_eq_some.1 h
  obtain ⟨i, -, hn⟩ := bind_eq_ok.1 hdiv
  rw [← pure_eq_ok.1 hn]
  exact x.field.reduce_lt _

/-- The scalar that is found multiplies every coefficient, and is not zero. -/
theorem times_of_ratio? {n : ℕ} (hx : x.Normal f) (hy : y.Normal f) (hdx : x.degree ≤ 1)
    (hdy : y.degree ≤ 1) (h : ratio? x y = some n) : (n : ZMod f.p) ≠ 0 ∧ Times f n x y := by
  have hmultiple : Multiple f n x y := fun v hv =>
    value_of_ratio? (hv.agree _ _) (hx.isLinear hdx) (hy.isLinear hdy) h
  exact ⟨cast_ne_zero (ratio?_mod_ne_zero hx h),
    hmultiple.times (hx.isLinear hdx) (hy.isLinear hdy)⟩

/-- There is no other scalar than the one that is found. -/
theorem Times.unique [Fact f.p.Prime] {n : ℕ} {k : ZMod f.p} (hx : x.Normal f) (hy : y.Normal f)
    (hdy : y.degree ≤ 1) (h : ratio? x y = some n) (hk : Times f k x y) : k = n := by
  obtain ⟨q, m, hq, hm, rfl⟩ := hk.pivot? hx hy (hy.products hdy) (isZero_of_ratio? h)
  obtain ⟨-, -, q', hq', hn⟩ := ratio?_eq_some.1 h
  cases hq.symm.trans hq'
  cases hm.symm.trans hn
  rfl

/-- **The test for proportional forms is exact**: it divides by zero nowhere, it
    finds a scalar exactly when `y` has terms and `x` is a nonzero multiple of it in
    every coefficient, and the scalar found is the canonical one, and the only one. -/
theorem ratio_exact (hp : f.p.Prime) (hx : x.Canonical f) (hy : y.Canonical f)
    (hdx : x.degree ≤ 1) (hdy : y.degree ≤ 1) :
    x.ratio y = .ok (ratio? x y) ∧
    ((ratio? x y).isSome ↔ y.isZero = false ∧ ∃ k : ZMod f.p, k ≠ 0 ∧ Times f k x y) ∧
    ∀ n, ratio? x y = some n →
      (1 ≤ n ∧ n < f.p) ∧ Times f n x y ∧ ∀ k : ZMod f.p, Times f k x y → k = n := by
  have : Fact f.p.Prime := ⟨hp⟩
  refine ⟨ratio_eq hx.toNormal hy.toNormal, ⟨fun h => ?_, ?_⟩, fun n hn => ?_⟩
  · obtain ⟨n, hn⟩ := Option.isSome_iff_exists.1 h
    exact ⟨isZero_of_ratio? hn, n, times_of_ratio? hx.toNormal hy.toNormal hdx hdy hn⟩
  · rintro ⟨hne, k, hk, h⟩
    obtain ⟨n, hn, -⟩ := h.exists_ratio? hx.toNormal hy.toNormal hk (hy.products hdy) hne
    rw [hn, Option.isSome_some]
  · obtain ⟨hne, htimes⟩ := times_of_ratio? hx.toNormal hy.toNormal hdx hdy hn
    have hpos : n ≠ 0 := by
      rintro rfl
      exact hne Nat.cast_zero
    have hlt := ratio?_lt hn
    rw [hx.field] at hlt
    exact ⟨⟨Nat.one_le_iff_ne_zero.2 hpos, hlt⟩, htimes,
      fun k hk => hk.unique hx.toNormal hy.toNormal hdy hn⟩

/-- Modulo seven, `3 + 6 x` is six times `4 + x`, and no other multiple of it. -/
theorem ratio_exact_six :
    let f : PrimeField := ⟨7, by decide⟩
    let y := (Expr.ofSignal (signalMod7 1)).add (.ofInt f 4)
    let x := y.scale 6
    (x.Canonical f ∧ y.Canonical f) ∧ (x.degree ≤ 1 ∧ y.degree ≤ 1) ∧
      x.ratio y = .ok (some 6) ∧ ∀ k : ZMod f.p, Times f k x y → k = 6 := by
  intro f y x
  have hs : (Expr.ofSignal (signalMod7 1)).Canonical f := .ofSignal rfl
  have hy : y.Canonical f := hs.add (.ofInt f 4)
  have hx : x.Canonical f := hy.scale 6
  have hfound : ratio? x y = some 6 := by decide
  obtain ⟨hratio, -, hscalar⟩ := ratio_exact (by decide) hx hy (by decide) (by decide)
  exact ⟨⟨hx, hy⟩, ⟨by decide, by decide⟩, by rw [hratio, hfound], (hscalar 6 hfound).2.2⟩

end

end Expr

end RankOne
