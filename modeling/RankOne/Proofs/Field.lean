/-
  RankOne — arithmetic modulo a prime.

  * `powMod_modEq`: repeated squaring computes the power;
  * `isPrime_of_prime`, `ofInt_of_prime`: a prime passes the test, so that it has a field;
  * `cast_pow`: powers of representatives stand for those of residues;
  * `cast_inverse_mul`: modulo a prime, the inverse of a nonzero residue is one.
-/
import Mathlib.FieldTheory.Finite.Basic
import RankOne.Proofs.Expr.Value

namespace RankOne

namespace Primality

/-- One squaring halves the exponent; the odd half goes into the accumulator. -/
theorem powLoop_modEq (n : ℕ) : ∀ {fuel e : ℕ} (b acc : ℕ), e < 2 ^ fuel →
    powLoop n fuel b e acc ≡ acc * b ^ e [MOD n]
  | 0, e, b, acc, h => by
    obtain rfl : e = 0 := by simpa using h
    simp [powLoop, Nat.ModEq.refl]
  | fuel + 1, e, b, acc, h => by
    rw [powLoop]
    split_ifs with he hodd
    · simp [he, Nat.ModEq.refl]
    · have hb : b ^ e = b * (b * b) ^ (e / 2) := by
        conv_lhs => rw [show e = 2 * (e / 2) + 1 by omega]
        rw [pow_succ, pow_mul, pow_two, mul_comm]
      have ih := powLoop_modEq n (b * b % n) (acc * b % n) (show e / 2 < 2 ^ fuel by omega)
      calc powLoop n fuel (b * b % n) (e / 2) (acc * b % n)
          ≡ acc * b % n * (b * b % n) ^ (e / 2) [MOD n] := ih
        _ ≡ acc * b * (b * b) ^ (e / 2) [MOD n] :=
          (Nat.mod_modEq _ _).mul ((Nat.mod_modEq _ _).pow _)
        _ = acc * b ^ e := by rw [hb, mul_assoc]
    · have hb : b ^ e = (b * b) ^ (e / 2) := by
        conv_lhs => rw [show e = 2 * (e / 2) by omega]
        rw [pow_mul, pow_two]
      have ih := powLoop_modEq n (b * b % n) acc (show e / 2 < 2 ^ fuel by omega)
      calc powLoop n fuel (b * b % n) (e / 2) acc
          ≡ acc * (b * b % n) ^ (e / 2) [MOD n] := ih
        _ ≡ acc * (b * b) ^ (e / 2) [MOD n] := ((Nat.mod_modEq _ _).pow _).mul_left _
        _ = acc * b ^ e := by rw [hb]

/-- **Repeated squaring computes the power.** -/
theorem powMod_modEq (n b e : ℕ) : powMod n b e ≡ b ^ e [MOD n] := by
  have he : e < 2 ^ (e.log2 + 1) := Nat.lt_log2_self
  calc powMod n b e ≡ 1 % n * (b % n) ^ e [MOD n] := powLoop_modEq n _ _ he
    _ ≡ 1 * b ^ e [MOD n] := (Nat.mod_modEq _ _).mul ((Nat.mod_modEq _ _).pow _)
    _ = b ^ e := one_mul _

/-! ## Primes -/

theorem powLoop_lt {n : ℕ} (hn : 0 < n) : ∀ {fuel b e acc : ℕ}, acc < n →
    powLoop n fuel b e acc < n
  | 0, _, _, _, h => h
  | fuel + 1, b, e, acc, h => by
    rw [powLoop]
    split_ifs with he hodd
    · exact h
    · exact powLoop_lt hn (Nat.mod_lt _ hn)
    · exact powLoop_lt hn h

theorem powMod_lt {n : ℕ} (hn : 0 < n) (b e : ℕ) : powMod n b e < n :=
  powLoop_lt hn (Nat.mod_lt _ hn)

theorem oddPart_mul_two_pow : ∀ (fuel n : ℕ), (oddPart fuel n).1 * 2 ^ (oddPart fuel n).2 = n
  | 0, n => by simp [oddPart]
  | fuel + 1, n => by
    rw [oddPart]
    split_ifs with h
    · have ih := oddPart_mul_two_pow fuel (n / 2)
      rw [pow_succ, ← mul_assoc, ih]
      omega
    · simp

/-- Modulo a prime, only one and minus one square to one. -/
theorem squaresToOne_of_prime {n : ℕ} (hn : n.Prime) : ∀ {k x : ℕ}, x < n →
    x ^ 2 ^ k ≡ 1 [MOD n] → squaresToOne n k x = true
  | 0, x, hx, h => by
    rw [pow_zero, pow_one] at h
    have := Nat.ModEq.eq_of_lt_of_lt h hx hn.one_lt
    simpa [squaresToOne] using this
  | k + 1, x, hx, h => by
    rw [squaresToOne]
    split_ifs with hy
    · have : Fact n.Prime := ⟨hn⟩
      have hsq : (x : ZMod n) * x = 1 := by
        have hmod : (x * x : ℕ) ≡ 1 [MOD n] := by
          rw [Nat.ModEq, beq_iff_eq.1 hy, Nat.mod_eq_of_lt hn.one_lt]
        exact_mod_cast (ZMod.natCast_eq_natCast_iff _ _ n).2 hmod
      rw [Bool.or_eq_true, beq_iff_eq, beq_iff_eq]
      rcases mul_self_eq_one_iff.1 hsq with h₁ | h₁
      · left
        exact Nat.ModEq.eq_of_lt_of_lt ((ZMod.natCast_eq_natCast_iff _ _ n).1 (by simpa using h₁))
          hx hn.one_lt
      · right
        have hpos := hn.one_lt
        have hcast : ((n - 1 : ℕ) : ZMod n) = -1 := by
          rw [Nat.cast_sub hn.one_le]; simp
        exact Nat.ModEq.eq_of_lt_of_lt
          ((ZMod.natCast_eq_natCast_iff _ _ n).1 (h₁.trans hcast.symm)) hx (by omega)
    · refine squaresToOne_of_prime hn (Nat.mod_lt _ hn.pos) ?_
      calc (x * x % n) ^ 2 ^ k ≡ (x * x) ^ 2 ^ k [MOD n] := (Nat.mod_modEq _ _).pow _
        _ = x ^ 2 ^ (k + 1) := by rw [← pow_two, ← pow_mul, ← pow_succ']
        _ ≡ 1 [MOD n] := h

/-- No prime base refutes a prime, since `base ^ (n - 1) = 1` unless they are the same. -/
theorem accepts_of_prime {n base : ℕ} (hn : n.Prime) (hb : base.Prime) :
    accepts n base = true := by
  rw [accepts, Bool.or_eq_true, beq_iff_eq, Bool.and_eq_true]
  by_cases hne : n = base
  · exact Or.inl hne
  · refine Or.inr ⟨?_, squaresToOne_of_prime hn (powMod_lt hn.pos _ _) ?_⟩
    · rw [bne_iff_ne]
      exact fun h => hne ((Nat.prime_dvd_prime_iff_eq hb hn).1 (Nat.dvd_of_mod_eq_zero h)).symm
    · have hcop : base.Coprime n := (Nat.coprime_primes hb hn).2 fun h => hne h.symm
      calc powMod n base (oddPart n.log2 (n - 1)).1 ^ 2 ^ (oddPart n.log2 (n - 1)).2
          ≡ (base ^ (oddPart n.log2 (n - 1)).1) ^ 2 ^ (oddPart n.log2 (n - 1)).2 [MOD n] :=
            (powMod_modEq _ _ _).pow _
        _ = base ^ n.totient := by rw [← pow_mul, oddPart_mul_two_pow, Nat.totient_prime hn]
        _ ≡ 1 [MOD n] := Nat.ModEq.pow_totient hcop

/-- **A prime passes the test.** -/
theorem isPrime_of_prime {n : ℕ} (hn : n.Prime) : isPrime n = true := by
  have hsmall : ∀ base ∈ smallPrimes, base.Prime := by decide
  rw [isPrime, Bool.and_eq_true, decide_eq_true_iff, List.all_eq_true]
  exact ⟨hn.two_le, fun base hb => accepts_of_prime hn (hsmall base hb)⟩

end Primality

namespace PrimeField

theorem ofInt_of_prime {p : ℕ} (hp : p.Prime) : ofInt p = .ok ⟨p, hp.two_le⟩ := by
  rw [ofInt, dif_pos (show 2 ≤ (p : Int).toNat from hp.two_le)]
  exact if_pos (Primality.isPrime_of_prime hp)

variable (f : PrimeField)

@[simp] theorem cast_pow (a : Int) (k : ℕ) : ((f.pow a k : ℕ) : ZMod f.p) = (a : ZMod f.p) ^ k := by
  have h := (ZMod.natCast_eq_natCast_iff _ _ f.p).2 (Primality.powMod_modEq f.p (f.reduce a) k)
  rw [pow, h, Nat.cast_pow, cast_reduce]

/-- **The inverse modulo a prime**, since `a ^ (p - 2) * a = a ^ (p - 1) = 1`. -/
theorem cast_inverse_mul (hp : f.p.Prime) {a : Int} (ha : (a : ZMod f.p) ≠ 0) :
    ((f.inverse a : ℕ) : ZMod f.p) * a = 1 := by
  have : Fact f.p.Prime := ⟨hp⟩
  have h : f.p - 2 + 1 = f.p - 1 := by have := f.two_le; omega
  rw [inverse, cast_pow, ← pow_succ, h, ZMod.pow_card_sub_one_eq_one ha]

theorem reduce_natCast {n : ℕ} (h : n < f.p) : f.reduce n = n := by
  rw [reduce, Int.emod_eq_of_lt (by omega) (by exact_mod_cast h), Int.toNat_natCast]

end PrimeField

end RankOne
