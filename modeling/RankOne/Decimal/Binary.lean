/-
  RankOne — binary floating-point numbers as exact dyadic numbers.

  * `Dyadic`: a finite number `± m · 2 ^ q`, and `decode`, which reads it off
    the bits of a `Float`;
  * `nearest?`: the `Float` nearest to a quotient of naturals, ties to the even
    significand, or nothing when the quotient is too large;
  * `truncate?`, `compare?`: exact conversion to an integer and exact
    comparison, defined on finite numbers.
-/

namespace RankOne.Decimal

/-- A finite number `± m · 2 ^ q`. -/
structure Dyadic where
  negative : Bool
  m : Nat
  q : Int

/-- The exact value of a finite `Float`. -/
def decode (x : Float) : Dyadic :=
  let bits := x.toBits.toNat
  let e : Nat := bits / Nat.pow 2 52 % 2048
  let f := bits % Nat.pow 2 52
  { negative := bits / Nat.pow 2 63 == 1
    m := if e = 0 then f else f + Nat.pow 2 52
    q := if e = 0 then -1074 else (e : Int) - 1075 }

/-- The value as a signed numerator over a positive denominator. -/
def Dyadic.ratio (d : Dyadic) : Int × Nat :=
  let n : Int := (d.m * Nat.pow 2 d.q.toNat : Nat)
  (if d.negative then -n else n, Nat.pow 2 (-d.q).toNat)

/-- Number of binary digits of `n`, zero having none. -/
def bitLength (n : Nat) : Nat := if n = 0 then 0 else n.log2 + 1

/-- `n / d` rounded to the nearest integer, a tie going to the even one. -/
def roundHalfEven (n d : Nat) : Nat :=
  let t := n / d
  let r := 2 * (n % d)
  if r < d then t else if d < r then t + 1 else if t % 2 = 0 then t else t + 1

/-- The `Float` nearest to `n / d`; nothing when the quotient exceeds the range. -/
def nearest? (negative : Bool) (n d : Nat) : Option Float :=
  let e : Int := (bitLength n : Int) - bitLength d - 53
  let fit (e : Int) : Nat × Nat := (n * Nat.pow 2 (-e).toNat, d * Nat.pow 2 e.toNat)
  let e := if (fit e).1 / (fit e).2 < Nat.pow 2 53 then e else e + 1
  let e := if e < -1074 then -1074 else e
  let m := roundHalfEven (fit e).1 (fit e).2
  let (m, e) := if m = Nat.pow 2 53 then (Nat.pow 2 52, e + 1) else (m, e)
  if n = 0 then some (if negative then -0.0 else 0.0)
  else if e > 971 then none
  else
    let x := (Float.ofNat m).scaleB e
    some (if negative then -x else x)

/-- The integer part, toward zero; nothing for an infinity or no number. -/
def truncate? (x : Float) : Option Int :=
  if x.isFinite then
    let (n, d) := (decode x).ratio
    some (n.tdiv d)
  else none

/-- Exact order of two numbers given as ratios. -/
def compareRatio (a b : Int × Nat) : Ordering := compare (a.1 * b.2) (b.1 * a.2)

/-- Exact order of an integer and a `Float`; nothing when it is no number. -/
def compare? (n : Int) (x : Float) : Option Ordering :=
  if x.isNaN then none
  else if x.isInf then some (if x > 0 then .lt else .gt)
  else some (compareRatio (n, 1) (decode x).ratio)

end RankOne.Decimal
