/-
  RankOne — decimal texts with a given number of places.

  The value is a ratio of naturals; its digits are those of the nearest decimal
  with that many places, a tie going to the even digit.

  * `significant`: the leading digits, with the exponent of the first;
  * `fixedText`: a given number of digits after the point;
  * `exponentText`: one digit before the point, and a power of ten;
  * `generalText`: one of the two, by the size of the number.
-/
import RankOne.Decimal.Binary

namespace RankOne.Decimal

/-- The exponent of the leading decimal digit of a positive ratio, found from a
    guess that is at most a few off. -/
def leading (n d : Nat) : Int :=
  let guess : Int := ((bitLength n : Int) - bitLength d) * 30103 / 100000
  let atLeast (e : Int) : Bool := d * Nat.pow 10 e.toNat ≤ n * Nat.pow 10 (-e).toNat
  ((List.range 7).map fun j : Nat => guess + 3 - (j : Int)).find? atLeast |>.getD (guess - 4)

/-- A ratio in units of `10 ^ k`, rounded. -/
def roundAt (n d : Nat) (k : Int) : Nat :=
  roundHalfEven (n * Nat.pow 10 (-k).toNat) (d * Nat.pow 10 k.toNat)

/-- The first `count + 1` digits of a ratio, with the exponent of the first. -/
def significant (n d count : Nat) : Nat × Int :=
  if n = 0 then (0, 0)
  else
    let e := leading n d
    let v := roundAt n d (e - count)
    if v < Nat.pow 10 (count + 1) then (v, e) else (v / 10, e + 1)

/-- A natural with at least `width` digits. -/
def padded (width v : Nat) : String :=
  let ds := toString v
  String.ofList (List.replicate (width - ds.length) '0') ++ ds

/-- Digits with a point before the last `places`; without places the point
    stands only when asked for. -/
def pointed (v places : Nat) (point : Bool) : String :=
  let ds := (padded (places + 1) v).toList
  let whole := String.ofList (ds.take (ds.length - places))
  if places = 0 then (if point then whole ++ "." else whole)
  else whole ++ "." ++ String.ofList (ds.drop (ds.length - places))

/-- A ratio with `places` digits after the point. -/
def fixedText (n d places : Nat) (point : Bool) : String :=
  pointed (roundAt n d (-places)) places point

/-- A power of ten with a sign and at least two digits. -/
def powerText (e : Int) : String :=
  "e" ++ (if e < 0 then "-" else "+") ++ padded 2 e.natAbs

/-- A ratio with one digit before the point and `places` after it. -/
def exponentText (n d places : Nat) (point : Bool) : String :=
  let (v, e) := significant n d places
  pointed v places point ++ powerText e

/-- A text without the zeros after the last other digit behind a point, and
    without a point at the end. -/
def stripZeros (s : String) : String :=
  if s.toList.contains '.' then
    let cs := s.toList.reverse.dropWhile (· == '0')
    String.ofList (match cs with
      | '.' :: rest => rest.reverse
      | cs => cs.reverse)
  else s

/-- A ratio with `count` significant digits, positional for exponents from `-4`
    to below `count`; zeros at the end are kept only when asked for. -/
def generalText (n d count : Nat) (keep : Bool) : String :=
  let count := max count 1
  let (v, e) := significant n d (count - 1)
  let strip (s : String) : String := if keep then s else stripZeros s
  if -4 ≤ e ∧ e < count then strip (fixedText n d ((count : Int) - 1 - e).toNat keep)
  else strip (pointed v (count - 1) keep) ++ powerText e

end RankOne.Decimal
