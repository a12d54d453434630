/-
  RankOne — decimal texts of binary floating-point numbers.

  A number is written with the fewest decimal digits that read back as the same
  number; among those the nearest, a tie going to the even digit.

  * `digits`: the digits and the power of ten of the last one, found by trying
    grids of one to seventeen digits and testing the two neighbours of the
    value on each;
  * `render`: positional notation between `10 ^ -4` and `10 ^ 16`, scientific
    notation outside;
  * `parse?`: the number a decimal text denotes.
-/
import RankOne.Decimal.Binary

namespace RankOne.Decimal

/-- The numbers that read back as a positive dyadic number: an interval with
    its middle, over one denominator, its ends included or not. -/
structure Interval where
  low : Nat
  mid : Nat
  high : Nat
  den : Nat
  closed : Bool

/-- The interval of reals that round to `m · 2 ^ q`. -/
def Dyadic.interval (d : Dyadic) : Interval :=
  let s := Nat.pow 2 (d.q - 2).toNat
  let below := if d.m = Nat.pow 2 52 ∧ d.q > -1074 then 1 else 2
  { low := (4 * d.m - below) * s
    mid := 4 * d.m * s
    high := (4 * d.m + 2) * s
    den := Nat.pow 2 (2 - d.q).toNat
    closed := d.m % 2 = 0 }

/-- The interval in units of `10 ^ k`. -/
def Interval.scale (i : Interval) (k : Int) : Interval :=
  let up := Nat.pow 10 (-k).toNat
  { i with low := i.low * up, mid := i.mid * up, high := i.high * up, den := i.den * Nat.pow 10 k.toNat }

/-- An integer point lies in the interval. -/
def Interval.has (i : Interval) (n : Nat) : Bool :=
  if i.closed then i.low ≤ n * i.den && n * i.den ≤ i.high
  else i.low < n * i.den && n * i.den < i.high

/-- The integer point of the interval nearest to its middle. -/
def Interval.point? (i : Interval) : Option Nat :=
  let n := i.mid / i.den
  match i.has n, i.has (n + 1) with
  | true, true =>
    let r := 2 * (i.mid % i.den)
    if r < i.den then some n else if i.den < r then some (n + 1)
    else some (if n % 2 = 0 then n else n + 1)
  | true, false => some n
  | false, true => some (n + 1)
  | false, false => none

/-- The exponent of the leading decimal digit of the middle, found from a guess
    that is at most a few off. -/
def Interval.leading (i : Interval) (guess : Int) : Int :=
  let atLeast (e : Int) : Bool := i.den * Nat.pow 10 e.toNat ≤ i.mid * Nat.pow 10 (-e).toNat
  ((List.range 7).map fun j : Nat => guess + 3 - (j : Int)).find? atLeast |>.getD (guess - 4)

/-- The fewest digits that read back, with the power of ten of the last one. -/
def digits (d : Dyadic) : Nat × Int :=
  let i := d.interval
  let guess : Int := ((bitLength d.m : Int) + d.q - 1) * 30103 / 100000
  let top := i.leading guess
  let found := (List.range 17).findSome? fun n : Nat =>
    let k : Int := top - (n : Int)
    (i.scale k).point?.map fun v => (v, k)
  found.getD (d.m, d.q)

/-- Trailing zeros moved into the exponent. -/
def dropZeros : List Char → List Char
  | cs => (cs.reverse.dropWhile (· == '0')).reverse

/-- Positional or scientific notation of digits whose point stands after the
    first `point` of them. -/
def place (ds : List Char) (point : Int) : String :=
  if -4 < point ∧ point ≤ 16 then
    if point ≤ 0 then "0." ++ String.ofList (List.replicate (-point).toNat '0' ++ ds)
    else
      let whole := ds.take point.toNat
      let zeros := List.replicate (point.toNat - whole.length) '0'
      let part := ds.drop point.toNat
      String.ofList (whole ++ zeros) ++ "." ++ (if part.isEmpty then "0" else String.ofList part)
  else
    let e := point - 1
    let mag := toString e.natAbs
    let tail := ds.drop 1
    String.ofList (ds.take 1) ++ (if tail.isEmpty then "" else "." ++ String.ofList tail) ++ "e"
      ++ (if e < 0 then "-" else "+") ++ (if mag.length < 2 then "0" ++ mag else mag)

/-- The text of a number. -/
def render (x : Float) : String :=
  if x.isNaN then "nan"
  else if x.isInf then if x > 0 then "inf" else "-inf"
  else
    let d := decode x
    let sign := if d.negative then "-" else ""
    if d.m = 0 then sign ++ "0.0"
    else
      let (v, k) := digits d
      let ds := (toString v).toList
      sign ++ place (dropZeros ds) ((ds.length : Int) + k)

/-- A run of decimal digits as a number, with how many there are. -/
def readDigits (cs : List Char) : Nat × Nat × List Char :=
  let ds := cs.takeWhile Char.isDigit
  (ds.foldl (fun n c => 10 * n + (c.toNat - '0'.toNat)) 0, ds.length, cs.dropWhile Char.isDigit)

/-- The exponent part of a decimal text. -/
def readExponent : List Char → Option Int
  | [] => some 0
  | c :: '-' :: cs => if c = 'e' ∨ c = 'E' then final (readDigits cs) (-1) else none
  | c :: '+' :: cs => if c = 'e' ∨ c = 'E' then final (readDigits cs) 1 else none
  | c :: cs => if c = 'e' ∨ c = 'E' then final (readDigits cs) 1 else none
where
  final (r : Nat × Nat × List Char) (sign : Int) : Option Int :=
    if r.2.1 > 0 ∧ r.2.2.isEmpty then some (sign * r.1) else none

/-- An unsigned decimal text. -/
def readUnsigned (negative : Bool) (cs : List Char) : Option Float :=
  let (whole, n, rest) := readDigits cs
  let (part, k, rest) := match rest with
    | '.' :: rest => readDigits rest
    | rest => (0, 0, rest)
  if n + k = 0 then none
  else do
    let e ← readExponent rest
    let v := whole * Nat.pow 10 k + part
    let e := e - k
    let x := nearest? negative (v * Nat.pow 10 e.toNat) (Nat.pow 10 (-e).toNat)
    x <|> some (if negative then -(1.0 / 0.0) else 1.0 / 0.0)

/-- The number a decimal text denotes. -/
def parse? (s : String) : Option Float :=
  match s with
  | "nan" => some (0.0 / 0.0)
  | "inf" => some (1.0 / 0.0)
  | "-inf" => some (-(1.0 / 0.0))
  | _ => match s.toList with
    | '-' :: cs => readUnsigned true cs
    | cs => readUnsigned false cs

end RankOne.Decimal
