/-
  RankOne — arithmetic of host numbers.

  Integers are unbounded; quotients and negative powers of integers are
  floating-point numbers, nearest to the exact value.  Floor division and its
  remainder take the sign of the divisor.

  * `Binary`, `Unary`: the operators, with their symbols;
  * `Number`: an integer or a floating-point number;
  * `Number.arith`, `Number.compare`: arithmetic and exact comparison.
-/
import RankOne.Value.Convert

namespace RankOne

/-- Operators on two values. -/
inductive Binary where
  | add | sub | mul | div | pow
  | lt | le | gt | ge | eq | ne
  | mod | floorDiv | shl | shr | and | or | xor
deriving DecidableEq, Repr

namespace Binary

/-- The symbol of an operator. -/
def symbol : Binary → String
  | add => "+" | sub => "-" | mul => "*" | div => "/" | pow => "**"
  | lt => "<" | le => "<=" | gt => ">" | ge => ">=" | eq => "==" | ne => "!="
  | mod => "%" | floorDiv => "//" | shl => "<<" | shr => ">>"
  | and => "&" | or => "|" | xor => "^"

/-- All operators. -/
def all : List Binary :=
  [add, sub, mul, div, pow, lt, le, gt, ge, eq, ne, mod, floorDiv, shl, shr, and, or, xor]

/-- The operator of a symbol. -/
def ofSymbol? (s : String) : Option Binary := all.find? (·.symbol == s)

/-- The same comparison seen from the other side. -/
def swapped : Binary → Binary
  | lt => gt | gt => lt | le => ge | ge => le
  | op => op

/-- An operator that compares. -/
def isComparison : Binary → Bool
  | lt | le | gt | ge | eq | ne => true
  | _ => false

/-- The truth of a comparison under an order. -/
def holds (op : Binary) (o : Ordering) : Bool :=
  match op with
  | lt => o == .lt
  | le => o != .gt
  | gt => o == .gt
  | ge => o != .lt
  | eq => o == .eq
  | _ => o != .eq

end Binary

/-- Bitwise operations on integers in two's complement. -/
def Int.bitAnd (a b : Int) : Int :=
  match a, b with
  | .ofNat m, .ofNat n => (m &&& n : Nat)
  | .ofNat m, .negSucc n => (m ^^^ (m &&& n) : Nat)
  | .negSucc m, .ofNat n => (n ^^^ (n &&& m) : Nat)
  | .negSucc m, .negSucc n => .negSucc (m ||| n)

/-- Bitwise or. -/
def Int.bitOr (a b : Int) : Int := -(Int.bitAnd (-a - 1) (-b - 1)) - 1

/-- Bitwise exclusive or. -/
def Int.bitXor (a b : Int) : Int :=
  match a, b with
  | .ofNat m, .ofNat n => (m ^^^ n : Nat)
  | .ofNat m, .negSucc n => .negSucc (m ^^^ n)
  | .negSucc m, .ofNat n => .negSucc (m ^^^ n)
  | .negSucc m, .negSucc n => (m ^^^ n : Nat)

/-- A host number. -/
inductive Number where
  | int (n : Int)
  | float (x : Float)

namespace Number

open Value (refuse)

/-- A value as a number; truth values count as zero and one. -/
def ofValue? : Value → Option Number
  | .int n | .word n => some (int n)
  | .bool b | .flag b => some (int (Value.ofBool b))
  | .float x _ | .double x _ => some (float x)
  | _ => none

/-- A number as a value. -/
def toValue : Number → Value
  | int n => .int n
  | float x => .float x

/-- The floating-point number nearest to an integer. -/
def intToFloat (n : Int) : Except Error Float :=
  match Decimal.nearest? (n < 0) n.natAbs 1 with
  | some x => .ok x
  | none => refuse .overflow

/-- The number as a floating-point number. -/
def toFloat : Number → Except Error Float
  | int n => intToFloat n
  | float x => .ok x

/-- The quotient of two integers. -/
def divInt (a b : Int) : Except Error Number :=
  if b = 0 then refuse .zeroDivision
  else match Decimal.nearest? ((a < 0) != (b < 0)) a.natAbs b.natAbs with
    | some x => .ok (float x)
    | none => refuse .overflow

/-- The number with the size of one and the sign of another. -/
def withSign (x y : Float) : Float := if (Decimal.decode y).negative then -x.abs else x.abs

/-- The remainder with the sign of the dividend; between finite numbers it is
    exact. -/
def remainder (x y : Float) : Float :=
  if x.isFinite && y.isFinite then
    let (a, d) := (Decimal.decode x).ratio
    let (b, e) := (Decimal.decode y).ratio
    match Decimal.nearest? false ((a * e).natAbs % (b * d).natAbs) (d * e) with
    | some z => withSign z x
    | none => x
  else if x.isFinite && y.isInf then x
  else 0.0 / 0.0

/-- Floor division by a number that is not zero: quotient and remainder, each
    rounded once more than the exact remainder. -/
def floorPair (x y : Float) : Float × Float :=
  let r := remainder x y
  let q := (x - r) / y
  let (q, r) :=
    if r != 0 then if (y < 0) != (r < 0) then (q - 1, r + y) else (q, r)
    else (q, withSign 0 y)
  if q != 0 then
    let z := q.floor
    (if q - z > 0.5 then z + 1 else z, r)
  else (withSign 0 (x / y), r)

/-- Floor division: quotient and remainder. -/
def floorDivFloat (x y : Float) : Except Error (Float × Float) :=
  if y == 0 then refuse .zeroDivision else .ok (floorPair x y)

/-- Powers of floating-point numbers. -/
def powFloat (x y : Float) : Except Error Number :=
  if x == 0 && y < 0 then refuse .zeroDivision
  else
    let z := x.pow y
    if z.isNaN && !x.isNaN && !y.isNaN then refuse .type
    else if z.isInf && x.isFinite && y.isFinite then refuse .overflow
    else .ok (float z)

/-- The first number of binary digits that cannot be held. -/
def digitBound : Nat := Nat.pow 2 32

/-- A power of an integer. -/
def powInt (a : Int) (k : Nat) : Except Error Number :=
  if a.natAbs ≤ 1 then .ok (int (if k = 0 then 1 else if k % 2 = 0 then a * a else a))
  else if digitBound ≤ k then refuse .memory
  else .ok (int (a.pow k))

/-- An integer times a power of two. -/
def shiftLeft (a : Int) (k : Nat) : Except Error Number :=
  if a = 0 then .ok (int 0)
  else if Nat.pow 2 61 ≤ k / 30 then refuse .overflow
  else if digitBound ≤ k then refuse .memory
  else .ok (int (a * Nat.pow 2 k))

/-- An integer divided by a power of two, toward the lesser. -/
def shiftRight (a : Int) (k : Nat) : Int :=
  if Decimal.bitLength a.natAbs < k then (if a < 0 then -1 else 0) else a.fdiv (Nat.pow 2 k)

/-- Arithmetic of integers. -/
def arithInt (op : Binary) (a b : Int) : Except Error Number :=
  match op with
  | .add => .ok (int (a + b))
  | .sub => .ok (int (a - b))
  | .mul => .ok (int (a * b))
  | .div => divInt a b
  | .pow => if 0 ≤ b then powInt a b.toNat
      else if a = 0 then refuse .zeroDivision
      else do powFloat (← intToFloat a) (← intToFloat b)
  | .mod => if b = 0 then refuse .zeroDivision else .ok (int (a.fmod b))
  | .floorDiv => if b = 0 then refuse .zeroDivision else .ok (int (a.fdiv b))
  | .shl => if b < 0 then refuse .value else shiftLeft a b.toNat
  | .shr => if b < 0 then refuse .value else .ok (int (shiftRight a b.toNat))
  | .and => .ok (int (Int.bitAnd a b))
  | .or => .ok (int (Int.bitOr a b))
  | .xor => .ok (int (Int.bitXor a b))
  | _ => refuse .type

/-- Arithmetic of floating-point numbers. -/
def arithFloat (op : Binary) (x y : Float) : Except Error Number :=
  match op with
  | .add => .ok (float (x + y))
  | .sub => .ok (float (x - y))
  | .mul => .ok (float (x * y))
  | .div => if y == 0 then refuse .zeroDivision else .ok (float (x / y))
  | .pow => powFloat x y
  | .mod => do return float (← floorDivFloat x y).2
  | .floorDiv => do return float (← floorDivFloat x y).1
  | _ => refuse .type

/-- Arithmetic; a floating-point number on one side makes it floating-point. -/
def arith (op : Binary) : Number → Number → Except Error Number
  | int a, int b => arithInt op a b
  | a, b => do arithFloat op (← a.toFloat) (← b.toFloat)

/-- Exact order; none when a side is no number. -/
def compare : Number → Number → Option Ordering
  | int a, int b => some (Ord.compare a b)
  | int a, float y => Decimal.compare? a y
  | float x, int b => (Decimal.compare? b x).map Ordering.swap
  | float x, float y =>
    if x < y then some .lt else if x == y then some .eq else if x > y then some .gt else none

/-- The truth of a comparison; without an order only inequality holds. -/
def test (op : Binary) (a b : Number) : Bool :=
  match compare a b with
  | some o => op.holds o
  | none => op == .ne

end Number

end RankOne
