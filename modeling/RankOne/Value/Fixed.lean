/-
  RankOne — arithmetic of numbers of fixed width.

  Integers of 64 bits wrap around, and nothing is refused for a division by zero:
  an integer gives zero, a floating-point number an infinity or no number.  A
  plain integer takes the width of the other operand, and must fit into it.

  * `Fixed`: an operand, and `Fixed.Pair`: two operands brought to one width;
  * `Fixed.arith`, `Fixed.test`: arithmetic and comparison.
-/
import RankOne.Value.Number

namespace RankOne

/-- An operand of arithmetic of fixed width. -/
inductive Fixed where
  /-- an integer without a width of its own -/
  | int (n : Int)
  | flag (b : Bool)
  | word (n : Int)
  | double (x : Float)

namespace Fixed

open Value (refuse)

/-- A value as an operand. -/
def ofValue? : Value → Option Fixed
  | .int n => some (int n)
  | .bool b | .flag b => some (flag b)
  | .word n => some (word n)
  | .float x _ | .double x _ => some (double x)
  | _ => none

/-- An integer modulo 2^64, nearest to zero. -/
def wrap (n : Int) : Int := Int.bmod n (Nat.pow 2 64)

/-- An integer that fits into 64 bits with a sign. -/
def checked (n : Int) : Except Error Int :=
  if -Nat.pow 2 63 ≤ n ∧ n < Nat.pow 2 63 then .ok n else refuse .overflow

/-- Two operands of one width. -/
inductive Pair where
  | flags (a b : Bool)
  | words (a b : Int)
  | doubles (x y : Float)

/-- An operand as an integer of 64 bits, if it is one. -/
def toWord? : Fixed → Option (Except Error Int)
  | int n => some (checked n)
  | flag b => some (.ok (Value.ofBool b))
  | word n => some (.ok n)
  | double _ => none

/-- An operand as a floating-point number. -/
def toDouble : Fixed → Except Error Float
  | int n | word n => Number.intToFloat n
  | flag b => .ok (Float.ofInt (Value.ofBool b))
  | double x => .ok x

/-- Two operands brought to one width. -/
def pair (a b : Fixed) : Except Error Pair :=
  match a, b with
  | flag a, flag b => .ok (.flags a b)
  | a, b => match a.toWord?, b.toWord? with
    | some a, some b => do return .words (← a) (← b)
    | _, _ => do return .doubles (← a.toDouble) (← b.toDouble)

/-- Arithmetic of integers of 64 bits. -/
def arithWord (op : Binary) (a b : Int) : Except Error Value :=
  match op with
  | .add => .ok (.word (wrap (a + b)))
  | .sub => .ok (.word (wrap (a - b)))
  | .mul => .ok (.word (wrap (a * b)))
  | .pow => if b < 0 then refuse .value
      else .ok (.word (wrap (power a b.toNat 64 1)))
  | .mod => .ok (.word (if b = 0 then 0 else a.fmod b))
  | .floorDiv => .ok (.word (if b = 0 then 0 else wrap (a.fdiv b)))
  | .shl => .ok (.word (if 0 ≤ b ∧ b < 64 then wrap (a * Nat.pow 2 b.toNat) else 0))
  | .shr => .ok (.word (if 0 ≤ b ∧ b < 64 then a.fdiv (Nat.pow 2 b.toNat) else if a < 0 then -1 else 0))
  | .and => .ok (.word (Int.bitAnd a b))
  | .or => .ok (.word (Int.bitOr a b))
  | .xor => .ok (.word (Int.bitXor a b))
  | _ => refuse .type
where
  /-- The power with an exponent of at most so many binary digits, by squaring. -/
  power (a : Int) (k : Nat) : Nat → Int → Int
    | 0, acc => acc
    | n + 1, acc =>
      if k = 0 then acc
      else power (wrap (a * a)) (k / 2) n (if k % 2 = 1 then wrap (acc * a) else acc)

/-- Quotient and remainder of floating-point numbers; by zero there is none. -/
def floorDouble (x y : Float) : Float × Float :=
  if y == 0 then (x / y, 0.0 / 0.0) else Number.floorPair x y

/-- Arithmetic of floating-point numbers of fixed width. -/
def arithDouble (op : Binary) (x y : Float) : Except Error Value :=
  match op with
  | .add => .ok (.double (x + y))
  | .sub => .ok (.double (x - y))
  | .mul => .ok (.double (x * y))
  | .div => .ok (.double (x / y))
  | .pow => .ok (.double (x.pow y))
  | .mod => .ok (.double (floorDouble x y).2)
  | .floorDiv => .ok (.double (floorDouble x y).1)
  | _ => refuse .type

/-- Arithmetic of truth values: sums and products are logical. -/
def arithFlag (op : Binary) (a b : Bool) : Except Error Value :=
  match op with
  | .add | .or => .ok (.flag (a || b))
  | .mul | .and => .ok (.flag (a && b))
  | .xor => .ok (.flag (a != b))
  | .sub => refuse .type
  | op => arithWord op (Value.ofBool a) (Value.ofBool b)

/-- Arithmetic of two operands, after they are brought to one width; a quotient
    is a floating-point number. -/
def arith (op : Binary) (a b : Fixed) : Except Error Value := do
  if op = .div then arithDouble .div (← a.toDouble) (← b.toDouble)
  else match ← pair a b with
    | .flags a b => arithFlag op a b
    | .words a b => arithWord op a b
    | .doubles x y => arithDouble op x y

/-- An operand as a number. -/
def toNumber : Fixed → Number
  | int n | word n => .int n
  | flag b => .int (Value.ofBool b)
  | double x => .float x

/-- The truth of a comparison: integers exactly, beside a floating-point number
    as such numbers. -/
def test (op : Binary) (a b : Fixed) : Bool :=
  match a, b with
  | double _, _ | _, double _ => match a.toDouble, b.toDouble with
    | .ok x, .ok y => Number.test op (.float x) (.float y)
    | _, _ => Number.test op a.toNumber b.toNumber
  | a, b => Number.test op a.toNumber b.toNumber

end Fixed

end RankOne
