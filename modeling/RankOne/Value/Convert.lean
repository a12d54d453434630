/-
  RankOne — conversions of host values.

  * `index`: a value as a position or size, which must be an integer known at
    compile time;
  * `scalar`, `bare`: an item of a grid with the width of the grid, and without;
  * `truth`: a value as a condition;
  * `toInt`: a value as an integer, texts and fractions included;
  * `length`, `items`: the items of a sequence;
  * `static`: a template argument, in which no signal may occur.
-/
import RankOne.Text.Digit
import RankOne.Value.Basic

namespace RankOne.Value

/-- A failed host operation. -/
def refuse {α : Type} (f : Fault) : Except Error α := .error (.fault f)

/-- The constant of an expression without signals. -/
def staticExpr (what : String) (e : Expr) : Except Error Int :=
  if e.degree > 0 then .error (.dependsOnSignal what e.text) else .ok e.const

/-- One for true, zero for false. -/
def ofBool (b : Bool) : Int := if b then 1 else 0

/-- A value as a position or size. -/
def index : Value → Except Error Int
  | int n => .ok n
  | bool b => .ok (ofBool b)
  | word n => .ok n
  | cell (int n) => .ok n
  | signal s => .error (.dependsOnSignal "integer value" s.path)
  | expr e _ => staticExpr "integer value" e
  | _ => refuse .type

/-- The number of binary digits of an integer; other numbers have no such
    attribute. -/
def bitLength : Value → Except Error Nat
  | int n => .ok (Decimal.bitLength n.natAbs)
  | bool b => .ok (if b then 1 else 0)
  | _ => refuse .attribute

/-- An item of a grid, with the width of the grid. -/
def scalar : Value → Value
  | int n => if -Nat.pow 2 63 ≤ n ∧ n < Nat.pow 2 63 then word n else int n
  | bool b => flag b
  | float x mark => double x mark
  | v => v

/-- A value as an item of a grid. -/
def bare : Value → Value
  | word n => int n
  | flag b => bool b
  | double x mark => float x mark
  | cell v => v
  | v => v

/-! ## Sequences -/

/-- Sizes from here on exceed a machine word. -/
def sizeBound : Nat := Nat.pow 2 63

/-- Number of integers in a range. -/
def rangeLength (start stop step : Int) : Nat :=
  if step > 0 then ((stop - start + step - 1) / step).toNat
  else ((start - stop - step - 1) / (-step)).toNat

/-- The integers of a range. -/
def rangeItems (start stop step : Int) : List Int :=
  (List.range (rangeLength start stop step)).map fun i : Nat => start + step * (i : Int)

/-- Refuse a sequence that is too long to be held. -/
def checkLength (n : Nat) : Except Error Unit :=
  if n ≥ sizeBound then refuse .overflow
  else if n ≥ Nat.pow 2 32 then refuse .memory
  else .ok ()

/-- The number of items of a sequence. -/
def length : Value → Except Error Nat
  | str s => .ok s.length
  | list xs _ | tuple xs | grid xs _ => .ok xs.length
  | table es _ => .ok es.length
  | range a b s =>
    let n := rangeLength a b s
    if n ≥ sizeBound then refuse .overflow else .ok n
  | array items _ _ => .ok items.length
  | signals ss => .ok ss.length
  | slots a => if a.shape.headD 0 < 0 then refuse .value else .ok a.width
  | _ => refuse .type

/-- The items of a sequence, in order; a table has its keys. -/
def items : Value → Except Error (List Value)
  | tuple xs | list xs _ => .ok xs
  | grid xs _ => .ok (xs.map scalar)
  | str s => .ok (s.toList.map fun c => .str (String.singleton c))
  | table es _ => .ok (es.map (·.1))
  | range a b s => do
    checkLength (rangeLength a b s)
    return (rangeItems a b s).map .int
  | array items _ _ => .ok (items.map .ofBus)
  | signals ss => .ok (ss.map .signal)
  | _ => refuse .type

/-- A value that can be found again in a table. -/
def isHashable : Value → Bool
  | list _ _ | table _ _ | expr _ _ | grid _ _ | cell _ => false
  | tuple xs => allHashable xs
  | _ => true
where
  /-- All items of a tuple can be found again. -/
  allHashable : List Value → Bool
    | [] => true
    | x :: xs => isHashable x && allHashable xs

/-! ## Conditions and integers -/

/-- A value as a condition. -/
def truth : Value → Except Error Bool
  | none => .ok false
  | bool b | flag b => .ok b
  | int n | word n => .ok (n != 0)
  | float x _ | double x _ => .ok (x != 0)
  | cell v => truth v
  | grid [v] _ => truth v
  | grid _ _ => refuse .value
  | signal s => .error (.dependsOnSignal "truth value" s.path)
  | expr e _ => (staticExpr "truth value" e).map (· != 0)
  | str s => .ok !s.isEmpty
  | list xs _ | tuple xs => .ok !xs.isEmpty
  | table es _ => .ok !es.isEmpty
  | range a b s => .ok (rangeLength a b s != 0)
  | array items _ _ => .ok !items.isEmpty
  | signals ss => .ok !ss.isEmpty
  | slots a => do return (← length (slots a)) != 0
  | component _ | template _ _ _ | field _ | kind _ | combination _ => .ok true

/-- Decimal digits with single underscores between them. -/
def readDecimal (acc : Nat) : List Char → Option Nat
  | [] => some acc
  | c :: cs =>
    match Text.digit? c with
    | some d => readDecimal (10 * acc + d) cs
    | Option.none => match c, cs with
      | '_', c :: _ => if (Text.digit? c).isSome then readDecimal acc cs else Option.none
      | _, _ => Option.none

/-- An integer without a sign, of at most so many digits as can be written. -/
def readUnsigned : List Char → Option Nat
  | [] => Option.none
  | c :: cs =>
    if (Text.digit? c).isNone then Option.none
    else if maxDigits < ((c :: cs).filter (· ≠ '_')).length then Option.none
    else readDecimal 0 (c :: cs)

/-- An integer in writing: blanks around, a sign, digits. -/
def readInt (s : String) : Option Int :=
  let cs := (s.toList.dropWhile Text.isBlank).reverse.dropWhile Text.isBlank |>.reverse
  match cs with
  | '-' :: cs => (readUnsigned cs).map fun n => -(n : Int)
  | '+' :: cs => (readUnsigned cs).map Int.ofNat
  | cs => (readUnsigned cs).map Int.ofNat

/-- A fraction cut toward zero. -/
def floatToInt (x : Float) : Except Error Int :=
  match Decimal.truncate? x with
  | some n => .ok n
  | Option.none => refuse (if x.isNaN then .value else .overflow)

/-- A value as an integer. -/
def toInt : Value → Except Error Int
  | float x _ | double x _ => floatToInt x
  | flag b => .ok (ofBool b)
  | str s => match readInt s with
    | some n => .ok n
    | Option.none => refuse .value
  | cell v => toInt v
  | grid [v] _ => toInt v
  | v => v.index

mutual

/-- A template argument: lists become tuples, constant expressions their
    values, and signals are refused. -/
def static : Value → Except Error Value
  | signal s => .error (.signalParameter s.path)
  | expr e _ => if e.degree > 0 then .error (.symbolicParameter e.text) else .ok (.int e.const)
  | list xs _ | tuple xs => do return .tuple (← statics xs)
  | v => .ok v

/-- Template arguments, left to right. -/
def statics : List Value → Except Error (List Value)
  | [] => .ok []
  | v :: vs => do
    let v ← v.static
    return v :: (← statics vs)

end

end RankOne.Value
