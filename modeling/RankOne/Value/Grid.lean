/-
  RankOne — grids, rectangular sequences with items of one type.

  The items of a grid are brought to a common type: truth values among integers
  count as zero and one, integers among floating-point numbers become such
  numbers, and so do integers of which some fit only with a sign and some only
  without.  Integers too wide for a machine word stay as they are.

  * `Width`: the type an item asks for, and the common type of two;
  * `gridOf`: the grid of nested lists, which must be rectangular;
  * `spread`: an operation on the items of two grids, of which the smaller one is
    repeated along the dimensions that it lacks.
-/
import RankOne.Value.Number

namespace RankOne.Value

/-- The type an item of a grid asks for. -/
inductive Width where
  /-- a truth value -/
  | bit
  /-- an integer that fits with a sign -/
  | signed
  /-- an integer that fits only without a sign -/
  | unsigned
  /-- a floating-point number -/
  | double
  | text
  /-- any value, kept as it is -/
  | any
deriving DecidableEq, Repr

/-- The type that an item asks for. -/
def width : Value → Width
  | bool _ | flag _ => .bit
  | int n | word n =>
    if -Nat.pow 2 63 ≤ n ∧ n < Nat.pow 2 63 then .signed
    else if 0 ≤ n ∧ n < Nat.pow 2 64 then .unsigned
    else .any
  | float _ _ | Value.double _ _ => .double
  | str _ => .text
  | cell v => v.width
  | _ => .any

/-- The common type of two. -/
def Width.join : Width → Width → Width
  | .any, _ | _, .any => .any
  | .text, _ | _, .text => .text
  | .double, _ | _, .double => .double
  | .signed, .unsigned | .unsigned, .signed => .double
  | .unsigned, _ | _, .unsigned => .unsigned
  | .signed, _ | _, .signed => .signed
  | .bit, .bit => .bit

/-- A plain item brought to a type. -/
def Width.bringBare : Width → Value → Value
  | .signed, bool b | .unsigned, bool b => int (ofBool b)
  | .double, bool b => float (Float.ofInt (ofBool b))
  | .double, int n => match Number.intToFloat n with
    | .ok x => float x
    | .error _ => int n
  | .text, v => str v.shown
  | _, v => v

/-- An item brought to a type; the grid carries the width, not its items. -/
def Width.bring (w : Width) (v : Value) : Value := w.bringBare v.bare

mutual

/-- The items inside nested lists. -/
def leaves : Value → List Value
  | list xs _ | tuple xs | grid xs _ => leavesAll xs
  | v => [v]

/-- The items inside a list. -/
def leavesAll : List Value → List Value
  | [] => []
  | v :: vs => leaves v ++ leavesAll vs

end

mutual

/-- The sizes of nested lists, if they are rectangular. -/
def sizes? : Value → Option (List Nat)
  | list xs _ | tuple xs | grid xs _ => do
    let inner ← sizesAll? xs
    return xs.length :: inner
  | _ => some []

/-- The common sizes of the items of a list. -/
def sizesAll? : List Value → Option (List Nat)
  | [] => some []
  | [v] => sizes? v
  | v :: vs => do
    let a ← sizes? v
    let b ← sizesAll? vs
    if a = b then return a else Option.none

end

mutual

/-- Nested lists as grids with items of a type. -/
def shaped (w : Width) : Value → Value
  | list xs _ | tuple xs | grid xs _ => grid (shapedAll w xs)
  | v => w.bring v

/-- The items of a list as grids. -/
def shapedAll (w : Width) : List Value → List Value
  | [] => []
  | v :: vs => shaped w v :: shapedAll w vs

end

/-- The grid of a value: nested lists become rows, one item a cell. -/
def gridOf (v : Value) : Except Error Value :=
  match sizes? v with
  | Option.none => refuse .value
  | some [] => .ok (cell v.bare)
  | some _ => .ok (shaped ((leaves v).foldl (fun w x => w.join x.width) .bit) v)

/-! ## Operations item by item -/

/-- A number of fixed width or a grid. -/
def isFixed : Value → Bool
  | word _ | flag _ | double _ _ | cell _ | grid _ _ => true
  | _ => false

/-- A value as an operand beside a grid: a sequence becomes a grid, and a grid
    without dimensions its item. -/
def asGrid : Value → Except Error Value
  | list xs _ => gridOf (list xs)
  | tuple xs => gridOf (tuple xs)
  | range a b s => do gridOf (list (← items (range a b s)))
  | cell v => .ok v.scalar
  | v => .ok v

/-- The sizes of a value along its dimensions. -/
def shapeOf : Value → List Nat
  | grid xs _ => gridShape xs
  | _ => []

/-- Sizes that agree, the last dimension first; a size of one fits any other. -/
def fit : List Nat → List Nat → Bool
  | a :: as, b :: bs => (a == b || a == 1 || b == 1) && fit as bs
  | _, _ => true

/-- An operation item by item, with fuel for the dimensions. -/
def spreadAt (f : Value → Value → Except Error Value) : Nat → Value → Value → Except Error Value
  | 0, a, b => f a b
  | fuel + 1, a, b =>
    let each (g : Value → Except Error Value) (xs : List Value) : Except Error Value := do
      return grid (← xs.mapM fun x => do return (← g x.scalar).bare)
    match a, b with
    | grid xs _, grid ys _ =>
      let m := (shapeOf a).length
      let n := (shapeOf b).length
      if n < m then each (spreadAt f fuel · b) xs
      else if m < n then each (spreadAt f fuel a ·) ys
      else match xs, ys with
        | [x], ys => each (spreadAt f fuel x.scalar ·) ys
        | xs, [y] => each (spreadAt f fuel · y.scalar) xs
        | xs, ys => do
          return grid (← (xs.zip ys).mapM fun p => do
            return (← spreadAt f fuel p.1.scalar p.2.scalar).bare)
    | grid xs _, v => each (spreadAt f fuel · v) xs
    | v, grid ys _ => each (spreadAt f fuel v ·) ys
    | a, b => f a b

/-- An operation on two values, item by item; their sizes must agree. -/
def spread (f : Value → Value → Except Error Value) (a b : Value) : Except Error Value := do
  let a ← a.asGrid
  let b ← b.asGrid
  let m := a.shapeOf
  let n := b.shapeOf
  if fit m.reverse n.reverse then spreadAt f (m.length + n.length) a b else refuse .value

/-- An operation on the items of a value, with fuel for the dimensions. -/
def eachItem (f : Value → Except Error Value) : Nat → Value → Except Error Value
  | fuel + 1, grid xs _ => do
    return grid (← xs.mapM fun x => do return (← eachItem f fuel x.scalar).bare)
  | _, v => f v

end RankOne.Value
