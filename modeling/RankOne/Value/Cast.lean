/-
  RankOne — numbers of fixed width made from other values.

  A sequence becomes a grid, and its items are made one by one.

  * `Value.toWord`, `Value.toFlag`, `Value.toDouble`: a value as a number of fixed
    width, or as a grid of such numbers.
-/
import RankOne.Value.Fixed
import RankOne.Value.Grid

namespace RankOne.Value

/-- Make a number of a value, or numbers of the items of a sequence. -/
def castWith (f : Value → Except Error Value) (v : Value) : Except Error Value :=
  match v with
  | list _ _ | tuple _ | grid _ _ => do
    let g ← gridOf v
    eachItem f g.shapeOf.length g
  | cell v => f v
  | v => f v

/-- A value as an integer of 64 bits. -/
def toWord : Value → Except Error Value :=
  castWith fun v => do return word (← Fixed.checked (← v.toInt))

/-- A value as a truth value of fixed width. -/
def toFlag : Value → Except Error Value :=
  castWith fun v => do return flag (← v.truth)

/-- A value as a floating-point number of fixed width; the absent value is not a
    number. -/
def toDouble : Value → Except Error Value :=
  castWith fun
    | none => .ok (double (0.0 / 0.0))
    | str s => match Decimal.parse? s.trimAscii.toString with
      | some x => .ok (double x)
      | Option.none => refuse .value
    | v => match Number.ofValue? v with
      | some x => do return double (← x.toFloat)
      | Option.none => refuse .type

end RankOne.Value
