/-
  RankOne — field operations on host values.

  Between integers these are the operations of the field.  Other values go through
  the operators of the host, so that a fraction stays a fraction and a signal is
  refused; an inverse and a field element need an integer.

  * `FieldOperation`: the operations;
  * `FieldOperation.perform`: an operation on arguments.
-/
import RankOne.Value.Operators

namespace RankOne

/-- Operations of a field. -/
inductive FieldOperation where
  | reduce | isCanonical | neg | add | sub | mul | inv | div | toSigned
  /-- a value as an element -/
  | element
  /-- the items of a sequence as elements -/
  | array
deriving DecidableEq, Repr

namespace FieldOperation

open Value (refuse)

variable (f : PrimeField)

/-- The modulus as a value. -/
def modulus : Value := .int f.p

/-- An operator, and the remainder of its result. -/
def modular (op : Binary) (a b : Value) : Except Error Value := do
  Value.binary .mod (← Value.binary op a b) (modulus f)

/-- The integers of a value that can be an element or an array of them. -/
def integer : Value → Except Error Int
  | .int n | .word n => .ok n
  | .grid [v] _ => integer v
  | _ => refuse .type

/-- A value as an element; a grid becomes an array of elements. -/
def elementOf (v : Value) : Except Error Value := do
  let v ← Value.binary .mod v (modulus f)
  Value.eachItem (fun x => do return .int (← integer x)) v.shapeOf.length v

/-- The inverse of a value. -/
def inverse (a : Value) : Except Error Value := do
  let a ← Value.binary .mod a (modulus f)
  if ← (← Value.binary .eq a (.int 0)).truth then .error .inverseOfZero
  else return .int (f.inverse (← integer a))

/-- An operation on arguments, whose number must agree. -/
def perform : FieldOperation → List Value → Except Error Value
  | reduce, [x] => do return .int (f.reduce (← x.toInt))
  | isCanonical, [x] => do
    let least ← Value.binary .le (.int 0) x
    if ← least.truth then Value.binary .lt x (modulus f) else return least
  | neg, [a] => do Value.binary .mod (← Value.unary .neg a) (modulus f)
  | add, [a, b] => modular f .add a b
  | sub, [a, b] => modular f .sub a b
  | mul, [a, b] => modular f .mul a b
  | inv, [a] => inverse f a
  | div, [a, b] => do modular f .mul a (← inverse f b)
  | toSigned, [x] => do
    let x ← Value.binary .mod x (modulus f)
    if ← (← Value.binary .gt x (.int (f.p / 2 : Nat))).truth then Value.binary .sub x (modulus f)
    else return x
  | element, [x] => elementOf f x
  | array, [xs] => do return .list (← (← xs.items).mapM (elementOf f))
  | _, _ => refuse .type

end FieldOperation

end RankOne
