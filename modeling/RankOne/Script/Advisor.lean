/-
  RankOne — the hints that scripts can ask for.

  Some work on the dependencies as field elements, some on their canonical
  integers, some give a fixed result or fail.

  * `advise`: a host value as advice: integers are accepted, all else is refused;
  * `Advisor`: the computations;
  * `onValues`, `bitAt`, `isAt`: computations whose parameter is any host value;
  * `Advisor.hint`: a computation as a hint under a name.
-/
import RankOne.Hint
import RankOne.Value.Operators

namespace RankOne.Script

open Hint (give)

/-- A host value as advice. -/
def advise : Value → Advice
  | .int n | .word n | .cell (.int n) => .value n
  | .cell v => other v
  | v => other v
where
  /-- A result that is no integer, as it is written. -/
  other (v : Value) : Advice := match v.spelled with
    | .ok text => .refused text
    | .error e => .unwritten e

/-- A computation for hints. -/
inductive Advisor where
  /-- the dependency itself -/
  | same
  -- field operations
  | add | sub | mul | div
  | power (k : Int)
  -- operations on canonical integers
  | quotient | remainder | total | negated
  | plus (k : Value)
  | modulo (m : Nat)
  /-- the number of dependencies -/
  | count
  /-- a fixed value -/
  | constant (v : Value)
  /-- all dependencies in a list, which is refused -/
  | all
  -- failures
  | failing (reason : String)
  | dividing
  | raising (e : Error) (h : e.isCircuit = true)
  -- hints of the library
  | inverse | inverseOrZero
  | bit (k : Value)
  | isPosition (i : Value)

namespace Advisor

/-- The value `r`, unless the divisor is zero. -/
def unlessZero (divisor : Nat) (r : Int) : Except HintFault Advice :=
  if divisor = 0 then .error .zeroDivision else give r

/-- A field power with an integer exponent. -/
def powInt (f : PrimeField) (a : Nat) (k : Int) : Except HintFault Advice :=
  if 0 ≤ k then give (f.pow a k.toNat)
  else unlessZero a (f.pow (f.inverse a) (-k).toNat)

/-- A computation on one dependency. -/
def one (args : List Nat) (r : Nat → Except HintFault Advice) : Except HintFault Advice :=
  match args with
  | [a] => r a
  | _ => .error (.failed s!"expected 1 value, got {args.length}")

/-- A computation on two dependencies. -/
def two (args : List Nat) (r : Nat → Nat → Except HintFault Advice) : Except HintFault Advice :=
  match args with
  | [a, b] => r a b
  | _ => .error (.failed s!"expected 2 values, got {args.length}")

/-- An operator on two host values; operands that it does not take are named. -/
def onValues (op : Binary) (a b : Value) : Except HintFault Value :=
  match Value.binary op a b with
  | .ok v => .ok v
  | .error (.fault .zeroDivision) => .error .zeroDivision
  | .error (.fault .type) => .error <| .failed
    s!"unsupported operand type(s) for {op.symbol}: '{a.typeName}' and '{b.typeName}'"
  | .error (.fault .overflow) => .error (.failed "int too large to convert to float")
  | .error (.fault .value) => .error (.failed "negative shift count")
  | .error e => .error (if h : e.isCircuit then .raised e h else .failed "")

/-- The integer that a host value is, if it is one. -/
def integer? : Value → Option Int
  | .int n => some n
  | .bool b => some (Value.ofBool b)
  | _ => none

/-- The binary digit at a place given by a host value. -/
def bitAt (k : Value) : Hint where
  name := s!"bit{k.shown}"
  run f args := match integer? k, args with
    | some n, _ => (Hint.bit n).run f args
    | none, [a] => do return advise (← onValues .and (← onValues .shr (.int a) k) (.int 1))
    | none, _ => (Hint.bit 0).run f args

/-- One at a value given by a host value, zero elsewhere. -/
def isAt (i : Value) : Hint where
  name := s!"is_position{i.shown}"
  run f args := match integer? i, args with
    | some n, _ => (Hint.isPosition n).run f args
    | none, [a] => match Value.isEqual (.int a) i with
      | .ok b => give (Value.ofBool b)
      | .error _ => .error <| .failed <|
        "The truth value of an array with more than one element is ambiguous. " ++
        "Use a.any() or a.all()"
    | none, _ => (Hint.isPosition 0).run f args

/-- What a computation gives for the values of the dependencies. -/
def run (f : PrimeField) (args : List Nat) : Advisor → Except HintFault Advice
  | same => one args fun a => give a
  | add => two args fun a b => give (f.add a b)
  | sub => two args fun a b => give (f.sub a b)
  | mul => two args fun a b => give (f.mul a b)
  | div => two args fun a b => unlessZero b (f.mul a (f.inverse b))
  | power k => one args fun a => powInt f a k
  | quotient => two args fun a b => unlessZero b (a / b)
  | remainder => two args fun a b => unlessZero b (a % b)
  | total => give (args.foldl (· + ·) 0 : Nat)
  | negated => one args fun a => give (-(a : Int))
  | plus k => one args fun a => do return advise (← onValues .add (.int a) k)
  | modulo m => one args fun a => give (a % m : Nat)
  | count => give args.length
  | constant v => .ok (advise v)
  | all => .ok (advise (.list (args.map fun a : Nat => .int a)))
  | failing reason => .error (.failed reason)
  | dividing => .error .zeroDivision
  | raising e h => .error (.raised e h)
  | inverse => Hint.inverse.run f args
  | inverseOrZero => Hint.inverseOrZero.run f args
  | bit k => (bitAt k).run f args
  | isPosition i => (isAt i).run f args

/-- A computation as a hint; the hints of the library keep their names. -/
def hint (name : String) : Advisor → Hint
  | inverse => .inverse
  | inverseOrZero => .inverseOrZero
  | bit k => bitAt k
  | isPosition i => isAt i
  | a => { name, run := fun f args => a.run f args }

end Advisor

end RankOne.Script
