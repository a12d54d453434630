/-
  RankOne — rows tried on host values.

  A vector offered to a system may hold any host values.  Integers are checked as
  a witness is; with other values the rows follow the arithmetic of host values.

  * `Combination.valueOn`, `Constraint.holdsOn`: a combination and a row on values;
  * `System.failingOn`: the rows that a vector of values violates.
-/
import RankOne.System
import RankOne.Value.Operators

namespace RankOne

/-- The value of a combination on host values. -/
def Combination.valueOn (l : Combination) (w : List Value) (p : Int) : Except Error Value := do
  let total ← l.terms.foldlM (fun acc t => do
    Value.binary .add acc (← Value.binary .mul (.int t.2) (← itemAt w t.1))) (Value.int 0)
  Value.binary .mod total (.int p)

/-- The row holds on host values. -/
def Constraint.holdsOn (r : Constraint) (w : List Value) (p : Int) : Except Error Bool := do
  let product ← Value.binary .mul (← r.a.valueOn w p) (← r.b.valueOn w p)
  let rest ← Value.binary .mod (← Value.binary .sub product (← r.c.valueOn w p)) (.int p)
  (← Value.binary .eq rest (.int 0)).truth

namespace System

/-- The integers of a vector, if it holds nothing else. -/
def integers? : List Value → Option (List Int)
  | [] => some []
  | .int n :: vs => (integers? vs).map (n :: ·)
  | .bool b :: vs => (integers? vs).map (Value.ofBool b :: ·)
  | _ => none

/-- The rows from the `i`-th on that host values violate. -/
def failingOnFrom (p : Int) (w : List Value) : Nat → List Constraint → Except Error (List Nat)
  | _, [] => .ok []
  | i, r :: rs => do
    let ok ← r.holdsOn w p
    let rest ← failingOnFrom p w (i + 1) rs
    return if ok then rest else i :: rest

/-- The rows that a vector of host values violates. -/
def failingOn (s : System) (w : List Value) : Except Error (List Nat) :=
  match integers? w with
  | some ns => s.unsatisfiedRows ns.toArray
  | none =>
    if w.length ≠ s.signals then .error (.witnessLength w.length s.signals)
    else failingOnFrom s.prime w 0 s.constraints

end System

end RankOne
