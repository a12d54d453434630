/-
  RankOne — rank-one constraint systems.

  A row holds when `(A · w) * (B · w) = C · w` modulo the prime; `w 0 = 1`
  carries the constants.  The witness is laid out as the constant, the main
  outputs, the public inputs, the private inputs, and all other signals.

  * `Combination`, `Constraint`, `System`: sparse rows and the system;
  * `Combination.ofExpr`: an expression without products over witness positions;
  * `System.unsatisfiedRows`: the rows a witness violates;
  * `System.matrices`: the rows as dense matrices.
-/
import RankOne.Expr.Rows
import RankOne.Position

namespace RankOne

/-- A sparse linear combination: coefficients by witness position. -/
structure Combination where
  terms : List (Int × Int)
deriving DecidableEq, Repr

namespace Combination

/-- Add `c` modulo `p` to the coefficient at a position. -/
def accumulate (p : Nat) (i : Int) (c : Nat) : List (Int × Nat) → List (Int × Nat)
  | [] => [(i, c % p)]
  | (j, d) :: ts => if j = i then (j, (d + c) % p) :: ts else (j, d) :: accumulate p i c ts

/-- Insert a coefficient in order of positions. -/
def insertSorted (t : Int × Nat) : List (Int × Nat) → List (Int × Nat)
  | [] => [t]
  | u :: ts => if t.1 ≤ u.1 then t :: u :: ts else u :: insertSorted t ts

/-- Nonzero coefficients in order of positions. -/
def sortTerms (ts : List (Int × Nat)) : List (Int × Nat) :=
  (ts.filter (·.2 ≠ 0)).foldr insertSorted []

/-- An expression without products, the constant at position zero. -/
def ofExpr (index : Signal → Except Error Int) (e : Expr) : Except Error Combination := do
  if !e.products.isEmpty then .error (.notLinear e.text)
  else
    let start := if e.const = 0 then [] else [((0 : Int), e.const)]
    let ts ← e.linear.foldlM (fun acc t => do
      return accumulate e.field.p (← index t.1) t.2 acc) start
    return ⟨(sortTerms ts).map fun t => (t.1, (t.2 : Int))⟩

/-- The positions that occur. -/
def indices (l : Combination) : List Int := l.terms.map (·.1)

/-- No term at all. -/
def isEmpty (l : Combination) : Bool := l.terms.isEmpty

/-- The sum of the terms of a witness. -/
def dot (w : Array Int) : List (Int × Int) → Except Error Int
  | [] => .ok 0
  | (i, c) :: ts => do
    let v ← elementAt w i
    return c * v + (← dot w ts)

/-- The value on a witness, with the sign of the modulus; modulo zero there is
    none. -/
def evaluate (l : Combination) (w : Array Int) (p : Int) : Except Error Int := do
  let n ← dot w l.terms
  if p = 0 then .error (.fault .zeroDivision) else return n.fmod p

end Combination

/-- A row `A * B = C` with the component that emitted it. -/
structure Constraint where
  a : Combination
  b : Combination
  c : Combination
  origin : String
deriving DecidableEq, Repr

namespace Constraint

/-- A row without a product. -/
def isLinear (r : Constraint) : Bool := r.a.isEmpty || r.b.isEmpty

/-- Insert a position in order, once. -/
def insertIndex (i : Int) : List Int → List Int
  | [] => [i]
  | j :: js => if i < j then i :: j :: js else if i = j then j :: js else j :: insertIndex i js

/-- The positions that occur, in order. -/
def indices (r : Constraint) : List Int :=
  (r.a.indices ++ r.b.indices ++ r.c.indices).foldl (fun acc i => insertIndex i acc) []

/-- The row holds on a witness. -/
def isSatisfied (r : Constraint) (w : Array Int) (p : Int) : Except Error Bool := do
  let a ← r.a.evaluate w p
  let b ← r.b.evaluate w p
  let c ← r.c.evaluate w p
  return (a * b - c).fmod p == 0

end Constraint

/-- A rank-one constraint system. -/
structure System where
  /-- the modulus of the rows -/
  prime : Int
  /-- witness length, the constant included -/
  signals : Nat
  outputs : Nat
  publicInputs : Nat
  privateInputs : Nat
  constraints : List Constraint
deriving DecidableEq, Repr

namespace System

/-- Public values besides the constant. -/
def publicCount (s : System) : Nat := s.outputs + s.publicInputs

/-- The rows from the `i`-th on that a witness violates. -/
def failingFrom (p : Int) (w : Array Int) : Nat → List Constraint → Except Error (List Nat)
  | _, [] => .ok []
  | i, r :: rs => do
    let ok ← r.isSatisfied w p
    let rest ← failingFrom p w (i + 1) rs
    return if ok then rest else i :: rest

/-- The rows a witness violates. -/
def unsatisfiedRows (s : System) (w : Array Int) : Except Error (List Nat) :=
  if w.size ≠ s.signals then .error (.witnessLength w.size s.signals)
  else failingFrom s.prime w 0 s.constraints

/-- Every row holds. -/
def isSatisfied (s : System) (w : Array Int) : Except Error Bool := do
  return (← s.unsatisfiedRows w).isEmpty

/-- A dense row of canonical entries. -/
def denseRow (s : System) (f : PrimeField) (l : Combination) : Except Error (Array Nat) :=
  l.terms.foldlM (fun row t =>
    if f.isCanonical t.2 then
      match position? row.size t.1 with
      | some i => .ok (row.setIfInBounds i t.2.toNat)
      | none => .error (.fault .index)
    else .error (.fault .value)) (Array.replicate s.signals 0)

/-- The dense rows of the three matrices, row by row. -/
def denseRows (s : System) (f : PrimeField) :
    List Constraint → Except Error (List (Array Nat × Array Nat × Array Nat))
  | [] => .ok []
  | r :: rs => do
    let a ← s.denseRow f r.a
    let b ← s.denseRow f r.b
    let c ← s.denseRow f r.c
    return (a, b, c) :: (← denseRows s f rs)

/-- The matrices `A`, `B`, `C`, over the field of the system. -/
def matrices (s : System) (field? : Option PrimeField) :
    Except Error (List (Array Nat) × List (Array Nat) × List (Array Nat)) := do
  let f ← match field? with
    | some f => pure f
    | none => PrimeField.ofInt s.prime
  if f.p ≠ s.prime then .error (.otherPrime f.p s.prime)
  else
    let rows ← s.denseRows f s.constraints
    return (rows.map (·.1), rows.map (·.2.1), rows.map (·.2.2))

end System

end RankOne
