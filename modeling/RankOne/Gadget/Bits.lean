/-
  RankOne — binary digits and comparisons.

  * `decompose`: signals that are the binary digits of a value, least first;
  * `numToBits`: the digits of an input;
  * `lessThan`: of `in[0] + 2 ^ n - in[1]` the digit at place `n` is set exactly
    when `in[0] ≥ in[1]`, for inputs of at most `n` digits;
  * `lessEqThan`, `greaterThan`: by `lessThan` on changed inputs.
-/
import RankOne.Gadget.Indicator
import RankOne.Value.Operators

namespace RankOne.Gadget

open Build

variable {σ : Type}

/-- Hint and constrain the digits from place `i` on, and add them to the sum of
    the earlier ones, the digit at place `i` counting `weight`. -/
def digitsFrom (value : Expr) : Nat → Nat → Expr → List Signal → Build σ Expr
  | _, _, acc, [] => return acc
  | i, weight, acc, b :: bs => do
    hint b (.bit i) value
    constrainBit b
    digitsFrom value (i + 1) (weight + weight) (acc.add ((Expr.ofSignal b).scale weight)) bs

/-- Constrain signals to be the binary digits of a value. -/
def decompose (bits : List Signal) (value : Expr) : Build σ Unit := do
  let total ← digitsFrom value 0 1 (← const 0) bits
  constrain total value

/-- `out` holds the `n` binary digits of the input. -/
def numToBits (n : Value) : Build σ Unit := do
  let x ← signal .input "in"
  let bits ← signals .output "out" n
  decompose bits (.ofSignal x)

/-- Refuse a width whose `n + 1` digits could exceed the field. -/
def checkWidth (n : Value) : Build σ Unit := do
  let f ← field
  let small ← demand do (← Value.binary .lt n (.int 1)).truth
  let large ← if small then pure false else demand do
    (← Value.binary .ge (← Value.binary .add n (.int 1)) (.int (Decimal.bitLength f.p))).truth
  if small || large then throw (.comparatorWidth (← path) (← demand n.shownText) f.p)

/-- The power of two that keeps a difference of inputs positive; a width of fixed
    size gives a power of fixed size. -/
def offset : Value → Build σ Expr
  | .int n => const (Nat.pow 2 n.toNat)
  | n => do
    match ← demand (Value.binary .shl (.int 1) n) with
    | .int k | .word k => const k
    | _ => throw (.fault .type)

/-- `out` tells whether `in[0] < in[1]`, for inputs of `n` digits. -/
def lessThan (n : Value) : Build σ Unit := do
  checkWidth n
  let xs ← signals .input "in" (.int 2)
  let out ← signal .output "out"
  let width ← demand (Value.binary .add n (.int 1))
  let bits ← signals .intermediate "bits" width
  match xs with
  | [x, y] =>
    let shifted := (Expr.ofSignal x).add (← offset n)
    decompose bits (shifted.sub (.ofSignal y))
    let top ← demand (itemAt bits (← demand n.index))
    assign out ((← const 1).sub (.ofSignal top))
  | _ => throw (.fault .index)

/-- The template `LessThan(n)`. -/
def lessThanTemplate (n : Value) : Template σ := ⟨.of "LessThan" [n], lessThan n⟩

/-- `out` is `LessThan` of two expressions of the two inputs. -/
def byLessThan (n : Value) (sides : PrimeField → Signal → Signal → List Expr) :
    Build σ Unit := do
  let xs ← signals .input "in" (.int 2)
  let out ← signal .output "out"
  let lt ← component "lt" (lessThanTemplate n)
  match xs with
  | [x, y] =>
    assignAll (← terminalSignals lt "in") (sides (← field) x y)
    assign out (.ofSignal (← terminalSignal lt "out"))
  | _ => throw (.fault .index)

/-- `out` tells whether `in[0] ≤ in[1]`. -/
def lessEqThan (n : Value) : Build σ Unit :=
  byLessThan n fun f x y => [.ofSignal x, (Expr.ofSignal y).add (.ofInt f 1)]

/-- `out` tells whether `in[0] > in[1]`. -/
def greaterThan (n : Value) : Build σ Unit :=
  byLessThan n fun _ x y => [.ofSignal y, .ofSignal x]

end RankOne.Gadget
