/-
  RankOne — indicators and other templates of a few rows.

  * `isZero`, `isEqual`: one hint and two rows.  With `out = 1 - x · inv` and
    `out · x = 0`, a nonzero `x` forces `out = 0` and then `inv = 1 / x`, and a
    zero `x` forces `out = 1`;
  * `assertBool`: a row that only `0` and `1` satisfy;
  * `inverse`, `square`, `sum`: arithmetic of their inputs.
-/
import RankOne.Build.Statement

namespace RankOne.Gadget

open Build

variable {σ : Type}

/-- `out = 1` if `x = 0`, else `out = 0`. -/
def indicate (x : Expr) (out inv : Signal) : Build σ Unit := do
  hint inv .inverseOrZero x
  let product ← times x (.ofSignal inv)
  assign out ((← const 1).sub product)
  let product ← times (.ofSignal out) x
  constrain product (← const 0)

/-- `out` tells whether the input is zero. -/
def isZero : Build σ Unit := do
  let x ← signal .input "in"
  let out ← signal .output "out"
  let inv ← signal .intermediate "inv"
  indicate (.ofSignal x) out inv

/-- `out` tells whether the two inputs are equal. -/
def isEqual : Build σ Unit := do
  let xs ← signals .input "in" (.int 2)
  let out ← signal .output "out"
  let inv ← signal .intermediate "inv"
  match xs with
  | [x, y] => indicate ((Expr.ofSignal y).sub (.ofSignal x)) out inv
  | _ => throw (.fault .index)

/-- The template `IsZero()`. -/
def isZeroTemplate : Template σ := ⟨.of "IsZero" [], isZero⟩

/-- The template `IsEqual()`. -/
def isEqualTemplate : Template σ := ⟨.of "IsEqual" [], isEqual⟩

/-- `x · (x - 1) = 0`. -/
def constrainBit (x : Signal) : Build σ Unit := do
  let product ← times (.ofSignal x) ((Expr.ofSignal x).sub (← const 1))
  constrain product (← const 0)

/-- The input is zero or one. -/
def assertBool : Build σ Unit := do
  let x ← signal .input "in"
  constrainBit x

/-- `out` is the inverse of the input, which must not be zero. -/
def inverse : Build σ Unit := do
  let x ← signal .input "in"
  let out ← signal .output "out"
  hint out .inverse (.ofSignal x)
  let product ← times (.ofSignal out) (.ofSignal x)
  constrain product (← const 1)

/-- The sum of signals. -/
def total (f : PrimeField) (xs : List Signal) : Expr :=
  xs.foldl (fun acc x => acc.add (.ofSignal x)) (.zero f)

/-- `sum` is the sum of the `n` inputs. -/
def sum (n : Value) : Build σ Unit := do
  let xs ← signals .input "in" n
  let out ← signal .output "sum"
  assign out (total (← field) xs)

/-- `out` is the square of the input. -/
def square : Build σ Unit := do
  let x ← signal .input "in"
  let out ← signal .output "out"
  let product ← times (.ofSignal x) (.ofSignal x)
  assign out product

end RankOne.Gadget
