/-
  RankOne — expressions as rows.

  * `linearPart`: an expression without its products;
  * `toRow`: `e = 0` as one row `A * B = C` with linear sides, refused
    when two independent products remain;
  * `evaluate`: the value under an assignment of integers to signals, which may
    fail on a signal; terms are read in order, factors after them.
-/
import RankOne.Expr.Algebra

namespace RankOne.Expr

/-- The expression without its products. -/
def linearPart (e : Expr) : Expr :=
  { e with products := [], degree := min e.degree 1 }

/-- The products whose factors are both nonzero. -/
def liveProducts (e : Expr) : List (Expr × Expr) :=
  e.products.filter fun (a, b) => !a.isZero && !b.isZero

/-- `A`, `B`, `C` with `e = 0` iff `A * B = C`; `A` and `B` are zero when no
    product remains. -/
def toRow (e : Expr) : Except Error (Expr × Expr × Expr) :=
  match e.liveProducts with
  | [] => .ok (zero e.field, zero e.field, e.linearPart.neg)
  | [(a, b)] => .ok (a, b, e.linearPart.neg)
  | ps => .error (.manyProducts e.text ps.length)

/-- The sum of the terms under an assignment. -/
def evaluateTerms (read : Signal → Except Error Int) : Terms → Except Error Int
  | [] => .ok 0
  | (s, c) :: ts => do
    let v ← read s
    return c * v + (← evaluateTerms read ts)

mutual

/-- The canonical value under an assignment. -/
def evaluate (read : Signal → Except Error Int) : Expr → Except Error Nat
  | ⟨field, const, linear, products, _⟩ => do
    let l ← evaluateTerms read linear
    let q ← evaluateProducts read products
    return field.reduce (const + l + q)

/-- The sum of the products under an assignment. -/
def evaluateProducts (read : Signal → Except Error Int) : List (Expr × Expr) → Except Error Int
  | [] => .ok 0
  | (a, b) :: ps => do
    let x ← a.evaluate read
    let y ← b.evaluate read
    return x * y + (← evaluateProducts read ps)

end

end RankOne.Expr
