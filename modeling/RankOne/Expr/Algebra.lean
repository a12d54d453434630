/-
  RankOne — the algebra of expressions.

  Sums merge coefficients and fold a product into an earlier one that shares a
  factor with it up to a scalar; a product needs total degree at most two; a
  divisor must be a constant.

  * `scale`, `add`, `sub`, `neg`, `mul`, `div`, `pow`: the operations;
  * `ratio`, `ratio?`: the scalar by which one linear form is a multiple of another;
  * `addWith`: the walk through a sum;
  * `Operand`: what may stand in an expression, and `Operand.toExpr`;
  * `Operation`, `combine`: the operations by name on any number of operands,
    which must come from one field.
-/
import RankOne.Expr.Basic

namespace RankOne

namespace Expr

mutual

/-- The multiple of an expression by a canonical scalar: a product is scaled in
    its first factor. -/
def scaleBy (k : Nat) : Expr → Expr
  | ⟨field, const, linear, products, degree⟩ =>
    if k % field.p = 0 then zero field
    else if k % field.p = 1 then ⟨field, const, linear, products, degree⟩
    else of field (const * (k % field.p)) (linear.map fun t => (t.1, t.2 * (k % field.p)))
      (scaleProducts (k % field.p) products) degree

/-- Products scaled in their first factors. -/
def scaleProducts (k : Nat) : List (Expr × Expr) → List (Expr × Expr)
  | [] => []
  | (a, b) :: ps => (scaleBy k a, b) :: scaleProducts k ps

end

/-- The multiple of an expression by an integer. -/
def scale (e : Expr) (k : Int) : Expr := scaleBy (e.field.reduce k) e

/-- The same signals occur, and either both constants are zero or none is. -/
def sameShape (x y : Expr) : Bool :=
  x.linear.length == y.linear.length && y.linear.all (fun t => (x.linear.coeff? t.1).isSome)
    && (x.const == 0) == (y.const == 0)

/-- The coefficients whose quotient is tried: the two constants, or those of the
    first signal of `y`. -/
def pivot? (x y : Expr) : Option (Nat × Nat) :=
  if y.const ≠ 0 then some (x.const, y.const)
  else y.linear.head?.map fun t => ((x.linear.coeff? t.1).getD 0, t.2)

/-- `x` is `k` times `y` in every coefficient of `y`. -/
def isMultiple (x y : Expr) (k : Nat) : Bool :=
  y.linear.all (fun t => k * t.2 % x.field.p == (x.linear.coeff? t.1).getD 0 % x.field.p)
    && k * y.const % x.field.p == x.const % x.field.p

/-- The `k` with `x = k · y`, for forms without products; none when `y` is zero.  The
    quotient at the pivot is that of the field, which refuses a zero divisor. -/
def ratio (x y : Expr) : Except Error (Option Nat) :=
  if x.sameShape y then
    (pivot? x y).elim (.ok none) fun q => do
      let k ← x.field.div q.1 q.2
      return if x.isMultiple y k then some k else none
  else .ok none

/-- The scalar that is found. -/
def ratio? (x y : Expr) : Option Nat := (ratio x y).toOption.join

/-! ### Sums

The walk through a sum is written once, for any way to merge coefficients and to find
scalars: `add` takes the plain ways, and `Clash.add` those that refuse what they cannot
tell apart. -/

section
variable {m : Type → Type} [Monad m] (find : Expr → Expr → m (Option Nat))

/-- The ways a new product can share a factor with an earlier one: the shared
    factor, the other factor, and the scalar with the new other factor. -/
@[specialize] def sharedFactorWith (x y a b : Expr) : m (Option (Expr × Expr × Expr)) := do
  match ← find a x with
  | some k => return some (x, y, scaleBy k b)
  | none => match ← find a y with
    | some k => return some (y, x, scaleBy k b)
    | none => match ← find b x with
      | some k => return some (x, y, scaleBy k a)
      | none => match ← find b y with
        | some k => return some (y, x, scaleBy k a)
        | none => return none

/-- Append the product of `a` and `b`, folded into the first product that shares
    a factor with it, the other factors being added by `plus`. -/
@[specialize] def mergeProductWith (plus : Expr → Expr → m Expr) (a b : Expr) :
    List (Expr × Expr) → m (List (Expr × Expr))
  | [] => return [(a, b)]
  | (x, y) :: ps => do
    match ← sharedFactorWith find x y a b with
    | some (shared, other, extra) => return (shared, ← plus other extra) :: ps
    | none => return (x, y) :: (← mergeProductWith plus a b ps)

/-- Sums, for right operands whose products are nested at most `d` deep. -/
@[specialize] def addWith (merge : Terms → Terms → m Terms) : Nat → Expr → Expr → m Expr
  | 0, a, b => do
    let linear ← merge a.linear b.linear
    return of a.field (a.const + b.const) linear (a.products ++ b.products) (max a.degree b.degree)
  | d + 1, a, b => do
    let linear ← merge a.linear b.linear
    let products ← b.products.foldlM
      (fun ps p => mergeProductWith find (addWith merge d) p.1 p.2 ps) a.products
    return of a.field (a.const + b.const) linear products (max a.degree b.degree)

end

/-- The way a new product shares a factor with an earlier one. -/
def sharedFactor? (x y a b : Expr) : Option (Expr × Expr × Expr) :=
  Id.run (sharedFactorWith (fun x y => pure (ratio? x y)) x y a b)

/-- Products with one more, folded where it can be. -/
def mergeProduct (plus : Expr → Expr → Expr) (a b : Expr) (ps : List (Expr × Expr)) :
    List (Expr × Expr) :=
  Id.run (mergeProductWith (fun x y => pure (ratio? x y)) (fun x y => pure (plus x y)) a b ps)

/-- Plain sums, for right operands whose products are nested at most `d` deep. -/
def addAt (d : Nat) (a b : Expr) : Expr :=
  Id.run (addWith (fun x y => pure (ratio? x y)) (fun l r => pure (l.merge r)) d a b)

theorem sharedFactor?_eq (x y a b : Expr) : sharedFactor? x y a b =
    match ratio? a x with
    | some k => some (x, y, scaleBy k b)
    | none => match ratio? a y with
      | some k => some (y, x, scaleBy k b)
      | none => match ratio? b x with
        | some k => some (x, y, scaleBy k a)
        | none => match ratio? b y with
          | some k => some (y, x, scaleBy k a)
          | none => none := by
  simp only [sharedFactor?, sharedFactorWith, pure_bind]
  cases ratio? a x <;> cases ratio? a y <;> cases ratio? b x <;> cases ratio? b y <;> rfl

@[simp] theorem mergeProduct_nil (plus : Expr → Expr → Expr) (a b : Expr) :
    mergeProduct plus a b [] = [(a, b)] := rfl

theorem mergeProduct_cons (plus : Expr → Expr → Expr) (a b x y : Expr) (ps : List (Expr × Expr)) :
    mergeProduct plus a b ((x, y) :: ps) = match sharedFactor? x y a b with
      | some (shared, other, extra) => (shared, plus other extra) :: ps
      | none => (x, y) :: mergeProduct plus a b ps := by
  change Id.run (mergeProductWith _ _ a b ((x, y) :: ps)) = _
  rw [mergeProductWith]
  change (match sharedFactor? x y a b with
    | some (shared, other, extra) => _
    | none => _) = _
  cases sharedFactor? x y a b <;> rfl

theorem addAt_zero (a b : Expr) : addAt 0 a b = of a.field (a.const + b.const)
    (a.linear.merge b.linear) (a.products ++ b.products) (max a.degree b.degree) := rfl

theorem addAt_succ (d : Nat) (a b : Expr) : addAt (d + 1) a b = of a.field (a.const + b.const)
    (a.linear.merge b.linear)
    (b.products.foldl (fun ps p => mergeProduct (addAt d) p.1 p.2 ps) a.products)
    (max a.degree b.degree) := by
  unfold addAt
  rw [addWith]
  change of _ _ _ (Id.run (b.products.foldlM _ a.products)) _ = _
  rw [List.idRun_foldlM]
  rfl

/-- The sum. -/
def add (a b : Expr) : Expr := addAt b.depth a b

/-- The negation. -/
def neg (a : Expr) : Expr := a.scale (-1)

/-- The difference. -/
def sub (a b : Expr) : Expr := a.add b.neg

/-- The product: a scalar multiple when a side is constant, else one product
    term, refused above degree two. -/
def mul (a b : Expr) : Except Error Expr :=
  if a.degree = 0 then .ok (scale b a.const)
  else if b.degree = 0 then .ok (scale a b.const)
  else if a.degree + b.degree > 2 then
    .error (.productDegree a.degree b.degree a.text b.text)
  else .ok (of a.field 0 [] [(a, b)] (a.degree + b.degree))

/-- The quotient by a nonzero constant. -/
def div (a b : Expr) : Except Error Expr :=
  if b.degree > 0 then .error (.symbolicDivisor b.text)
  else if b.const = 0 then .error (.zeroDivisor a.text)
  else .ok (a.scale (b.field.inverse b.const))

/-- The constant of an expression without signals. -/
def constantValue (e : Expr) : Except Error Nat :=
  if e.isConstant then .ok e.const else .error (.notConstant e.text)

/-- The product of `acc` with `k` times `e`, from the left. -/
def mulTimes (e acc : Expr) : Nat → Except Error Expr
  | 0 => .ok acc
  | k + 1 => do mulTimes e (← acc.mul e) k

/-- The power, by repeated multiplication on the right. -/
def pow (e : Expr) (k : Nat) : Except Error Expr := mulTimes e (ofInt e.field 1) k

end Expr

/-- A value offered to an expression. -/
inductive Operand where
  | const (n : Int)
  | signal (s : Signal)
  | expr (e : Expr)
  /-- a value of some type that has no place in an expression -/
  | other (type : String)

namespace Operand

/-- The field an operand brings along. -/
def field? : Operand → Option PrimeField
  | signal s => some s.field
  | expr e => some e.field
  | _ => none

/-- The operand as an expression; a bare constant takes the given field. -/
def toExpr (field? : Option PrimeField) : Operand → Except Error Expr
  | expr e => .ok e
  | signal s => .ok (.ofSignal s)
  | const n => match field? with
    | some f => .ok (.ofInt f n)
    | none => .error .bareConstant
  | other type => .error (.notAnOperand type)

/-- The one field of all operands that bring one. -/
def commonField (xs : List Operand) : Except Error (Option PrimeField) :=
  xs.foldlM (fun (acc : Option PrimeField) x => match acc, x.field? with
    | some f, some g => if f = g then .ok (some g) else .error (.differentFields f.p g.p)
    | _, some g => .ok (some g)
    | acc, none => .ok acc) none

end Operand

/-- The operations on expressions. -/
inductive Operation where
  | sum | sub | neg | scalar | product | div
deriving DecidableEq, Repr

namespace Operation

/-- The operation of a name. -/
def ofName? : String → Option Operation
  | "sum" => some .sum
  | "sub" => some .sub
  | "neg" => some .neg
  | "scalar" => some .scalar
  | "product" => some .product
  | "div" => some .div
  | _ => none

/-- Apply an operation; sums and products take any positive number of operands. -/
def apply : Operation → List Expr → Except Error Expr
  | .sum, e :: es => .ok (es.foldl Expr.add e)
  | .product, e :: es => es.foldlM Expr.mul e
  | .neg, e :: _ => .ok e.neg
  | .sub, [a, b] => .ok (a.sub b)
  | .scalar, [k, a] => do return a.scale (← k.constantValue)
  | .div, [a, b] => a.div b
  | _, _ => .error (.fault .value)

end Operation

/-- Combine operands by a named operation. -/
def combine (name : String) (operands : List Operand) : Except Error Expr := do
  match ← Operand.commonField operands with
  | none => .error (.noOperand name)
  | some f =>
    let es ← operands.mapM (·.toExpr (some f))
    match Operation.ofName? name with
    | some op => op.apply es
    | none => .error (.unknownOperation name)

end RankOne
