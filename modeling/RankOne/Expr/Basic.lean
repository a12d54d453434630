/-
  RankOne — expressions over signals in quadratic form.

  An expression is `const + Σ cᵢ · sᵢ + Σ Aₖ · Bₖ` with canonical coefficients,
  and a degree recorded from the operations that built it.

  * `Expr`, `Expr.of`: the form, and the constructor that reduces coefficients
    and drops the zero ones;
  * `const`, `ofSignal`: constants and single signals;
  * `signals`: the signals an expression refers to;
  * `hasStray`: something that is no signal stands among them;
  * `text`: the written form, products first, then signals in order of
    declaration, then the constant, coefficients as signed representatives.
-/
import RankOne.Signal

namespace RankOne

/-- Coefficients by signal, in order of first use. -/
abbrev Terms := List (Signal × Nat)

/-- The coefficient of a signal. -/
def Terms.coeff? (ts : Terms) (s : Signal) : Option Nat :=
  (ts.find? fun t => t.1.same s).map (·.2)

/-- Add to the coefficient of a signal. -/
def Terms.add (s : Signal) (c : Nat) : Terms → Terms
  | [] => [(s, c)]
  | (t, d) :: ts => if t.same s then (t, d + c) :: ts else (t, d) :: Terms.add s c ts

/-- Coefficients added signal by signal. -/
def Terms.merge (l r : Terms) : Terms := r.foldl (fun acc t => Terms.add t.1 t.2 acc) l

/-- Coefficients reduced modulo `p`, zeros dropped. -/
def Terms.reduce (p : Nat) (ts : Terms) : Terms :=
  ts.filterMap fun t => if t.2 % p = 0 then none else some (t.1, t.2 % p)

/-- Terms in order of declaration. -/
def Terms.sorted (ts : Terms) : Terms := ts.mergeSort fun a b => a.1.uid ≤ b.1.uid

/-- An expression in quadratic form. -/
structure Expr where
  field : PrimeField
  const : Nat
  linear : Terms
  products : List (Expr × Expr)
  degree : Int

namespace Expr

/-- The degree of a form of which nothing else is known. -/
def formDegree (linear : Terms) (products : List (Expr × Expr)) : Int :=
  if !products.isEmpty then 2 else if !linear.isEmpty then 1 else 0

/-- The form with reduced coefficients. -/
def of (field : PrimeField) (const : Nat) (linear : Terms) (products : List (Expr × Expr))
    (degree : Int) : Expr :=
  { field, const := const % field.p, linear := linear.reduce field.p, products, degree }

/-- A constant. -/
def ofInt (field : PrimeField) (n : Int) : Expr :=
  { field, const := field.reduce n, linear := [], products := [], degree := 0 }

/-- The zero form. -/
def zero (field : PrimeField) : Expr := ofInt field 0

/-- A single signal. -/
def ofSignal (s : Signal) : Expr :=
  { field := s.field, const := 0, linear := [(s, 1)], products := [], degree := 1 }

/-- A value known at compile time. -/
def isConstant (e : Expr) : Bool := e.degree == 0

/-- No term at all. -/
def isZero (e : Expr) : Bool := e.const == 0 && e.linear.isEmpty && e.products.isEmpty

/-- The signals of the form and of its factors. -/
def signals (e : Expr) : List Signal :=
  Signal.sorted (e.linear.map (·.1)
    ++ e.products.flatMap fun (a, b) => a.linear.map (·.1) ++ b.linear.map (·.1))

mutual

/-- The signals of the form and of all factors inside it. -/
def allSignals : Expr → List Signal
  | ⟨_, _, linear, products, _⟩ => linear.map (·.1) ++ productSignals products

/-- The signals of all factors. -/
def productSignals : List (Expr × Expr) → List Signal
  | [] => []
  | (a, b) :: ps => a.allSignals ++ b.allSignals ++ productSignals ps

end

/-- Something that is no signal has a coefficient.  Such a form has no written form,
    which lists signals by their numbers. -/
def hasStray (e : Expr) : Bool := e.allSignals.any (·.source == .stray)

/-- A signal with its coefficient. -/
def termText (field : PrimeField) (t : Signal × Nat) : String :=
  if t.2 = 1 then t.1.path else s!"{field.toSigned t.2}*{t.1.path}"

mutual

/-- The written form. -/
def text : Expr → String
  | ⟨field, const, linear, products, _⟩ =>
    let parts := productTexts products ++ linear.sorted.map (termText field)
    " + ".intercalate
      (if const ≠ 0 || parts.isEmpty then parts ++ [toString (field.toSigned const)] else parts)

/-- The written products, each factor in brackets. -/
def productTexts : List (Expr × Expr) → List String
  | [] => []
  | (a, b) :: ps => s!"({a.text})*({b.text})" :: productTexts ps

end

/-- The written form, if there is one. -/
def written (e : Expr) : Except Error String :=
  if e.hasStray then .error (.fault .attribute) else .ok e.text

mutual

/-- How deep products are nested in factors. -/
def depth : Expr → Nat
  | ⟨_, _, _, products, _⟩ => productsDepth products

/-- One more than the depth of the deepest factor. -/
def productsDepth : List (Expr × Expr) → Nat
  | [] => 0
  | (a, b) :: ps => max (max a.depth b.depth + 1) (productsDepth ps)

end

end Expr

end RankOne
