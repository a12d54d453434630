/-
  RankOne — the value of a term.

  Operands are evaluated left to right, and the first that fails decides.  Every
  value that a term makes is numbered.

  * `Term.evaluate`: the value of a term;
  * `applyTemplate`: a template of the script, else of the library, on arguments.
-/
import RankOne.Gadget.Catalogue
import RankOne.Script.Clash
import RankOne.Script.Read

namespace RankOne.Script

/-! ## Expressions by their parts -/

/-- Put a coefficient under a signal; a signal used before keeps its place. -/
def putTerm (s : Signal) (c : Nat) : Terms → Terms
  | [] => [(s, c)]
  | (t, d) :: ts => if t.same s then (t, c) :: ts else (t, d) :: putTerm s c ts

/-- What stands for a signal and is none. -/
def stray (f : PrimeField) : Signal :=
  { uid := -1, path := "", kind := .one, field := f, component := "", source := .stray }

/-- An expression by its parts. -/
def form (f : PrimeField) (const : Int) (linear : Terms) (products : List (Expr × Expr))
    (degree : Option Int) : Expr :=
  let e := Expr.of f (f.reduce const) linear products 0
  { e with degree := degree.getD (Expr.formDegree e.linear products) }

/-! ## Terms -/

/-- The latest definition of a name. -/
def definition? (table : List Definition) (name : String) : Option Definition :=
  table.reverse.find? (·.name == name)

/-- Apply a template of the script, else one of the library. -/
def applyTemplate (table : List Definition) (name : String) (args : List Value) :
    Except Error Application :=
  if (definition? table name).isSome then do return .of name (← Value.statics args)
  else Catalogue.apply name args

/-- An operator on two values. -/
def applyBinary (op : Binary) (x y : Value) : Routine Value := do
  let v ← demand (Value.binary op x y)
  if (← host).ambiguous && (x.isSymbolic || y.isSymbolic) then
    match Value.operationName? op, v with
    | some name, .expr _ _ => demand (Clash.checkCombine name [x.bare, y.bare])
    | _, _ => pure ()
  make v

/-- An operation on operands by name. -/
def applyCombine (op : String) (vs : List Value) : Routine Value := do
  let v ← demand (Value.combined op vs)
  if (← host).ambiguous then demand (Clash.checkCombine op vs)
  make v

/-- A property of a value; a set of signals is put together signal by signal. -/
def applyProperty (v : Value) (name : String) (p : Option Property) : Routine Value := do
  let r ← property v name p
  match v, p with
  | .expr e _, some .signals => demand (Clash.checkSignals [] (Clash.mentioned e))
  | _, _ => pure ()
  make r

/-- A value as an expression. -/
def toExpression (bare : Bool) (f : PrimeField) (v : Value) : Except Error Value :=
  match v with
  | .expr e m => .ok (.expr e m)
  | v => do return .expr (← v.operand.toExpr (if bare then none else some f))

mutual

/-- The value of a term. -/
def Term.evaluate (table : List Definition) : Term → Routine Value
  | .variable_ name => lookUp name
  | .literal v => make v
  | .invalid e => throw e
  | .binary op a b => do
    let x ← a.evaluate table
    applyBinary op x (← b.evaluate table)
  | .unary op a => do make (← demand (Value.unary op (← a.evaluate table)))
  | .truth a => do return .bool (← demand (← a.evaluate table).truth)
  | .toInt a => do return .int (← demand (← a.evaluate table).toInt)
  | .written a => do return .str (← demand (← a.evaluate table).spelled)
  | .length a => do return .int (← demand (← a.evaluate table).length)
  | .items a => do make (.list (← items (← a.evaluate table)))
  | .combination a => do combination (← a.evaluate table)
  | .get a i => do
    let v ← a.evaluate table
    itemOf v (← i.evaluate table)
  | .terminal a name => do terminal (← a.evaluate table) name
  | .property a name p => do applyProperty (← a.evaluate table) name p
  | .ask a name q p args => do
    let v ← a.evaluate table
    make (← ask v name q p (← evaluateAll table args))
  | .list xs => do make (.list (← evaluateAll table xs))
  | .range args => do demand (range (← evaluateAll table args))
  | .combine op operands => do applyCombine op (← evaluateAll table operands)
  | .expression bare a => do
    let v ← a.evaluate table
    make (← demand (toExpression bare (← request .field) v))
  | .form const linear products degree => do
    let f ← request .field
    let linear ← evaluateTerms table f linear []
    let products ← evaluateProducts table products
    make (.expr (form f const linear products degree))
  | .template name args => do
    make (← demand (applyTemplate table name (← evaluateAll table args))).toValue

/-- The values of terms, left to right. -/
def evaluateAll (table : List Definition) : List Term → Routine (List Value)
  | [] => return []
  | t :: ts => do
    let v ← t.evaluate table
    return v :: (← evaluateAll table ts)

/-- Signals with coefficients; anything else that can be looked up may stand for a
    signal. -/
def evaluateTerms (table : List Definition) (f : PrimeField) :
    List (Term × Int) → Terms → Routine Terms
  | [], acc => return acc
  | (t, c) :: ts, acc => do
    match ← t.evaluate table with
    | .signal s =>
      let _ ← demand (Clash.lookUpIn (Clash.signalsOf acc) s)
      evaluateTerms table f ts (putTerm s (f.reduce c) acc)
    | v =>
      if v.isHashable then evaluateTerms table f ts (putTerm (stray f) (f.reduce c) acc)
      else refuse .type

/-- Pairs of factors; a bare constant is none, since it brings no field along. -/
def evaluateProducts (table : List Definition) :
    List (Term × Term) → Routine (List (Expr × Expr))
  | [] => return []
  | (a, b) :: ps => do
    let x ← a.evaluate table
    let x ← demand (x.operand.toExpr none)
    let y ← b.evaluate table
    let y ← demand (y.operand.toExpr none)
    return (x, y) :: (← evaluateProducts table ps)

end

end RankOne.Script
