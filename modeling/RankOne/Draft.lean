/-
  RankOne — the rows and rules collected while templates expand.

  A draft only grows.  `assign` adds the row `s = e` and the rule that computes
  `s` from `e`; `constrain` adds a row and no rule; `hint` adds a rule and no
  row.  A signal has at most one rule, and a refused statement adds nothing.
-/
import RankOne.Expr.Clash
import RankOne.Expr.Rows
import RankOne.Hint

namespace RankOne

/-- A row `A * B = C` over signals. -/
structure Row where
  a : Expr
  b : Expr
  c : Expr
  origin : String

/-- The signals of a row. -/
def Row.signals (r : Row) : List Signal :=
  Signal.sorted (r.a.signals ++ r.b.signals ++ r.c.signals)

/-- How a signal is computed. -/
inductive Action where
  | assign (e : Expr)
  | hint (h : Hint) (deps : List Expr)

/-- The word for an action. -/
def Action.name : Action → String
  | assign _ => "assign"
  | hint _ _ => "hint"

/-- The computation of one signal. -/
structure Rule where
  target : Signal
  action : Action
  /-- path of the component that stated the rule -/
  origin : String

/-- The expressions that a rule evaluates. -/
def Rule.exprs (r : Rule) : List Expr :=
  match r.action with
  | .assign e => [e]
  | .hint _ deps => deps

/-- The signals whose values a rule needs. -/
def Rule.reads (r : Rule) : List Signal :=
  match r.action with
  | .assign e => e.signals
  | .hint _ deps => Signal.sorted (deps.flatMap Expr.signals)

/-- The look-ups behind the signals that a rule reads, put together one after
    another. -/
def Rule.checkReads (r : Rule) : Except Error Unit :=
  match r.action with
  | .assign e => Clash.checkSignals [] (Clash.mentioned e)
  | .hint _ deps => Clash.checkSignals [] (deps.flatMap Clash.mentioned)

/-- Rows and rules, in the order of their statements. -/
structure Draft where
  field : PrimeField
  rows : Array Row
  rules : Array Rule

namespace Draft

/-- Nothing stated yet. -/
def empty (field : PrimeField) : Draft := { field, rows := #[], rules := #[] }

variable (d : Draft)

/-- Something that is no signal stands for one in a row or a rule. -/
def hasStray : Bool :=
  d.rows.any (fun r => r.a.hasStray || r.b.hasStray || r.c.hasStray)
    || d.rules.any fun r => r.exprs.any Expr.hasStray

/-- The rule of a signal. -/
def rule? (s : Signal) : Option Rule := d.rules.find? fun r => r.target.same s

/-- The signal has a rule. -/
def isAssigned (s : Signal) : Bool := (d.rule? s).isSome

/-- Refuse a signal that has a rule, and one that shares its number with the
    target of a rule. -/
def checkUnassigned (s : Signal) (how : String) : Except Error Unit :=
  match d.rule? s with
  | some r =>
    if r.target = s then .error (.alreadyAssigned s.path r.action.name r.origin how)
    else .error (.signalCompared r.target.path)
  | none => .ok ()

/-- Refuse an expression that no row can hold. -/
def checkDegree (e : Expr) : Except Error Unit :=
  if e.degree > 2 then .error (.excessDegree e.text e.degree) else .ok ()

/-- Append the row `e = 0`; its position comes with the longer draft. -/
def append (e : Expr) (origin : String) : Except Error (Nat × Draft) := do
  let (a, b, c) ← e.toRow
  return (d.rows.size, { d with rows := d.rows.push { a, b, c, origin } })

/-- Constrain `target = e` and compute the target from `e`. -/
def assign (target : Signal) (e : Expr) (origin : String) : Except Error (Nat × Draft) := do
  checkDegree e
  d.checkUnassigned target "assign"
  let difference ← combine "sub" [.expr e, .signal target]
  let (row, d) ← d.append difference origin
  return (row, { d with rules := d.rules.push { target, action := .assign e, origin } })

/-- Constrain `l = r`; two equal constants need no row. -/
def constrain (l r : Expr) (origin : String) : Except Error (Option Nat × Draft) := do
  checkDegree l
  checkDegree r
  let difference ← combine "sub" [.expr l, .expr r]
  if difference.isConstant then
    if difference.const ≠ 0 then .error (.contradiction l.text r.text) else return (none, d)
  else
    let (row, d) ← d.append difference origin
    return (some row, d)

/-- Compute the target by a hint. -/
def hint (target : Signal) (h : Hint) (deps : Except Error (List Expr)) (origin : String) :
    Except Error Draft := do
  d.checkUnassigned target "hint"
  let deps ← deps
  return { d with rules := d.rules.push { target, action := .hint h deps, origin } }

end Draft

end RankOne
