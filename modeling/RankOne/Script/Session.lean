/-
  RankOne — terms and statements outside of templates.

  A session keeps a workspace and the variables bound so far, so that
  expressions can be tried out and rows and rules stated one at a time.

  * `Session.start`: a session over a field with declared signals;
  * `Session.evaluate`, `Session.bind`: the value of a term;
  * `Session.state`: a statement on the draft, whose target may be any value that
    can be looked up;
  * `Session.checkReport`: whether rows and rules can be reported.
-/
import RankOne.Build.Run
import RankOne.Script.Execute

namespace RankOne.Script

/-- A workspace with variables. -/
structure Session where
  workspace : Workspace
  host : Host := {}
  locals : Locals := []
  /-- targets of rules that are no signals -/
  strays : List Value := []

/-- A statement on a draft, with the origin it is noted under. -/
inductive Session.Statement where
  | assign (target value : Term) (origin : String)
  | constrain (l r : Term) (origin : String)
  | hint (target : Term) (h : Hint) (deps : List Term) (origin : String)
  | isAssigned (target : Term)
  | rule (target : Term)

/-- What a statement on a draft answers. -/
inductive Session.Answer where
  | row (r : Option Nat)
  | truth (b : Bool)
  | rule (r : Option Rule)

namespace Session

/-- Some signals share a declaration number. -/
def isAmbiguous (signals : List Signal) : Bool :=
  (Clash.checkSignals [] signals) matches .error _

/-- A session over a field, with signals as variables. -/
def start (f : PrimeField) (signals : List (String × Signal)) : Session :=
  { workspace := .start f .warn
    host := { ambiguous := isAmbiguous (signals.map (·.2)) }
    locals := (signals.map fun s => (s.1, Value.signal s.2)).reverse }

/-- Run a program in a session. -/
def run {α : Type} (s : Session) (p : Routine α) : Except Error α × Session :=
  let ((r, locals), (workspace, host)) := Program.run (p.run s.locals) 0 (s.workspace, s.host)
  (r, { s with workspace, host, locals })

/-- The value of a term, if it can be written. -/
def evaluate (s : Session) (t : Term) : Except Error Value × Session :=
  s.run do
    let v ← t.evaluate []
    demand v.checkWritten
    return v

/-- The value of a term, bound to a name. -/
def bind (s : Session) (name : String) (t : Term) : Except Error Value × Session :=
  s.run do
    let v ← t.evaluate []
    bindLocal name v
    demand v.checkWritten
    return v

/-! ## Statements on the draft -/

/-- Changes of a session that may be refused; what happened before the refusal
    stays. -/
abbrev Step := ExceptT Error (StateM Session)

/-- Change the workspace of a session. -/
def work {α : Type} (w : Work α) : Step α := do
  let s ← get
  let (r, workspace) := w.run.run s.workspace
  set { s with workspace }
  r

/-- Run a program in a session. -/
def routine {α : Type} (p : Routine α) : Step α := do
  let (r, s) := (← get).run p
  set s
  r

/-- The rule found under a target, if its target is a signal, and whether there is
    any. -/
def findRule (target : Value) : Step (Option (Option Rule)) := do
  let s ← get
  if !target.isHashable then throw (.fault .type)
  else
    for r in s.workspace.draft.rules do
      if ← Value.keyIs (.signal r.target) target then return some (some r)
    for v in s.strays do
      if ← Value.keyIs v target then return some none
    return none

/-- Refuse a target that has a rule, and what cannot be looked up; the report
    names the target by its path. -/
def checkFree (target : Value) : Step Unit := do
  match ← findRule target, target with
  | none, _ | some _, .signal _ => return ()
  | some _, _ => throw (.fault .attribute)

/-- The look-ups behind a difference, where signals share a number. -/
def checkDifference (l r : Value) : Step Unit := do
  if (← get).host.ambiguous then Clash.checkCombine "sub" [l, r]

/-- Note a rule whose target is no signal: it counts, but cannot be reported. -/
def addStray (target : Value) : Step α := do
  modify fun s => { s with strays := s.strays ++ [target] }
  throw (.fault .attribute)

/-- Assign an expression to a target that is no signal: the row is that of the
    difference, if there is one. -/
def assignStray (target : Value) (e : Expr) (origin : String) : Step Nat := do
  match ← Value.binary .sub (.expr e) target with
  | .expr difference _ =>
    let (_, draft) ← (← get).workspace.draft.append difference origin
    modify fun s => { s with workspace := { s.workspace with draft } }
    addStray target
  | _ => throw (.fault .attribute)

/-- Assign a value to a target; the value is looked at first. -/
def assignValue (target value : Value) (origin : String) : Step Nat := do
  let e ← value.operand.toExpr (some (← get).workspace.field)
  Draft.checkDegree e
  checkFree target
  match target with
  | .signal s =>
    if !(← get).workspace.draft.isAssigned s then checkDifference (.expr e) target
    work (Workspace.addAssignment s e origin)
  | target => assignStray target e origin

/-- Constrain two values to be equal. -/
def constrainValues (l r : Value) (origin : String) : Step (Option Nat) := do
  let f := (← get).workspace.field
  let l ← l.operand.toExpr (some f)
  let r ← r.operand.toExpr (some f)
  Draft.checkDegree l
  Draft.checkDegree r
  checkDifference (.expr l) (.expr r)
  work (Workspace.addEquality l r origin)

/-- Compute a target by a hint. -/
def hintValue (target : Value) (h : Hint) (deps : List Value) (origin : String) : Step Unit := do
  let f := (← get).workspace.field
  let deps := deps.mapM fun d => d.operand.toExpr (some f)
  checkFree target
  match target with
  | .signal s => work (Workspace.addHint s h deps origin)
  | target => do
    let _ ← deps
    addStray target

/-- The effect of a statement on the draft, and its answer. -/
def perform : Session.Statement → Step Session.Answer
  | .assign target value origin => do
    let t ← routine (target.evaluate [])
    let v ← routine (value.evaluate [])
    return .row (some (← assignValue t v origin))
  | .constrain l r origin => do
    let l ← routine (l.evaluate [])
    let r ← routine (r.evaluate [])
    return .row (← constrainValues l r origin)
  | .hint target h deps origin => do
    let t ← routine (target.evaluate [])
    let deps ← routine (evaluateAll [] deps)
    hintValue t h deps origin
    return .row none
  | .isAssigned target => do
    let t ← routine (target.evaluate [])
    return .truth (← findRule t).isSome
  | .rule target => do
    let t ← routine (target.evaluate [])
    match ← findRule t with
    | some (some r) => return .rule (some r)
    | some none => throw (.fault .attribute)
    | none => return .rule none

/-- State something on the draft. -/
def state (s : Session) (d : Session.Statement) : Except Error Session.Answer × Session :=
  (perform d).run.run s

/-! ## Reports -/

/-- Refuse a draft that cannot be reported: rows and rules list their signals, and
    rules name their targets. -/
def checkReport (s : Session) : Except Error Unit := do
  if s.host.ambiguous then
    s.workspace.draft.rows.toList.forM fun r =>
      Clash.checkSignals [] ([r.a, r.b, r.c].flatMap Clash.mentioned)
    s.workspace.draft.rules.toList.forM Rule.checkReads
  if !s.strays.isEmpty || s.workspace.draft.hasStray then .error (.fault .attribute)

end Session

end RankOne.Script
