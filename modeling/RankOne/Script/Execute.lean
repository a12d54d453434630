/-
  RankOne — running the statements of a script.

  * `Statement.execute`: the effect of a statement;
  * `Definition.program`: the body of a template on its arguments;
  * `resolve`: the template that a name and arguments stand for, the script's
    own templates before those of the library.
-/
import RankOne.Script.Evaluate
import RankOne.Value.Percent

namespace RankOne.Script

/-- What a body runs against: the templates of the script, and how applied
    templates become programs. -/
structure Scope where
  table : List Definition
  resolve : Application → Template Host

/-! ## Statements on values -/

/-- Place a child, or refuse a value that is no template. -/
def placeValue (scope : Scope) (place : Place) : Value → Routine Component
  | .template title args mark => lift (Build.place place (scope.resolve ⟨title, args, mark⟩))
  | v => do
    let nothing ← request (.misplace place v.spelled)
    nomatch nothing

/-- The items of a list with another one at a position. -/
def replaced (xs : List Value) (i : Int) (v : Value) : Except Error (List Value) :=
  match position? xs.length i with
  | some j => .ok (xs.set j v)
  | none => .error (.fault .index)

/-- A value as an item of a grid with items like a given one. -/
def likeItem : Value → Value → Except Error Value
  | .int _, v => do return .int (← v.toInt)
  | .bool _, v => do return .bool (← v.truth)
  | .float _ _, v => do return .float (← Percent.Directive.toFloat v)
  | _, v => .ok v

/-- A grid of one dimension with another item at a position. -/
def gridReplaced (xs : List Value) (i v : Value) : Except Error (List Value) := do
  let n ← gridIndex i
  match ← itemAt xs n with
  | .grid _ _ => .error (.fault .value)
  | x => replaced xs n (← likeItem x v)

/-- Fill a place of an array of places, or change an item of a sequence that can
    be changed. -/
def fillValue (scope : Scope) (target i v : Value) : Routine Unit :=
  match target with
  | .slots a => do
    let n ← demand i.index
    let _ ← placeValue scope (.slot a n) v
  | .list xs m => do change m (.list (← demand (replaced xs (← demand i.index) v)) m)
  | .table es m => do
    if i.isHashable then change m (.table (← demand (Value.setEntry i v es)) m) else refuse .type
  | .grid xs m => do change m (.grid (← demand (gridReplaced xs i v)) m)
  | .cell _ => refuse .index
  | _ => refuse .type

mutual

/-- Assign a signal, or the signals of an array item by item. -/
def assignBus (f : PrimeField) : Bus → Value → Routine Unit
  | .single s, v => request (.assign s (v.operand.toExpr (some f)))
  | .array targets _ _, v => do
    let values ← items v
    if values.length ≠ targets.length then
      demand (.error (.lengthMismatch values.length targets.length))
    else assignItems f targets values

/-- Assign targets one after another. -/
def assignItems (f : PrimeField) : List Bus → List Value → Routine Unit
  | t :: ts, v :: vs => do
    assignBus f t v
    assignItems f ts vs
  | _, _ => return ()

end

/-- The target of an assignment. -/
def targetOf : Value → Except Error Bus
  | .signal s => .ok (.single s)
  | .array xs shape mark => .ok (.array xs shape mark)
  | v => do .error (.targetNotSignal (← v.spelled))

/-- The target of a hint, which is a single signal. -/
def hintTarget : Value → Except Error Signal
  | .signal s => .ok s
  | v => do .error (.targetNotSignal (← v.spelled))

/-- Constrain two values to be equal. -/
def constrainValues (f : PrimeField) (l r : Value) : Routine Unit := do
  let l ← demand (l.operand.toExpr (some f))
  let r ← demand (r.operand.toExpr (some f))
  request (.constrain l r)

/-- Write to the log, if it is kept, under the path of the component. -/
def logValues (text : String) (args : List Value) : Routine Unit := do
  if (← host).keepsLog then
    let path ← request .path
    request (.log (← demand (Percent.format ("[%s] " ++ text) ⟨.str path :: args, none⟩)))

/-! ## Loops -/

/-- Run a body once for each item. -/
def forEach (name : String) (body : Routine Unit) : List Value → Routine Unit
  | [] => return ()
  | v :: vs => do
    bindLocal name v
    body
    forEach name body vs

/-- Run a body `count` times, with the integers from `i` on by `step`. -/
def forRange (name : String) (body : Routine Unit) (step : Int) : Nat → Int → Routine Unit
  | 0, _ => return ()
  | count + 1, i => do
    bindLocal name (.int i)
    body
    forRange name body step count (i + step)

/-- Run a body once for each place of an array. -/
def forEachSlot (name : String) (body : Routine Unit) (a : SlotArray) : List Nat → Routine Unit
  | [] => return ()
  | i :: is => do
    bindLocal name (Build.ofContent (← request (.slot a (i : Int) (toString i))))
    body
    forEachSlot name body a is

/-- Run a body once for each item of a list or grid, as it stands at that time. -/
def forEachChanging (name : String) (body : Routine Unit) (v : Value) :
    List Nat → Routine Unit
  | [] => return ()
  | i :: is => do
    let now := refreshed (← host).contents v
    bindLocal name (← itemOf now (.int i))
    body
    forEachChanging name body v is

/-- Run a body once for each item of a value; places and items that can be changed
    are read one at a time. -/
def iterate (name : String) (body : Routine Unit) : Value → Routine Unit
  | .slots a => do
    let n ← demand (Value.length (.slots a))
    forEachSlot name body a (List.range n)
  | .range a b s => forRange name body s (Value.rangeLength a b s) a
  | .list xs m => forEachChanging name body (.list xs m) (List.range xs.length)
  | .grid xs m => forEachChanging name body (.grid xs m) (List.range xs.length)
  | v => do forEach name body (← items v)

/-! ## Statements -/

mutual

/-- The effect of a statement. -/
def Statement.execute (scope : Scope) : Statement → Routine Unit
  | .declare role name dims => do
    let dims ← evaluateAll scope.table dims
    bindLocal name (.ofBus (← request (.declare role name (Build.sizes dims))))
  | .slots name dims => do
    let dims ← evaluateAll scope.table dims
    bindLocal name (.slots (← request (.slots name (Build.sizes dims))))
  | .component name template => do
    let v ← template.evaluate scope.table
    bindLocal name (.component (← placeValue scope (.named name) v))
  | .fill array i template => do
    let a ← array.evaluate scope.table
    let i ← i.evaluate scope.table
    fillValue scope a i (← template.evaluate scope.table)
  | .assign target value => do
    let t ← target.evaluate scope.table
    let v ← value.evaluate scope.table
    let f ← request .field
    assignBus f (← demand (targetOf t)) v
  | .constrain l none => do
    let l ← l.evaluate scope.table
    constrainValues (← request .field) l (.int 0)
  | .constrain l (some r) => do
    let l ← l.evaluate scope.table
    let r ← r.evaluate scope.table
    constrainValues (← request .field) l r
  | .hint target h deps => do
    let t ← target.evaluate scope.table
    let deps ← evaluateAll scope.table deps
    let f ← request .field
    let s ← demand (hintTarget t)
    request (.hint s h (deps.mapM fun d => d.operand.toExpr (some f)))
  | .log text args => do logValues text (← evaluateAll scope.table args)
  | .let_ name value => do bindLocal name (← value.evaluate scope.table)
  | .export_ name value => do exportValue name (← value.evaluate scope.table)
  | .for_ name args body => do
    let numbers ← demand (range (← evaluateAll scope.table args))
    iterate name (executeAll scope body) numbers
  | .each name value body => do
    iterate name (executeAll scope body) (← value.evaluate scope.table)
  | .if_ condition yes no => do
    if ← demand (← condition.evaluate scope.table).truth then executeAll scope yes
    else executeAll scope no
  | .show_ values => showAll scope values
  | .path => do emit (.value (.str (← request .path)))
  | .try_ body => do
    match ← attempt (executeAll scope body) with
    | .ok () => emit .ok
    | .error e => emit (.error e)

/-- The effect of statements in order. -/
def executeAll (scope : Scope) : List Statement → Routine Unit
  | [] => return ()
  | s :: ss => do
    s.execute scope
    executeAll scope ss

/-- Show values one after another, if they can be written. -/
def showAll (scope : Scope) : List Term → Routine Unit
  | [] => return ()
  | t :: ts => do
    let v ← t.evaluate scope.table
    demand v.checkWritten
    emit (.value v)
    showAll scope ts

end

/-! ## Templates -/

/-- Bind parameters to arguments. -/
def bindArguments : List String → List Value → Routine Unit
  | p :: ps, v :: vs => do
    bindLocal p (← make v)
    bindArguments ps vs
  | _, _ => return ()

/-- The body of a template on its arguments; their number must agree. -/
def Definition.program (scope : Scope) (d : Definition) (args : List Value) : Build Host Unit :=
  if d.params.length ≠ args.length then throw (.fault .type)
  else ExceptT.mk do
    let run : Routine Unit := do
      bindArguments d.params args
      executeAll scope d.body
    let (r, _) ← run.run []
    return r

/-- How deep templates may nest. -/
def maxNesting : Nat := 150

/-- The program of an applied template, nested at most `fuel` deep. -/
def resolve (table : List Definition) : Nat → Application → Template Host
  | 0, a => { application := a, body := throw (.fault .recursion) }
  | fuel + 1, a =>
    match definition? table a.title.name with
    | some d =>
      { application := a, body := d.program { table, resolve := resolve table fuel } a.args }
    | none => match Catalogue.build? a.title.name with
      | some build => { application := a, body := build a.args }
      | none => { application := a, body := throw (.fault .recursion) }

/-- The template of a name on arguments. -/
def template (table : List Definition) (name : String) (args : List Value) :
    Except Error (Template Host) := match applyTemplate table name args with
  | .ok a => .ok (resolve table maxNesting a)
  | .error e => .error e

end RankOne.Script
