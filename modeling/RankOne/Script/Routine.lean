/-
  RankOne — programs with variables.

  Variables are local to one run of a body, except for the exported ones, which
  every template of the script sees.  Lists, tables and grids can be changed in
  place: each is numbered when it is made, and the host keeps what a changed one
  holds now, so that every variable that holds it sees the change.

  * `Host`, `Trace`: what the templates of a script share and what they show;
  * `Routine`: programs with local variables, which keep their values when a
    statement fails;
  * `numbered`, `make`: the numbers of new values;
  * `refreshed`, `lookUp`, `change`: changed values.
-/
import RankOne.Build.Statement
import RankOne.Value.Operators

namespace RankOne.Script

/-! ## Changed values -/

/-- What changed values hold now, by mark. -/
abbrev Contents := List (Mark × Value)

mutual

/-- How deep sequences are nested. -/
def nesting : Value → Nat
  | .list xs _ | .tuple xs => nestingOf xs + 1
  | .table es _ => nestingOfEntries es + 1
  | _ => 0

/-- The nesting of the deepest item. -/
def nestingOf : List Value → Nat
  | [] => 0
  | v :: vs => max (nesting v) (nestingOf vs)

/-- The nesting of the deepest entry. -/
def nestingOfEntries : List (Value × Value) → Nat
  | [] => 0
  | (_, v) :: es => max (nesting v) (nestingOfEntries es)

end

/-- A value with what it holds now, with fuel for the nesting.  A value inside
    itself keeps what it held. -/
def refreshAt (c : Contents) : Nat → Value → Value
  | 0, v => v
  | fuel + 1, v =>
    let inside (m : Mark) : Value → Value := refreshAt (c.filter (·.1 ≠ m)) fuel
    match v with
    | .list xs m => match c.lookup m with
      | some (.list ys _) => .list (ys.map (inside m)) m
      | _ => .list (xs.map (inside m)) m
    | .tuple xs => .tuple (xs.map (refreshAt c fuel))
    | .table es m => match c.lookup m with
      | some (.table fs _) => .table (fs.map fun e => (e.1, inside m e.2)) m
      | _ => .table (es.map fun e => (e.1, inside m e.2)) m
    | .grid xs m => (c.lookup m).getD (.grid xs m)
    | v => v

/-- A value with what it holds now. -/
def refreshed (c : Contents) (v : Value) : Value :=
  if c.isEmpty then v
  else refreshAt c (c.foldl (fun n e => n + nesting e.2) (nesting v) + 1) v

/-! ## Numbers of new values -/

/-- A mark, or the next number for what has none. -/
def stamp (m : Mark) : StateM Nat Mark :=
  if m.isEmpty then do
    let n ← get
    set (n + 1)
    return [n]
  else return m

mutual

/-- A value in which everything new is numbered. -/
def numbered : Value → StateM Nat Value
  | .float x m => do return .float x (← stamp m)
  | .double x m => do return .double x (← stamp m)
  | .expr e m => do return .expr e (← stamp m)
  | .grid xs m => do return .grid xs (← stamp m)
  | .tuple xs => do return .tuple (← numberedAll xs)
  | .list xs m =>
    if m.isEmpty then do
      let m ← stamp m
      return .list (← numberedAll xs) m
    else return .list xs m
  | .table es m =>
    if m.isEmpty then do
      let m ← stamp m
      return .table (← numberedEntries es) m
    else return .table es m
  | .template title args m =>
    if m.isEmpty then do
      let m ← stamp m
      return .template title (← numberedAll args) m
    else return .template title args m
  | v => return v

/-- Values in which everything new is numbered. -/
def numberedAll : List Value → StateM Nat (List Value)
  | [] => return []
  | v :: vs => do
    let v ← numbered v
    return v :: (← numberedAll vs)

/-- Entries in which everything new is numbered. -/
def numberedEntries : List (Value × Value) → StateM Nat (List (Value × Value))
  | [] => return []
  | (k, v) :: es => do
    let v ← numbered v
    return (k, v) :: (← numberedEntries es)

end

/-- A value without numbers. -/
def isUnnumbered : Value → Bool
  | .float _ m | .double _ m | .expr _ m | .grid _ m | .list _ m | .table _ m
  | .template _ _ m => m.isEmpty
  | .tuple _ => true
  | _ => false

/-! ## Programs -/

/-- What a script shows while it runs. -/
inductive Trace where
  | value (v : Value)
  | ok
  | error (e : Error)

/-- What the templates of a script share. -/
structure Host where
  exports : List (String × Value) := []
  trace : Array Trace := #[]
  /-- the number of the next new value -/
  next : Nat := 1
  contents : Contents := []
  /-- witness positions given to signals -/
  places : List (Signal × Value) := []
  /-- some signals share a declaration number -/
  ambiguous : Bool := false
  /-- the log is kept, so that every text for it has to be written -/
  keepsLog : Bool := false

/-- Variables by name; the latest binding counts. -/
abbrev Locals := List (String × Value)

/-- Programs with local variables. -/
abbrev Routine := ExceptT Error (StateT Locals (Program Host))

/-- A program without variables. -/
def lift {α : Type} (b : Build Host α) : Routine α :=
  ExceptT.mk fun locals => b.run.bind fun r => .pure (r, locals)

/-- Make a request. -/
def request (c : Command) : Routine c.Reply := lift (Build.request c)

/-- Stop with the error of a refused computation. -/
def demand {α : Type} (r : Except Error α) : Routine α := lift (Build.demand r)

/-- A failed host operation. -/
def refuse {α : Type} (f : Fault) : Routine α := demand (.error (.fault f))

/-- The host. -/
def host : Routine Host := lift Build.getHost

/-- Change the host. -/
def updateHost (f : Host → Host) : Routine Unit := lift do Build.setHost (f (← Build.getHost))

/-- The local variables. -/
def locals : Routine Locals := ExceptT.mk fun l => .pure (.ok l, l)

/-- Bind a variable. -/
def bindLocal (name : String) (v : Value) : Routine Unit :=
  ExceptT.mk fun l => .pure (.ok (), (name, v) :: l.filter (·.1 ≠ name))

/-- Bind a variable in every template. -/
def exportValue (name : String) (v : Value) : Routine Unit :=
  updateHost fun h => { h with exports := (name, v) :: h.exports.filter (·.1 ≠ name) }

/-- Show something. -/
def emit (t : Trace) : Routine Unit := updateHost fun h => { h with trace := h.trace.push t }

/-- Number a new value. -/
def make (v : Value) : Routine Value := do
  if isUnnumbered v then
    let h ← host
    let (v, next) := (numbered v).run h.next
    updateHost fun h => { h with next }
    return v
  else return v

/-- The value of a variable, as it stands. -/
def lookUp (name : String) : Routine Value := do
  match (← locals).lookup name with
  | some v => return refreshed (← host).contents v
  | none =>
    let h ← host
    match h.exports.lookup name with
    | some v => return refreshed h.contents v
    | none => refuse .key

/-- Note what a changed value holds now. -/
def change (m : Mark) (v : Value) : Routine Unit :=
  updateHost fun h => { h with contents := (m, v) :: h.contents.filter (·.1 ≠ m) }

/-- The outcome of a program that goes on after a failure. -/
def attempt {α : Type} (p : Routine α) : Routine (Except Error α) :=
  ExceptT.mk fun l => (p.run l).bind fun (r, l) => .pure (.ok r, l)

end RankOne.Script
