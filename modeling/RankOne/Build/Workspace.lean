/-
  RankOne — the state of a compilation while templates expand.

  * `Instance`: a component under construction, with its declarations, children
    and the rows it emitted;
  * `Workspace`: signals, draft, instances, filled places, and what has been
    reported so far;
  * `Work`: changes of the workspace that may be refused; what happened before
    the refusal stays;
  * `reserve`, `declare`, `occupy`, `openChild`, `closeChild`, `writable`, …: the
    steps that requests are made of.
-/
import RankOne.Build.Program
import RankOne.Log

namespace RankOne

/-- What happens to an output that its parent never reads. -/
inductive DanglingPolicy where
  | warn | error
deriving DecidableEq, Repr

/-- A component under construction. -/
structure Instance where
  /-- local name in the parent -/
  name : String
  path : String
  application : Application
  /-- number of the component that placed it -/
  parent : Option Nat
  declarations : List Declaration
  /-- child numbers by local name, in order of first placement -/
  children : List (String × Nat)
  /-- rows emitted by this component -/
  rows : List Nat
  /-- signals of these rows -/
  referenced : List Signal
  /-- names taken in this component -/
  names : List String

instance : Inhabited Instance :=
  ⟨{ name := "", path := "", application := ⟨⟨"", ""⟩, [], []⟩, parent := none,
     declarations := [], children := [], rows := [], referenced := [], names := [] }⟩

namespace Instance

/-- The applied template. -/
def title (c : Instance) : Title := c.application.title

/-- The instance as its parent sees it, under a number. -/
def component (c : Instance) (id : Nat) : Component :=
  { id, name := c.name, path := c.path, title := c.title, declarations := c.declarations }

/-- The applied template; one that was never numbered goes by the number of its
    instance. -/
def marked (c : Instance) (id : Nat) : Application :=
  if c.application.mark.isEmpty then { c.application with mark := [0, id] } else c.application

/-- The instance of a number, with what surrounds it. -/
def survey (instances : Array Instance) (id : Nat) : Survey :=
  let at_ (i : Nat) : Instance := instances.getD i default
  let c := at_ id
  { component := c.component id
    application := c.marked id
    parent := c.parent.map fun i => (at_ i).component i
    children := c.children.map fun child => (at_ child.2).component child.2
    rows := c.rows
    referenced := c.referenced }

/-- The declarations in a role. -/
def withRole (c : Instance) (r : Role) : List Declaration := Declaration.withRole c.declarations r

/-- The output signals. -/
def outputs (c : Instance) : List Signal := (c.withRole .output).flatMap (·.bus.flat)

/-- Put a child under a local name; a name used before keeps its place. -/
def attach (name : String) (id : Nat) : List (String × Nat) → List (String × Nat)
  | [] => [(name, id)]
  | (n, i) :: cs => if n = name then (n, id) :: cs else (n, i) :: attach name id cs

/-- A signal of one of the direct children. -/
def ownsChildSignal (c : Instance) (s : Signal) : Bool :=
  c.children.any fun child => s.component == c.path ++ "." ++ child.1

end Instance

/-- The state of a compilation. -/
structure Workspace where
  field : PrimeField
  policy : DanglingPolicy
  /-- all signals, by declaration number -/
  signals : Array Signal
  draft : Draft
  instances : Array Instance
  /-- number of arrays of places declared so far -/
  arrays : Nat
  /-- filled places, by array number and positions -/
  filled : List ((Nat × List Nat) × Component)
  /-- witness positions fixed so far -/
  positions : List (Signal × Position)
  dangling : Array String
  warnings : Array String
  log : Array Log.Record

/-- Changes of the workspace that may be refused. -/
abbrev Work := ExceptT Error (StateM Workspace)

namespace Workspace

/-- The constant one. -/
def one (field : PrimeField) : Signal :=
  { uid := 0, path := "one", kind := .one, field, component := "" }

/-- A workspace with nothing but the constant one. -/
def start (field : PrimeField) (policy : DanglingPolicy) : Workspace :=
  { field, policy, signals := #[one field], draft := .empty field, instances := #[], arrays := 0,
    filled := [], positions := [], dangling := #[], warnings := #[], log := #[] }

/-- The instance of a number. -/
def instanceAt (w : Workspace) (id : Nat) : Instance := w.instances.getD id default

/-- Change an instance. -/
def updateInstance (w : Workspace) (id : Nat) (f : Instance → Instance) : Workspace :=
  { w with instances := w.instances.modify id f }

/-- Add a log record. -/
def report (w : Workspace) (level : Log.Level) (source : Log.Source) (text : String) : Workspace :=
  { w with log := w.log.push { level, source, text } }

/-- A finished instance as its parent sees it. -/
def component (w : Workspace) (id : Nat) : Component := (w.instanceAt id).component id

/-! ## Declarations -/

/-- Make the signals of a bus with the given sizes. -/
def makeBus (field : PrimeField) (role : Role) (component : String) :
    List Nat → Mark → String → Array Signal → Bus × Array Signal
  | [], _, path, ss =>
    let s : Signal := { uid := ss.size, path, kind := .declared role, field, component }
    (.single s, ss.push s)
  | d :: ds, mark, path, ss =>
    let (items, ss) := (List.range d).foldl (fun (acc : List Bus × Array Signal) i =>
      let (p, ss) := makeBus field role component ds (mark ++ [i]) s!"{path}[{i}]" acc.2
      (p :: acc.1, ss)) ([], ss)
    (.array items.reverse (d :: ds) mark, ss)

/-- Take a name in a component. -/
def reserve (here : Nat) (name : String) : Work Unit := do
  let c := (← get).instanceAt here
  if c.names.contains name then throw (.declaredTwice name c.path c.title.name)
  else modify (·.updateInstance here fun c => { c with names := name :: c.names })

/-- Declare a signal or an array of signals. -/
def declare (here : Nat) (role : Role) (name : String) (dims : Except Error (List Int)) :
    Work Bus := do
  reserve here name
  let dims ← dims
  let w ← get
  let c := w.instanceAt here
  if dims.any (· < 0) then throw (.negativeDimension s!"{c.path}.{name}" dims)
  else
    let mark := [0, here, c.declarations.length]
    let (bus, signals) :=
      makeBus w.field role c.path (dims.map Int.toNat) mark s!"{c.path}.{name}" w.signals
    let declared : Declaration := { name, role, bus }
    set ({ w with signals }.updateInstance here fun c =>
      { c with declarations := c.declarations ++ [declared] })
    return bus

/-- Refuse sizes of more places than can be held.  How many can be held hangs on the
    memory at hand, of which a workspace knows nothing; the bound is an idealisation
    of it: `2 ^ 32` places can be held, and as many as there are signals. -/
def checkPlaces (held : Nat) : List Int → Except Error Unit
  | [] => .ok ()
  | d :: ds =>
    if d < -Nat.pow 2 63 || ((max (Nat.pow 2 63) held.succ : Nat) : Int) ≤ d then
      .error (.fault .overflow)
    else if ((max (Nat.pow 2 32) held.succ : Nat) : Int) ≤ d then .error (.fault .memory)
    else if 0 < d then checkPlaces held ds
    else .ok ()

/-- Declare an array of places. -/
def declareSlots (here : Nat) (name : String) (dims : Except Error (List Int)) :
    Work SlotArray := do
  reserve here name
  let dims ← dims
  if dims.isEmpty then throw .noDimension
  else
    checkPlaces (← get).signals.size dims
    let w ← get
    set { w with arrays := w.arrays + 1 }
    return { id := w.arrays, owner := here, ownerPath := (w.instanceAt here).path, name,
             taken := [], shape := dims }

/-! ## Components -/

/-- What fills a place. -/
def content? (w : Workspace) (array : Nat) (at_ : List Nat) : Option Component :=
  (w.filled.find? fun f => f.1 == (array, at_)).map (·.2)

/-- Read a place of an array, or a part of it. -/
def readSlot (a : SlotArray) (i : Int) (label : String) : Work SlotContent := do
  match RankOne.position? a.width i with
  | none => throw (.fault .index)
  | some j =>
    if a.isNested then return .part (a.part j)
    else match (← get).content? a.id (a.taken ++ [j]) with
      | some c => return .component c
      | none => throw (.slotEmpty s!"{a.ownerPath}.{a.name}[{label}]")

/-- Take a place for a child: the parent it belongs to and its local name. -/
def occupy (here : Nat) : Place → Work (Nat × String)
  | .named name => do
    reserve here name
    return (here, name)
  | .slot a i => do
    if a.isNested then throw (.subArray a.name i)
    else match RankOne.position? a.width i with
      | none => throw (.fault .index)
      | some j => match (← get).content? a.id (a.taken ++ [j]) with
        | some _ => throw (.slotFilled s!"{a.ownerPath}.{a.name}[{i}]")
        | none =>
          -- an array belongs to a component that is there
          if a.owner < (← get).instances.size then return (a.owner, s!"{a.name}[{i}]")
          else throw (.fault .index)

/-- Refuse something that is no template, after taking the place. -/
def misplace (here : Nat) (place : Place) (got : Except Error String) : Work Empty := do
  let (parent, name) ← occupy here place
  throw (.notATemplate s!"{((← get).instanceAt parent).path}.{name}" (← got))

/-- Enter a new instance; the main one has no parent. -/
def enter (name path : String) (application : Application) (parent : Option Nat) :
    StateM Workspace Nat := do
  let w ← get
  let c : Instance := { (default : Instance) with name, path, application, parent }
  set ({ w with instances := w.instances.push c }.report .debug .template
    s!"instantiating {application.title.text} as {path}")
  return w.instances.size

/-- Take a place and enter the instance of a child: its parent, its local name
    and its number. -/
def openChild (here : Nat) (place : Place) (application : Application) :
    Work (Nat × String × Nat) := do
  let (parent, name) ← occupy here place
  let path := s!"{((← get).instanceAt parent).path}.{name}"
  let id ← enter name path application (some parent)
  return (parent, name, id)

/-- The outputs of children that no row of the component refers to. -/
def danglingOutputs (w : Workspace) (id : Nat) : List String :=
  let c := w.instanceAt id
  (c.children.flatMap fun child => (w.instanceAt child.2).outputs).filterMap fun s =>
    if c.referenced.any (·.same s) then none else some s.path

/-- The report of a dangling output. -/
def danglingText (c : Instance) (path : String) : String :=
  s!"output {path} is never constrained by {c.path} ({c.title.name}); a prover may set it freely"

/-- Report the dangling outputs of a finished component. -/
def checkDangling (id : Nat) : Work Unit := do
  let w ← get
  let c := w.instanceAt id
  let paths := w.danglingOutputs id
  match w.policy, paths with
  | .error, path :: _ => throw (.danglingOutput (danglingText c path))
  | _, _ =>
    let texts := paths.map (danglingText c)
    set { w with
      dangling := w.dangling ++ paths.toArray
      warnings := w.warnings ++ texts.toArray
      log := w.log ++ (texts.map (Log.Record.mk .warning .template)).toArray }

/-- Leave a child that has been built: check it, hang it into the tree, and put
    it into its place. -/
def closeChild (place : Place) (parent : Nat) (name : String) (id : Nat)
    (built : Except Error Unit) : Work Component := do
  built
  checkDangling id
  modify (·.updateInstance parent fun c => { c with children := Instance.attach name id c.children })
  let c := (← get).component id
  match place with
  | .named _ => return c
  | .slot a i =>
    let j := (RankOne.position? a.width i).getD 0
    modify fun w => { w with filled := ((a.id, a.taken ++ [j]), c) :: w.filled }
    return c

/-! ## Statements -/

/-- A component may assign its own outputs and intermediates, and the inputs of
    its direct children. -/
def writable (c : Instance) (target : Signal) : Except Error Unit :=
  if target.component = c.path then
    match target.kind with
    | .declared .output | .declared .intermediate => .ok ()
    | .declared .input => .error (.ownInput target.path c.path)
    | .one => .error (.foreignTarget c.path target.kind.name target.path)
  else if target.kind = .declared .input ∧ c.ownsChildSignal target then .ok ()
  else .error (.foreignTarget c.path target.kind.name target.path)

/-- Note a row against the component that emitted it. -/
def record (here row : Nat) (w : Workspace) : Workspace :=
  let signals := (w.draft.rows[row]?.map Row.signals).getD []
  w.updateInstance here fun c =>
    { c with
      rows := c.rows ++ [row]
      referenced := signals.foldl (fun acc s => s.insert acc) c.referenced }

/-- Add the row and the rule of an assignment, unless the difference meets two
    signals of one number. -/
def addAssignment (target : Signal) (e : Expr) (origin : String) : Work Nat := do
  let w ← get
  let (row, draft) ← w.draft.assign target e origin
  let _ ← Clash.add e (Expr.ofSignal target).neg
  set ({ w with draft }.report .debug .rows s!"row {row}: {target.path} <== {e.text}")
  return row

/-- Add the row of an equality, unless the difference meets two signals of one
    number. -/
def addEquality (l r : Expr) (origin : String) : Work (Option Nat) := do
  let w ← get
  let (row, draft) ← w.draft.constrain l r origin
  let _ ← Clash.add l r.neg
  match row with
  | none => return none
  | some row =>
    set ({ w with draft }.report .debug .rows s!"row {row}: {l.text} === {r.text}")
    return some row

/-- Add the rule of a hint.  The rule stays even if the dependencies cannot be
    written to the log. -/
def addHint (target : Signal) (h : Hint) (deps : Except Error (List Expr)) (origin : String) :
    Work Unit := do
  let w ← get
  let draft ← w.draft.hint target h deps origin
  set { w with draft }
  let args ← deps.bind (·.mapM Expr.written)
  modify (·.report .debug .rows s!"hint: {target.path} <-- {h.name}({Text.commas args})")

/-- Constrain a signal to a value and compute it so. -/
def assign (here : Nat) (target : Signal) (value : Except Error Expr) : Work Unit := do
  let c := (← get).instanceAt here
  writable c target
  let row ← addAssignment target (← value) c.path
  modify (record here row)

/-- Constrain two expressions to be equal. -/
def constrain (here : Nat) (l r : Expr) : Work Unit := do
  let c := (← get).instanceAt here
  match ← addEquality l r c.path with
  | some row => modify (record here row)
  | none => return ()

/-- Compute a signal by a hint. -/
def hint (here : Nat) (target : Signal) (h : Hint) (deps : Except Error (List Expr)) :
    Work Unit := do
  let c := (← get).instanceAt here
  writable c target
  addHint target h deps c.path

/-! ## Witness positions -/

/-- What was fixed for a signal, here or in an earlier compilation. -/
def position? (w : Workspace) (s : Signal) : Option Position :=
  match s.source with
  | .earlier i => some (.of i)
  | _ => w.positions.lookup s

/-- The position fixed for a signal. -/
def position (w : Workspace) (s : Signal) : Except Error Int :=
  match w.position? s with
  | some p => .ok p.index
  | none => .error (if s.source = .stray then .fault .attribute else .unplaced s.path)

/-- Fix the position of a signal, once. -/
def bindPosition (s : Signal) (p : Position) : Work Unit := do
  let w ← get
  match w.position? s with
  | some q => throw (.placedTwice s.path q.text)
  | none => set { w with positions := (s, p) :: w.positions }

end Workspace

end RankOne
