/-
  RankOne — compiled circuits.

  * `Circuit`: the system, the rules in the order in which they run, and the
    signals by witness position;
  * `layout`: the constant, the main outputs, the public inputs, the private
    inputs, and all other signals in order of declaration;
  * `Circuit.ofWorkspace`: what an expanded template compiles to: every signal
    but the main inputs needs a rule, and the rules must not wait for each other;
  * `compile`: expansion and compilation of a template;
  * `Circuit.signal`, `Circuit.symbols`, `Circuit.walk`: looking into a circuit.
-/
import RankOne.Build.Run
import RankOne.Circuit.Order
import RankOne.Settings

namespace RankOne

/-- A compiled circuit. -/
structure Circuit where
  title : Title
  settings : Settings
  field : PrimeField
  system : System
  /-- rules in the order in which they run -/
  rules : List Rule
  /-- signals by witness position -/
  signals : Array Signal
  /-- witness positions by declaration number -/
  places : Array Nat
  instances : Array Instance
  /-- number of the main instance -/
  main : Nat
  publicInputs : List String
  /-- paths of the outputs that their parents never read -/
  dangling : List String

namespace Circuit

/-! ## Compilation -/

/-- An input of the main component. -/
def isMainInput (s : Signal) : Bool := s.kind == .declared .input && s.component == "main"

/-- The signals that need a rule. -/
def computed (w : Workspace) : List Signal :=
  w.signals.toList.filter fun s => s.kind != .one && !isMainInput s

/-- The signals that need a rule and have none. -/
def unassigned (w : Workspace) : List Signal :=
  w.signals.toList.filter fun s => s.kind != .one && !isMainInput s && !w.draft.isAssigned s

/-- Look the signals that need a rule up among the targets. -/
def checkTargets (w : Workspace) : Except Error Unit :=
  Clash.checkTable (w.draft.rules.toList.map (·.target)) (computed w)

/-- Look what the rules read up among the targets. -/
def checkReads (rules : List Rule) : Except Error Unit :=
  rules.forM fun r => do
    r.checkReads
    Clash.checkTable (rules.map (·.target)) r.reads

/-- The input of a name. -/
def inputSignals (main : Instance) (name : String) : List Signal :=
  match (main.withRole .input).find? (·.name == name) with
  | some d => d.bus.flat
  | none => []

/-- The outputs, the public and the private inputs of the main component. -/
def blocks (main : Instance) (public_ : List String) :
    List Signal × List Signal × List Signal :=
  (main.outputs, public_.flatMap (inputSignals main),
    ((main.withRole .input).filter fun d => !public_.contains d.name).flatMap (·.bus.flat))

/-- All signals in the order of the witness. -/
def layout (w : Workspace) (main : Instance) (public_ : List String) : List Signal :=
  let (outputs, publics, privates) := blocks main public_
  let head := Workspace.one w.field :: (outputs ++ publics ++ privates)
  head ++ w.signals.toList.filter fun s => !head.any (·.same s)

/-- Fix positions one after another from `i` on; a signal has only one. -/
def bindFrom : Nat → List Signal → Workspace → Except Error Workspace
  | _, [], w => .ok w
  | i, s :: ss, w => match (Workspace.bindPosition s (.of i)).run.run w with
    | (.ok (), w) => bindFrom (i + 1) ss w
    | (.error e, _) => .error e

/-- A row over witness positions. -/
def lower (w : Workspace) (r : Row) : Except Error Constraint := do
  return { a := ← Combination.ofExpr w.position r.a
           b := ← Combination.ofExpr w.position r.b
           c := ← Combination.ofExpr w.position r.c
           origin := r.origin }

/-- Refuse a public name that is no input of the main component. -/
def checkPublic (main : Instance) (public_ : List String) : Except Error Unit :=
  match public_.find? fun n => !(main.withRole .input).any (·.name == n) with
  | some n => .error (.notAnInput n main.title.text)
  | none => .ok ()

/-- What an expanded template compiles to. -/
def ofWorkspace (settings : Settings) (w : Workspace) (id : Nat) (public_ : List String) :
    Except Error Circuit := do
  let main := w.instanceAt id
  checkPublic main public_
  checkTargets w
  let missing := unassigned w
  if !missing.isEmpty then .error (.unassigned (missing.map (·.path)))
  else
    checkReads w.draft.rules.toList
    let rules ← Order.evaluationOrder w.draft.rules.toList
    let signals := layout w main public_
    let w ← bindFrom 0 signals w
    let constraints ← w.draft.rows.toList.mapM (lower w)
    let (outputs, publics, privates) := blocks main public_
    return {
      title := main.title, settings, field := w.field
      system := { prime := w.field.p, signals := signals.length, outputs := outputs.length,
                  publicInputs := publics.length, privateInputs := privates.length, constraints }
      rules, signals := signals.toArray
      places := w.signals.map fun s => match w.position s with
        | .ok i => i.toNat
        | .error _ => 0
      instances := w.instances, main := id, publicInputs := public_
      dangling := w.dangling.toList }

/-- The report of a finished compilation. -/
def compiledText (c : Circuit) : String :=
  let s := c.system
  s!"compiled {c.title.text}: {s.constraints.length} constraints, {s.signals} signals (" ++
    s!"{s.outputs} outputs, {s.publicInputs} public inputs, {s.privateInputs} private inputs)"

/-! ## Looking into a circuit -/

/-- The witness position of a signal of the circuit, found by its number. -/
def place (c : Circuit) (s : Signal) : Nat := c.places.getD s.uid.toNat 0

/-- The witness position of any signal: a signal keeps the position of its own
    compilation, and has none if that failed. -/
def index (c : Circuit) (s : Signal) : Except Error Nat :=
  match s.source with
  | .earlier i => .ok i
  | .stray => .error (.fault .attribute)
  | .own => if c.signals[c.place s]? = some s then .ok (c.place s) else .error (.unplaced s.path)

/-- The main component. -/
def mainInstance (c : Circuit) : Instance := c.instances.getD c.main default

/-- The last signal of a path. -/
def byPath? (c : Circuit) (path : String) : Option Signal :=
  c.signals.toList.reverse.find? (·.path == path)

/-- The signal of a path, full or without the main component. -/
def signal? (c : Circuit) (path : String) : Option Signal :=
  match c.byPath? path with
  | some s => some s
  | none => c.byPath? s!"main.{path}"

/-- The signal of a path, or the error that there is none. -/
def signal (c : Circuit) (path : String) : Except Error Signal :=
  match c.signal? path with
  | some s => .ok s
  | none => .error (.noSignal path c.title.text)

/-- Put a position under a path; a path used before keeps its place. -/
def putSymbol (path : String) (i : Nat) : List (String × Nat) → List (String × Nat)
  | [] => [(path, i)]
  | (p, j) :: rest => if p = path then (p, i) :: rest else (p, j) :: putSymbol path i rest

/-- Witness positions by path. -/
def symbols (c : Circuit) : List (String × Nat) :=
  c.signals.toList.foldl (fun acc s => putSymbol s.path (c.place s) acc) []

/-- The numbers of a component and its descendants, depth first, at most `fuel`
    levels deep. -/
def walkFrom (instances : Array Instance) : Nat → Nat → List Nat
  | 0, _ => []
  | fuel + 1, id =>
    id :: (instances.getD id default).children.flatMap fun child =>
      walkFrom instances fuel child.2

/-- All components from the main one on, depth first. -/
def walk (c : Circuit) : List Instance :=
  (walkFrom c.instances c.instances.size c.main).map fun id => c.instances.getD id default

/-- A component as its parent sees it. -/
def component (c : Circuit) (id : Nat) : Component := (c.instances.getD id default).component id

/-- A component with what surrounds it. -/
def survey (c : Circuit) (id : Nat) : Survey := Instance.survey c.instances id

/-- The component of a path. -/
def component? (c : Circuit) (path : String) : Option Component :=
  ((walkFrom c.instances c.instances.size c.main).find? fun id =>
    (c.instances.getD id default).path == path).map c.component

end Circuit

/-- The outcome of a compilation, with all that was reported and the final host
    state. -/
structure Compilation (σ : Type) where
  result : Except Error Circuit
  host : σ
  warnings : List String
  log : List Log.Record

/-- Compile a template as the main component. -/
def compile {σ : Type} (settings : Settings) (t : Template σ) (host : σ) (public_ : List String) :
    Compilation σ :=
  match settings.field with
  | .error e => { result := .error e, host, warnings := [], log := [] }
  | .ok field =>
    let (expanded, (w, host)) := t.expand (.start field settings.dangling, host)
    let result := expanded.bind fun id => Circuit.ofWorkspace settings w id public_
    let done := match result with
      | .ok c => [⟨.info, .compilation, c.compiledText⟩]
      | .error _ => []
    { result, host, warnings := w.warnings.toList, log := w.log.toList ++ done }

end RankOne
