/-
  RankOne — what a template declares, and what its parent sees of it.

  * `Mark`: what tells apart things that look alike;
  * `Bus`: a declared signal, or a rectangular array of them;
  * `Title`: a template applied to its arguments, by name and in writing;
  * `Component`: a finished component as its parent sees it, with its inputs
    and outputs;
  * `SlotArray`: an array of places for components, or a part of one.
-/
import RankOne.Signal
import RankOne.Position

namespace RankOne

/-- A mark tells apart things that look alike: the number under which a thing was
    made, followed by the way to one of its parts.  What was never numbered has
    the empty mark. -/
abbrev Mark := List Nat

/-- Two things with marks are one thing. -/
def Mark.same (a b : Mark) : Bool := !a.isEmpty && a == b

/-- A declared signal or array of signals. -/
inductive Bus where
  | single (s : Signal)
  | array (items : List Bus) (shape : List Nat) (mark : Mark)

namespace Bus

mutual

/-- The signals of a bus, row by row. -/
def flat : Bus → List Signal
  | single s => [s]
  | array items _ _ => flatItems items

/-- The signals of a list of buses. -/
def flatItems : List Bus → List Signal
  | [] => []
  | p :: ps => p.flat ++ flatItems ps

end

mutual

/-- A bus as messages write it. -/
def text : Bus → String
  | single s => s.path
  | array items _ _ => "SignalArray(" ++ Text.brackets (itemTexts items) ++ ")"

/-- The written items of an array. -/
def itemTexts : List Bus → List String
  | [] => []
  | p :: ps => p.text :: itemTexts ps

end

end Bus

/-- An applied template: its name, and the name with its arguments. -/
structure Title where
  name : String
  text : String
deriving DecidableEq, Repr

/-- A declaration of a template. -/
structure Declaration where
  name : String
  role : Role
  bus : Bus

/-- The declarations in a role. -/
def Declaration.withRole (ds : List Declaration) (r : Role) : List Declaration :=
  ds.filter (·.role == r)

/-- A component as its parent sees it. -/
structure Component where
  /-- number of the instance -/
  id : Nat
  name : String
  path : String
  title : Title
  declarations : List Declaration

namespace Component

/-- A component as messages write it. -/
def text (c : Component) : String := s!"<ComponentInstance {c.path}: {c.title.text}>"

/-- Insert a name in order of code points. -/
def insertName (n : String) : List String → List String
  | [] => [n]
  | m :: ms => if n ≤ m then n :: m :: ms else m :: insertName n ms

/-- The names of the inputs and outputs, in order. -/
def terminalNames (c : Component) : List String :=
  ((c.declarations.filter (·.role != .intermediate)).map (·.name)).foldr insertName []

/-- The input or output of a name. -/
def terminal? (c : Component) (name : String) : Option Bus :=
  (c.declarations.find? fun d => d.name == name && d.role != .intermediate).map (·.bus)

/-- The input or output of a name, or the names there are. -/
def terminal (c : Component) (name : String) : Except Error Bus :=
  match c.terminal? name with
  | some p => .ok p
  | none => .error (.noTerminal c.path c.title.name name c.terminalNames)

/-- The input or output of a name, as an attribute; names with a leading
    underscore are never terminals. -/
def terminalAttribute (c : Component) (name : String) : Except Error Bus :=
  if name.startsWith "_" || name == "declarations" || name == "kinds" then
    .error (.hiddenAttribute name)
  else match c.terminal? name with
  | some p => .ok p
  | none => .error (.noTerminalAttribute c.path c.title.name name c.terminalNames)

end Component

/-- An array of places for components, or the part of one under some leading
    positions. -/
structure SlotArray where
  /-- number of the array -/
  id : Nat
  /-- number and path of the declaring instance -/
  owner : Nat
  ownerPath : String
  name : String
  /-- leading positions already taken -/
  taken : List Nat
  shape : List Int

namespace SlotArray

/-- Number of places along the first dimension. -/
def width (a : SlotArray) : Nat := (a.shape.headD 0).toNat

/-- The places under a position of the first dimension. -/
def part (a : SlotArray) (i : Nat) : SlotArray :=
  { a with name := s!"{a.name}[{i}]", taken := a.taken ++ [i], shape := a.shape.drop 1 }

/-- More than one dimension is left. -/
def isNested (a : SlotArray) : Bool := 1 < a.shape.length

end SlotArray

end RankOne
