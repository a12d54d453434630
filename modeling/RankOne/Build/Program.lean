/-
  RankOne — templates as programs.

  The body of a template is a tree of requests to the compiler.  Each request is
  answered by a value or an error, and the rest of the program may depend on the
  answer.  A request for a child component carries the program of the child, and
  requests come from the component being built: once a child is finished, only its
  parent goes on, and nothing more is asked in the name of the child.  Programs also share a host state `σ`, which belongs to their authors and which
  the compiler never looks at.

  * `Place`, `Command`, `Command.Reply`: requests and what answers them;
  * `Program σ α`: trees of requests that end in a result of type `α`, a monad;
  * `Build σ`: programs that may stop with an error;
  * `Template σ`: an application with the program that builds it.
-/
import RankOne.Draft
import RankOne.Value.Basic

namespace RankOne

/-- Where a child component goes. -/
inductive Place where
  | named (name : String)
  | slot (array : SlotArray) (index : Int)

/-- The witness position of a signal, with the text it was given by. -/
structure Position where
  index : Int
  text : String

/-- The position of a number. -/
def Position.of (i : Int) : Position := ⟨i, toString i⟩

/-- A component as it stands, with what surrounds it. -/
structure Survey where
  component : Component
  application : Application
  parent : Option Component
  children : List Component
  /-- rows emitted by the component -/
  rows : List Nat
  /-- signals of these rows -/
  referenced : List Signal

/-- A request to the compiler, made from inside some component. -/
inductive Command where
  /-- the path of the component -/
  | path
  /-- the field of the compilation -/
  | field
  /-- declare a signal, or an array when sizes are given -/
  | declare (role : Role) (name : String) (dims : Except Error (List Int))
  /-- declare an array of places for components -/
  | slots (name : String) (dims : Except Error (List Int))
  /-- put into a place something that is no template, which is always refused -/
  | misplace (place : Place) (got : Except Error String)
  /-- the component in a place of an array, named by a label in messages -/
  | slot (array : SlotArray) (index : Int) (label : String)
  /-- constrain a signal to a value and compute it so -/
  | assign (target : Signal) (value : Except Error Expr)
  /-- constrain two expressions to be equal -/
  | constrain (l r : Expr)
  /-- compute a signal by a hint -/
  | hint (target : Signal) (h : Hint) (deps : Except Error (List Expr))
  /-- write to the log -/
  | log (text : String)
  /-- fix the witness position of a signal -/
  | bind (s : Signal) (p : Position)
  /-- look at the component of a number -/
  | inspect (id : Nat)

/-- What a place of an array holds. -/
inductive SlotContent where
  | component (c : Component)
  | part (a : SlotArray)

/-- What answers a request, if it is not refused. -/
abbrev Command.Reply : Command → Type
  | path => String
  | field => PrimeField
  | declare _ _ _ => Bus
  | slots _ _ => SlotArray
  | misplace _ _ => Empty
  | slot _ _ _ => SlotContent
  | assign _ _ => Unit
  | constrain _ _ => Unit
  | hint _ _ _ => Unit
  | log _ => Unit
  | bind _ _ => Unit
  | inspect _ => Survey

/-- Programs with host state `σ` and result type `α`. -/
inductive Program (σ : Type) : Type → Type 1 where
  | pure {α : Type} (a : α) : Program σ α
  | request {α : Type} (c : Command) (next : Except Error c.Reply → Program σ α) : Program σ α
  /-- place a child built by `body`; the answer is the finished component -/
  | child {α : Type} (place : Place) (application : Application)
      (body : Program σ (Except Error Unit)) (next : Except Error Component → Program σ α) : Program σ α
  | getHost {α : Type} (next : σ → Program σ α) : Program σ α
  | setHost {α : Type} (s : σ) (next : Program σ α) : Program σ α

namespace Program

variable {σ α β : Type}

/-- Run one program after another. -/
def bind : Program σ α → (α → Program σ β) → Program σ β
  | pure a, f => f a
  | request c next, f => request c fun r => (next r).bind f
  | child place application body next, f => child place application body fun r => (next r).bind f
  | getHost next, f => getHost fun s => (next s).bind f
  | setHost s next, f => setHost s (next.bind f)

instance : Monad (Program σ) where
  pure := Program.pure
  bind := Program.bind

end Program

/-- Programs that may stop with an error. -/
abbrev Build (σ : Type) := ExceptT Error (Program σ)

/-- A template applied to its arguments. -/
structure Template (σ : Type) where
  application : Application
  body : Build σ Unit

namespace Build

variable {σ α : Type}

/-- Make a request. -/
def request (c : Command) : Build σ c.Reply := ExceptT.mk (.request c .pure)

/-- The path of the component being built. -/
def path : Build σ String := request .path

/-- The field of the compilation. -/
def field : Build σ PrimeField := request .field

/-- Place a child component. -/
def place (place : Place) (t : Template σ) : Build σ Component :=
  ExceptT.mk (.child place t.application t.body.run .pure)

/-- A named child component. -/
def component (name : String) (t : Template σ) : Build σ Component := Build.place (.named name) t

/-- Fill a place of an array. -/
def fill (a : SlotArray) (i : Int) (t : Template σ) : Build σ Component :=
  Build.place (.slot a i) t

/-- The host state. -/
def getHost : Build σ σ := ExceptT.mk (.getHost fun s => .pure (.ok s))

/-- Replace the host state. -/
def setHost (s : σ) : Build σ Unit := ExceptT.mk (.setHost s (.pure (.ok ())))

end Build

end RankOne
