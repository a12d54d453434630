/-
  RankOne — the statements a template is written with.

  * `signal`, `signals`, `matrix`: declarations of one signal, a row of signals,
    rows of signals;
  * `assign`, `constrain`, `hint`, `log`: statements;
  * `items`: the items of a value, places of components included;
  * `demand`: a refused computation stops the program.
-/
import RankOne.Build.Program
import RankOne.Value.Convert

namespace RankOne.Build

variable {σ α : Type}

/-- Stop with the error of a refused computation. -/
def demand (r : Except Error α) : Build σ α := ExceptT.mk (.pure r)

/-- Sizes of an array as integers. -/
def sizes (dims : List Value) : Except Error (List Int) := dims.mapM Value.index

/-- Declare a bus. -/
def declare (role : Role) (name : String) (dims : List Value) : Build σ Bus :=
  request (.declare role name (sizes dims))

/-- Declare one signal. -/
def signal (role : Role) (name : String) : Build σ Signal := do
  match ← declare role name [] with
  | .single s => return s
  | .array _ _ _ => throw (.fault .type)

/-- Declare a row of signals. -/
def signals (role : Role) (name : String) (n : Value) : Build σ (List Signal) := do
  return (← declare role name [n]).flat

/-- Declare rows of signals. -/
def matrix (role : Role) (name : String) (m n : Value) : Build σ (List (List Signal)) := do
  match ← declare role name [m, n] with
  | .array rows _ _ => return rows.map Bus.flat
  | .single s => return [[s]]

/-- Declare a row of places for components. -/
def slots (name : String) (n : Value) : Build σ SlotArray := request (.slots name (sizes [n]))

/-- Constrain a signal to an expression and compute it so. -/
def assign (target : Signal) (e : Expr) : Build σ Unit := request (.assign target (.ok e))

/-- Constrain two expressions to be equal. -/
def constrain (l r : Expr) : Build σ Unit := request (.constrain l r)

/-- Compute a signal by a hint on one expression. -/
def hint (target : Signal) (h : Hint) (dep : Expr) : Build σ Unit :=
  request (.hint target h (.ok [dep]))

/-- Write to the log, under the path of the component. -/
def log (text : String) : Build σ Unit := do
  let path ← path
  request (.log s!"[{path}] {text}")

/-- The constant `n` in the field of the compilation. -/
def const (n : Int) : Build σ Expr := do return .ofInt (← field) n

/-- The product of two expressions. -/
def times (a b : Expr) : Build σ Expr := demand (a.mul b)

/-- The signal of a terminal of a component. -/
def terminalSignal (c : Component) (name : String) : Build σ Signal := do
  match ← demand (c.terminal name) with
  | .single s => return s
  | .array _ _ _ => throw (.fault .type)

/-- The signals of a terminal of a component. -/
def terminalSignals (c : Component) (name : String) : Build σ (List Signal) := do
  return (← demand (c.terminal name)).flat

/-- What a place of an array holds, as a value. -/
def ofContent : SlotContent → Value
  | .component c => .component c
  | .part a => .slots a

/-- The places of an array from first to last. -/
def slotItems (a : SlotArray) : List Nat → Build σ (List Value)
  | [] => return []
  | i :: is => do
    let v := ofContent (← request (.slot a (i : Int) (toString i)))
    return v :: (← slotItems a is)

/-- The items of a value, in order.  A component is asked for a terminal by
    number, which it never has. -/
def items : Value → Build σ (List Value)
  | .slots a => do
    let n ← demand (Value.length (.slots a))
    slotItems a (List.range n)
  | .component c => demand (.error (.noTerminal c.path c.title.name "0" c.terminalNames))
  | v => demand v.items

/-- Assign a row of signals, one expression each. -/
def assignAll : List Signal → List Expr → Build σ Unit
  | t :: ts, e :: es => do
    assign t e
    assignAll ts es
  | _, _ => return ()

end RankOne.Build
