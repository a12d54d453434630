/-
  RankOne — signals that share a declaration number.

  Expressions keep coefficients by signal, and a signal is found by its number.
  Signals of one compilation have numbers of their own, but a session may declare
  two signals under one number, and a signal may outlive its compilation.  The
  second cannot be told from the first without comparing them, which signals
  refuse, so every look-up that meets both fails and reports the signal that was
  there first.

  * `lookUpIn`, `checkTable`: look-ups in coefficients;
  * `add`, `sum`: sums with their look-ups;
  * `checkSignals`: the look-ups behind a set of signals.
-/
import RankOne.Expr.Algebra

namespace RankOne.Clash

/-- Look a signal up among others: found, or absent, or not to be told from
    another. -/
def lookUpIn (stored : List Signal) (s : Signal) : Except Error Bool :=
  match stored.find? fun t => t.uid == s.uid with
  | some t => if t = s then .ok true else .error (.signalCompared t.path)
  | none => .ok false

/-- The signals of coefficients. -/
def signalsOf (ts : Terms) : List Signal := ts.map (·.1)

/-- Look all signals up among others. -/
def checkTable (stored : List Signal) : List Signal → Except Error Unit
  | [] => .ok ()
  | s :: ss => do
    let _ ← lookUpIn stored s
    checkTable stored ss

/-- Look signals up among others, up to the first that is absent. -/
def checkPresent (stored : List Signal) : List Signal → Except Error Unit
  | [] => .ok ()
  | s :: ss => do if ← lookUpIn stored s then checkPresent stored ss

/-! ## Sums -/

/-- The look-ups behind the question whether one form is a multiple of another. -/
def checkRatio (x y : Expr) : Except Error Unit :=
  if x.linear.length = y.linear.length then checkPresent (signalsOf y.linear) (signalsOf x.linear)
  else .ok ()

/-- The scalar by which one form is a multiple of another, after the look-ups. -/
def ratio (x y : Expr) : Except Error (Option Nat) := do
  checkRatio x y
  x.ratio y

/-- Coefficients added signal by signal, each looked up first. -/
def merge (l r : Terms) : Except Error Terms := do
  checkTable (signalsOf l) (signalsOf r)
  return l.merge r

/-- The sum, refused where two of its signals cannot be told apart. -/
def add (a b : Expr) : Except Error Expr := Expr.addWith ratio merge b.depth a b

/-- The sum of several expressions. -/
def sum (a : Expr) (bs : List Expr) : Except Error Expr := bs.foldlM add a

/-! ## Sets -/

/-- The look-ups behind a set of signals, put together one after another. -/
def checkSignals : List Signal → List Signal → Except Error Unit
  | _, [] => .ok ()
  | seen, s :: ss => do
    if ← lookUpIn seen s then checkSignals seen ss else checkSignals (s :: seen) ss

/-- All signals of an expression and its factors, in the order in which they are
    put together. -/
def mentioned (e : Expr) : List Signal :=
  signalsOf e.linear
    ++ e.products.flatMap fun (a, b) => signalsOf a.linear ++ signalsOf b.linear

end RankOne.Clash
