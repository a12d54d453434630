/-
  RankOne — signals, the unknowns of a circuit.

  Signals of one compilation are told apart by their declaration number.  A signal
  may outlive its compilation: used in a later one, it keeps its number and the
  witness position it was given.  It can then share its number with a signal of
  the later compilation, which rules and sums refuse to tell from it.
-/
import RankOne.Field.Basic

namespace RankOne

/-- How a template declares a signal. -/
inductive Role where
  | input | output | intermediate
deriving DecidableEq, Repr

/-- What a signal is: the constant one, or declared in some role. -/
inductive Kind where
  | one
  | declared (r : Role)
deriving DecidableEq, Repr

/-- The word for a role. -/
def Role.name : Role → String
  | input => "input"
  | output => "output"
  | intermediate => "intermediate"

/-- The word for a kind. -/
def Kind.name : Kind → String
  | one => "one"
  | declared r => r.name

/-- Where a signal comes from. -/
inductive Source where
  /-- the compilation at hand -/
  | own
  /-- an earlier compilation, which placed it in its witness -/
  | earlier (position : Nat)
  /-- nowhere: something else stands in the place of a signal -/
  | stray
deriving DecidableEq, Repr

/-- An unknown of a circuit. -/
structure Signal where
  /-- declaration number -/
  uid : Int
  /-- dotted path from the main component -/
  path : String
  kind : Kind
  field : PrimeField
  /-- path of the owning component -/
  component : String
  source : Source := .own
deriving DecidableEq, Repr

/-- The same signal, by declaration number. -/
def Signal.same (s t : Signal) : Bool := s.uid == t.uid

/-- Insert in order of declaration, once. -/
def Signal.insert (s : Signal) : List Signal → List Signal
  | [] => [s]
  | t :: ts =>
    if s.uid < t.uid then s :: t :: ts
    else if s.uid = t.uid then t :: ts
    else t :: Signal.insert s ts

/-- A set of signals, listed in order of declaration. -/
def Signal.sorted (ss : List Signal) : List Signal := ss.foldl (fun acc s => s.insert acc) []

end RankOne
