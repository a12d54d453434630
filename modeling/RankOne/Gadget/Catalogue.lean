/-
  RankOne — the library of templates by name.

  * `Catalogue.names`: all names, in the order of the library;
  * `Catalogue.build?`: the program of a name on arguments; a wrong number of
    them is found only when the program runs;
  * `Catalogue.arguments`: the arguments as the template keeps them;
  * `Catalogue.apply`: the application of a name.
-/
import RankOne.Gadget.Case
import RankOne.Gadget.Series

namespace RankOne.Catalogue

open Gadget

variable {σ : Type}

/-- A template without parameters. -/
def none_ (b : Build σ Unit) : List Value → Build σ Unit
  | [] => b
  | _ => throw (.fault .type)

/-- A template with one parameter. -/
def one (b : Value → Build σ Unit) : List Value → Build σ Unit
  | [x] => b x
  | _ => throw (.fault .type)

/-- A template with two parameters. -/
def two (b : Value → Value → Build σ Unit) : List Value → Build σ Unit
  | [x, y] => b x y
  | _ => throw (.fault .type)

/-- The library: names with programs on arguments. -/
def entries : List (String × (List Value → Build σ Unit)) :=
  [ ("IsZero", none_ isZero), ("IsEqual", none_ isEqual), ("Num2Bits", one numToBits),
    ("LessThan", one lessThan), ("LessEqThan", one lessEqThan), ("GreaterThan", one greaterThan),
    ("AssertBool", none_ assertBool), ("MulInv", none_ Gadget.inverse), ("Sum", one Gadget.sum),
    ("Square", none_ square), ("QuinSelector", two quinSelector), ("Decoder", one decoder),
    ("EscalarProduct", one escalarProduct), ("Multiplexer", two multiplexer),
    ("Branch", one branch), ("Factorial", one factorial), ("Fibonacci", one fibonacci),
    ("Power", one power), ("Swap", one swap) ]

/-- The names of the library. -/
def names : List String := (@entries Unit).map (·.1)

/-- The program of a name. -/
def build? (name : String) : Option (List Value → Build σ Unit) :=
  (entries.find? (·.1 == name)).map (·.2)

/-- The arguments as a template keeps them: a selector has one or two, the
    second saying whether it is safe. -/
def arguments (name : String) (args : List Value) : Except Error (List Value) :=
  if name == "QuinSelector" then
    match args with
    | [n] => Value.statics [n, .bool true]
    | [n, safe] => Value.statics [n, safe]
    | _ => .error (.fault .type)
  else Value.statics args

/-- Apply a template of the library. -/
def apply (name : String) (args : List Value) : Except Error Application := do
  if names.contains name then return .of name (← arguments name args)
  else .error (.unknownTemplate name names)

end RankOne.Catalogue
