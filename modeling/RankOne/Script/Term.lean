/-
  RankOne — scripts, template bodies written as data.

  * `Property`, `Query`: what terms read off circuit objects;
  * `Term`: expressions over host values and circuit objects;
  * `Statement`: the statements of a body;
  * `Definition`: a template with parameters and a body.
-/
import RankOne.Script.Advisor
import RankOne.Value.Element

namespace RankOne.Script

/-- The properties that circuit objects have. -/
inductive Property where
  | uid | path | kind | field | component | index
  | degree | const | linear | products | isConstant | constantValue | signals
  | shape
  | name | inputs | outputs | template | declarations | kinds
  | parent | children | rows | referenced
  | args
  | prime | value | terms | indices
deriving DecidableEq, Repr

/-- What can be asked of expressions, signals, arrays and fields. -/
inductive Query where
  | isZero | linearPart | toRow | evaluate | isEmpty
  /-- fix the witness position of a signal -/
  | place
  | flat
  /-- an operation of a field -/
  | operation (op : FieldOperation)
deriving DecidableEq, Repr

/-- An expression of a script. -/
inductive Term where
  | variable_ (name : String)
  | literal (v : Value)
  /-- a literal of a value that cannot be made -/
  | invalid (e : Error)
  | binary (op : Binary) (a b : Term)
  | unary (op : Unary) (a : Term)
  /-- the condition that a value stands for -/
  | truth (a : Term)
  /-- the integer that a value stands for -/
  | toInt (a : Term)
  /-- a value in writing -/
  | written (a : Term)
  | length (a : Term)
  /-- the items of a sequence as a list -/
  | items (a : Term)
  /-- an expression over witness positions -/
  | combination (a : Term)
  | get (a i : Term)
  /-- an input or output of a component -/
  | terminal (a : Term) (name : String)
  /-- a property; on a component any other name is one of its terminals -/
  | property (a : Term) (name : String) (p : Option Property)
  /-- a question; what is none is asked for as a property -/
  | ask (a : Term) (name : String) (q : Option Query) (p : Option Property) (args : List Term)
  | list (xs : List Term)
  | range (args : List Term)
  | combine (op : String) (operands : List Term)
  /-- an operand as an expression; a bare one brings no field for constants -/
  | expression (bare : Bool) (a : Term)
  /-- an expression by its parts -/
  | form (const : Int) (linear : List (Term × Int)) (products : List (Term × Term))
      (degree : Option Int)
  | template (name : String) (args : List Term)

/-- A statement of a body. -/
inductive Statement where
  | declare (role : Role) (name : String) (dims : List Term)
  | slots (name : String) (dims : List Term)
  | component (name : String) (template : Term)
  | fill (array index template : Term)
  | assign (target value : Term)
  | constrain (l : Term) (r : Option Term)
  | hint (target : Term) (h : Hint) (deps : List Term)
  | log (format : String) (args : List Term)
  | let_ (name : String) (value : Term)
  /-- bind a name in every template of the script -/
  | export_ (name : String) (value : Term)
  | for_ (name : String) (range : List Term) (body : List Statement)
  | each (name : String) (value : Term) (body : List Statement)
  | if_ (condition : Term) (yes no : List Statement)
  | show_ (values : List Term)
  /-- show the path of the component -/
  | path
  /-- run a body and note whether it failed -/
  | try_ (body : List Statement)

/-- A template defined by a script. -/
structure Definition where
  name : String
  params : List String
  body : List Statement

end RankOne.Script
