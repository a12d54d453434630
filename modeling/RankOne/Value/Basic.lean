/-
  RankOne — host values, the data that templates compute with at compile time
  and that provers supply as inputs.

  * `Value`: numbers, texts, sequences and tables, numbers and grids of fixed
    width, and the objects of a circuit;
  * `Application`: a template applied to arguments;
  * `typeName`: the word for a value's type;
  * `operand`: a value offered to an expression;
  * `text`, `shown`: a value as it is written, and as it is shown inside a
    message, where a text stands without quotes;
  * `checkWritten`, `spelled`, `shownText`: the same, refused for integers of too many
    digits and for expressions over something that is no signal.
-/
import RankOne.Build.Component
import RankOne.System
import RankOne.Text.Sheet

namespace RankOne

/-- A host value.  Values that can be changed, or that are compared by what they
    are and not by what they hold, carry a mark. -/
inductive Value where
  | none
  | bool (b : Bool)
  | int (n : Int)
  | float (x : Float) (mark : Mark := [])
  | str (s : String)
  | list (xs : List Value) (mark : Mark := [])
  | tuple (xs : List Value)
  /-- keys with values, in order of insertion -/
  | table (entries : List (Value × Value)) (mark : Mark := [])
  /-- the integers from `start` before `stop` by `step` -/
  | range (start stop step : Int)
  /-- an integer of fixed width -/
  | word (n : Int)
  /-- a truth value of fixed width -/
  | flag (b : Bool)
  /-- a floating-point number of fixed width -/
  | double (x : Float) (mark : Mark := [])
  /-- a grid without dimensions, which holds one item -/
  | cell (v : Value)
  /-- a grid of at least one dimension -/
  | grid (items : List Value) (mark : Mark := [])
  | signal (s : Signal)
  | expr (e : Expr) (mark : Mark := [])
  | array (items : List Bus) (shape : List Nat) (mark : Mark)
  | component (c : Component)
  | slots (a : SlotArray)
  | template (title : Title) (args : List Value) (mark : Mark := [])
  | field (f : PrimeField)
  | kind (k : Kind)
  | combination (l : Combination)
  /-- a set of signals -/
  | signals (ss : List Signal)

namespace Value

instance : Inhabited Value := ⟨.none⟩

/-- A bus as a value. -/
def ofBus : Bus → Value
  | .single s => .signal s
  | .array items shape mark => .array items shape mark

/-- The word for a value's type. -/
def typeName : Value → String
  | none => "NoneType"
  | bool _ => "bool"
  | int _ => "int"
  | float _ _ => "float"
  | str _ => "str"
  | list _ _ => "list"
  | tuple _ => "tuple"
  | table _ _ => "dict"
  | range _ _ _ => "range"
  | word _ => "int64"
  | flag _ => "bool"
  | double _ _ => "float64"
  | cell _ | grid _ _ => "ndarray"
  | signal _ => "Signal"
  | expr _ _ => "Expression"
  | array _ _ _ => "SignalArray"
  | component _ => "ComponentInstance"
  | slots _ => "ComponentArray"
  | template title _ _ => title.name
  | field _ => "PrimeField"
  | kind _ => "SignalKind"
  | combination _ => "LinearCombination"
  | signals _ => "frozenset"

/-- A value offered to an expression; truth values count as zero and one. -/
def operand : Value → Operand
  | int n => .const n
  | bool b => .const (if b then 1 else 0)
  | signal s => .signal s
  | expr e _ => .expr e
  | v => .other v.typeName

/-! ## Texts -/

/-- The word for a truth value. -/
def boolText (b : Bool) : String := if b then "True" else "False"

/-- The word for a kind, with its value. -/
def kindText (k : Kind) : String :=
  s!"<SignalKind.{k.name.toUpper}: " ++ Text.quote k.name ++ ">"

/-- A combination as it is written. -/
def combinationText (l : Combination) : String :=
  "LinearCombination(terms="
    ++ Text.parens (l.terms.map fun t => Text.parens [toString t.1, toString t.2]) ++ ")"

/-- The items inside nested grids. -/
def gridLeaves : List Value → List Value
  | [] => []
  | grid xs _ :: vs => gridLeaves xs ++ gridLeaves vs
  | v :: vs => v :: gridLeaves vs

/-- The sizes of a grid along its dimensions. -/
def gridShape : List Value → List Nat
  | [] => [0]
  | grid xs _ :: vs => (vs.length + 1) :: gridShape xs
  | _ :: vs => [vs.length + 1]

/-- Characters of a text. -/
def textWidth : Value → Nat
  | str s => s.length
  | _ => 0

/-- The integer of a value. -/
def int? : Value → Option Int
  | int n => some n
  | _ => Option.none

/-- A truth value. -/
def isBool : Value → Bool
  | bool _ => true
  | _ => false

/-- A floating-point number. -/
def isFloat : Value → Bool
  | float _ _ => true
  | _ => false

/-- A text. -/
def isText : Value → Bool
  | str _ => true
  | _ => false

/-- The type of integers, where it has to be said. -/
def integerType (ns : List Int) : Option String :=
  if ns.all fun n => -Nat.pow 2 63 ≤ n && n < Nat.pow 2 63 then Option.none
  else if ns.all fun n => 0 ≤ n && n < Nat.pow 2 64 then some "uint64"
  else some "object"

/-- The type of the items of a grid, where it has to be said. -/
def gridType (vs : List Value) : Option String :=
  if vs.isEmpty then some "float64"
  else if vs.all isBool || vs.all isFloat then Option.none
  else if vs.all isText then some s!"'<U{vs.foldl (fun n v => max n v.textWidth) 1}'"
  else match vs.mapM int? with
    | some ns => integerType ns
    | Option.none => some "object"

/-- The text of a table as a grid: it starts after the word for it, and the type
    of its items goes to a new line where it does not fit. -/
def gridText (s : Text.Sheet) (shape : List Nat) (type : Option String) : String :=
  let body :=
    if shape == [0] then "[]"
    else if shape.contains 0 then
      "[], shape=" ++ Text.parens (shape.map fun n : Nat => toString n)
    else (if type = some "object" then s.plain else s).render ", " 6 74
  let start := "array(" ++ body
  match type with
  | Option.none => start ++ ")"
  | some type =>
    let rest := s!"dtype={type})"
    let last := (start.toList.reverse.takeWhile (· ≠ '\n')).length
    start ++ "," ++ (if last + rest.length + 2 > 75 then "\n" ++ Text.blanks 6 else " ") ++ rest

mutual

/-- A value as it is written. -/
def text : Value → String
  | none => "None"
  | bool b => boolText b
  | int n => toString n
  | float x _ => Decimal.render x
  | str s => Text.quote s
  | list xs _ => Text.brackets (texts xs)
  | tuple xs => Text.parens (texts xs)
  | table entries _ => "\x7b" ++ Text.commas (entryTexts entries) ++ "\x7d"
  | range a b s => if s = 1 then s!"range({a}, {b})" else s!"range({a}, {b}, {s})"
  | word n => s!"np.int64({n})"
  | flag b => s!"np.{boolText b}_"
  | double x _ => s!"np.float64({Decimal.render x})"
  | cell v => gridText v.sheet [] (gridType [v])
  | grid xs _ => gridText (.rows (sheets xs)) (gridShape xs) (gridType (gridLeaves xs))
  | signal s => s.path
  | expr e _ => e.text
  | array items shape mark => (Bus.array items shape mark).text
  | component c => c.text
  | slots _ => "<ComponentArray>"
  | template title _ _ => title.text
  | field f => f.text
  | kind k => kindText k
  | combination l => combinationText l
  | signals [] => "frozenset()"
  | signals ss => "frozenset(\x7b" ++ Text.commas (ss.map (·.path)) ++ "\x7d)"

/-- The written items of a sequence. -/
def texts : List Value → List String
  | [] => []
  | v :: vs => v.text :: texts vs

/-- The written entries of a table. -/
def entryTexts : List (Value × Value) → List String
  | [] => []
  | (k, v) :: es => (k.text ++ ": " ++ v.text) :: entryTexts es

/-- A grid or an item of one as a table of entries. -/
def sheet : Value → Text.Sheet
  | bool b => .entry (.truth b)
  | int n => .entry (.integer n)
  | float x _ => .entry (.number x)
  | grid xs _ => .rows (sheets xs)
  | list xs _ => .entry (.written ("list(" ++ Text.brackets (texts xs) ++ ")"))
  | v => .entry (.written v.text)

/-- The rows of a grid. -/
def sheets : List Value → List Text.Sheet
  | [] => []
  | v :: vs => v.sheet :: sheets vs

end

/-- The item of a grid without dimensions, as it is shown. -/
def itemText : Value → String
  | str s => s
  | v => v.text

/-- A value inside a message: a text stands without quotes, numbers of fixed
    width without their type, and the items of a grid without commas. -/
def shown : Value → String
  | str s => s
  | word n => toString n
  | flag b => boolText b
  | double x _ => Decimal.render x
  | cell v => v.itemText
  | grid xs _ => if (gridShape xs).contains 0 then "[]" else (Text.Sheet.rows (sheets xs)).render " " 0 75
  | v => v.text

/-! ## Values without a written form -/

/-- Integers of more digits than this are never written. -/
def maxDigits : Nat := 4300

/-- The first natural with too many digits. -/
def longBound : Nat := Nat.pow 10 maxDigits

/-- An integer with too many digits. -/
def isLong (n : Int) : Bool := longBound ≤ n.natAbs

mutual

/-- An integer with too many digits occurs. -/
def hasLong : Value → Bool
  | int n | word n => isLong n
  | list xs _ | tuple xs | grid xs _ | template _ xs _ => haveLong xs
  | table es _ => entriesHaveLong es
  | range a b s => isLong a || isLong b || isLong s
  | cell v => v.hasLong
  | _ => false

/-- An integer with too many digits occurs in some values. -/
def haveLong : List Value → Bool
  | [] => false
  | v :: vs => v.hasLong || haveLong vs

/-- An integer with too many digits occurs in a table. -/
def entriesHaveLong : List (Value × Value) → Bool
  | [] => false
  | (k, v) :: es => k.hasLong || v.hasLong || entriesHaveLong es

end

mutual

/-- Something that is no signal stands for one. -/
def hasStray : Value → Bool
  | expr e _ => e.hasStray
  | signals ss => ss.any (·.source == .stray)
  | list xs _ | tuple xs | grid xs _ | template _ xs _ => haveStray xs
  | table es _ => entriesHaveStray es
  | cell v => v.hasStray
  | _ => false

/-- Something that is no signal stands for one in some values. -/
def haveStray : List Value → Bool
  | [] => false
  | v :: vs => v.hasStray || haveStray vs

/-- Something that is no signal stands for one in a table. -/
def entriesHaveStray : List (Value × Value) → Bool
  | [] => false
  | (k, v) :: es => k.hasStray || v.hasStray || entriesHaveStray es

end

/-- Refuse a value that has no written form: an integer has too many digits, or
    something that is no signal stands for one. -/
def checkWritten (v : Value) : Except Error Unit :=
  if v.hasLong then .error (.fault .value)
  else if v.hasStray then .error (.fault .attribute)
  else .ok ()

/-- A value as it is written, if it can be. -/
def spelled (v : Value) : Except Error String := do
  v.checkWritten
  return v.text

/-- A value inside a message, if it can be written. -/
def shownText (v : Value) : Except Error String :=
  if v.hasLong then .error (.fault .value) else .ok v.shown

end Value

/-- A template's name with its arguments. -/
def Title.of (name : String) (args : List Value) : Title :=
  ⟨name, name ++ "(" ++ Text.commas (Value.texts args) ++ ")"⟩

/-- A template applied to arguments. -/
structure Application where
  title : Title
  args : List Value
  mark : Mark := []

namespace Application

/-- The application of a name to arguments. -/
def of (name : String) (args : List Value) : Application := { title := .of name args, args }

/-- An application as a value. -/
def toValue (a : Application) : Value := .template a.title a.args a.mark

end Application

end RankOne
