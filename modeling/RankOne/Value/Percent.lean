/-
  RankOne — percent formats.

  A format is a text in which `%` starts a directive: the key of an argument,
  flags, a least width, a precision, and a letter that says how the next argument
  is written.  Width and precision may be arguments themselves.  Two percent signs
  stand for one.

  * `Supply`: the arguments that are left, and the mapping behind keys;
  * `Directive`, `readDirective`: a directive and how it is read;
  * `Directive.render`: one argument under a directive;
  * `format`: a whole format; arguments must match the directives in number.
-/
import RankOne.Decimal.Places
import RankOne.Value.Number

namespace RankOne.Percent

open Value (refuse)

/-- The arguments that are left, and the value whose items keys name. -/
structure Supply where
  args : List Value
  mapping : Option Value

/-- A value with items by key. -/
def isMapping : Value → Bool
  | .list _ _ | .table _ _ | .range _ _ _ | .word _ | .flag _ | .double _ _ | .cell _ | .grid _ _
  | .array _ _ _ | .component _ | .slots _ => true
  | _ => false

/-- The supply that a value after a format stands for: the items of a tuple, or
    the value alone. -/
def Supply.of : Value → Supply
  | .tuple xs => ⟨xs, none⟩
  | v => ⟨[v], if isMapping v then some v else none⟩

/-- A value under a text, as a format asks for it. -/
def itemNamed (v : Value) (key : String) : Except Error Value :=
  match v with
  | .table es _ => match es.find? (fun e => match e.1 with | .str k => k == key | _ => false) with
    | some e => .ok e.2
    | none => refuse .key
  | .component c => (c.terminal key).map .ofBus
  | .word _ | .flag _ | .double _ _ | .cell _ | .grid _ _ => refuse .index
  | _ => refuse .type

/-- The next argument. -/
def Supply.next (s : Supply) : Except Error (Value × Supply) :=
  match s.args with
  | [] => refuse .type
  | v :: vs => .ok (v, { s with args := vs })

/-- A directive of a format. -/
structure Directive where
  flags : List Char := []
  width : Nat := 0
  precision : Option Nat := none
  letter : Char

/-! ## Reading -/

/-- Split off the key of an argument, up to the bracket that closes it. -/
def readKey : Nat → List Char → List Char → Option (String × List Char)
  | _, _, [] => none
  | depth, acc, c :: cs =>
    if c = ')' then
      if depth = 0 then some (String.ofList acc.reverse, cs) else readKey (depth - 1) (c :: acc) cs
    else readKey (if c = '(' then depth + 1 else depth) (c :: acc) cs

/-- The arguments after the key of a directive. -/
def takeKey (s : Supply) (cs : List Char) : Except Error (Supply × List Char) :=
  match cs with
  | '(' :: cs => match s.mapping with
    | none => refuse .type
    | some m => match readKey 0 [] cs with
      | none => refuse .value
      | some (key, cs) => do return ({ s with args := [← itemNamed m key] }, cs)
  | cs => .ok (s, cs)

/-- A run of digits as a number. -/
def readNat (cs : List Char) : Nat × List Char :=
  ((cs.takeWhile Char.isDigit).foldl (fun n c => 10 * n + (c.toNat - '0'.toNat)) 0,
    cs.dropWhile Char.isDigit)

/-- An argument that stands for a width or a precision. -/
def takeSize (bound : Nat) (s : Supply) : Except Error (Int × Supply) := do
  let (v, s) ← s.next
  let n ← match v with
    | .int n => .ok n
    | .bool b => .ok (Value.ofBool b)
    | _ => refuse .type
  if -(bound : Int) ≤ n ∧ n < bound then return (n, s) else refuse .overflow

/-- A width or precision in digits or as an argument, below a bound. -/
def readSize (bound : Nat) (s : Supply) (cs : List Char) :
    Except Error (Int × Supply × List Char) :=
  match cs with
  | '*' :: cs => do
    let (n, s) ← takeSize bound s
    return (n, s, cs)
  | cs => match readNat cs with
    | (n, cs) => if n < bound then .ok (n, s, cs) else refuse .value

/-- The precision, after its point. -/
def readPrecision (s : Supply) (cs : List Char) :
    Except Error (Option Nat × Supply × List Char) :=
  match cs with
  | '.' :: cs => do
    let (n, s, cs) ← readSize (Nat.pow 2 31) s cs
    return (some n.toNat, s, cs)
  | cs => .ok (none, s, cs)

/-- A character that changes how a directive is filled. -/
def isFlag (c : Char) : Bool := "-+ 0#".toList.contains c

/-- A letter for the size of an argument, which means nothing. -/
def isSizeLetter (c : Char) : Bool := "hlL".toList.contains c

/-- The least width that an integer stands for; the most negative one has no
    opposite among machine words and stands for none. -/
def leastWidth (n : Int) : Nat := if n = -Nat.pow 2 63 then 0 else n.natAbs

/-- Read the directive after a percent sign.  A negative width fills on the
    right. -/
def readDirective (s : Supply) (cs : List Char) :
    Except Error (Directive × Supply × List Char) := do
  let (s, cs) ← takeKey s cs
  let flags := cs.takeWhile isFlag
  let (width, s, cs) ← readSize (Nat.pow 2 63) s (cs.dropWhile isFlag)
  let flags := if width < 0 then '-' :: flags else flags
  let (precision, s, cs) ← readPrecision s cs
  let cs := match cs with
    | c :: rest => if isSizeLetter c then rest else cs
    | [] => []
  match cs with
  | letter :: rest => return ({ flags, width := leastWidth width, precision, letter }, s, rest)
  | [] => refuse .value

/-! ## Writing -/

namespace Directive

/-- Pad a text to the least width. -/
def pad (d : Directive) (s : String) : String :=
  let fill := String.ofList (List.replicate (d.width - s.length) ' ')
  if d.flags.contains '-' then s ++ fill else fill ++ s

/-- Pad a number behind its sign and the mark of its base; zeros stand between
    them and the digits. -/
def padNumber (d : Directive) (negative : Bool) (mark body : String) : String :=
  let sign := if negative then "-" else if d.flags.contains '+' then "+"
    else if d.flags.contains ' ' then " " else ""
  let start := sign ++ mark
  if d.flags.contains '0' && !d.flags.contains '-' then
    start ++ String.ofList (List.replicate (d.width - start.length - body.length) '0') ++ body
  else d.pad (start ++ body)

/-- At least as many digits as the precision says. -/
def atLeast (d : Directive) (body : String) : String :=
  String.ofList (List.replicate (d.precision.getD 0 - body.length) '0') ++ body

/-- An integer in some base. -/
def integer (d : Directive) (n : Int) (base : Nat) (mark : String) (upper : Bool) : String :=
  let body := d.atLeast (String.ofList (Nat.toDigits base n.natAbs))
  let mark := if d.flags.contains '#' then mark else ""
  if upper then d.padNumber (n < 0) mark.toUpper body.toUpper else d.padNumber (n < 0) mark body

/-- The digits of a finite number under a letter. -/
def digits (d : Directive) (letter : Char) (n den : Nat) : String :=
  let count := d.precision.getD 6
  let keep := d.flags.contains '#'
  if letter = 'f' then Decimal.fixedText n den count keep
  else if letter = 'e' then Decimal.exponentText n den count keep
  else Decimal.generalText n den count keep

/-- A floating-point number under a letter. -/
def number (d : Directive) (x : Float) : String :=
  let (n, den) := (Decimal.decode x).ratio
  let body := if x.isNaN then "nan" else if x.isInf then "inf" else d.digits d.letter.toLower n.natAbs den
  d.padNumber (!x.isNaN && (Decimal.decode x).negative) "" (if d.letter.isUpper then body.toUpper else body)

/-- A value as a floating-point number. -/
def toFloat : Value → Except Error Float
  | .cell v => toFloat v
  | .grid [v] _ => toFloat v
  | v => match Number.ofValue? v with
    | some x => x.toFloat
    | none => match v with
      | .str _ => refuse .type
      | v => do Number.intToFloat (← v.index)

/-- A value as an integer in digits of base ten. -/
def toDecimal : Value → Except Error Int
  | .str _ => refuse .type
  | v => do
    let n ← v.toInt
    if Value.isLong n then refuse .value else return n

/-- A text cut to the precision. -/
def cut (d : Directive) (s : String) : String :=
  match d.precision with
  | some n => String.ofList (s.toList.take n)
  | none => s

/-- A character, or the character of a code. -/
def character : Value → Except Error String
  | .str s => if s.length = 1 then .ok s else refuse .type
  | v => do
    let n ← v.index
    if 0 ≤ n ∧ n < 0x110000 then return String.singleton (Char.ofNat n.toNat)
    else refuse .overflow

/-- The text of an argument under a directive. -/
def write (d : Directive) (v : Value) : Except Error String :=
  match d.letter with
  | 's' => do return d.pad (d.cut (← v.shownText))
  | 'r' => do return d.pad (d.cut (← v.spelled))
  | 'a' => do return d.pad (d.cut (Text.ascii (← v.spelled)))
  | 'c' => do return d.pad (← character v)
  | 'x' => do return d.integer (← v.index) 16 "0x" false
  | 'X' => do return d.integer (← v.index) 16 "0x" true
  | 'o' => do return d.integer (← v.index) 8 "0o" false
  | 'd' | 'i' | 'u' => do return d.integer (← toDecimal v) 10 "" false
  | 'e' | 'E' | 'f' | 'F' | 'g' | 'G' => do return d.number (← toFloat v)
  | _ => refuse .value

/-- An argument under a directive, unless it is wider than can be held. -/
def render (d : Directive) (v : Value) : Except Error String :=
  if d.width < Nat.pow 2 30 then d.write v
  else do
    let _ ← { d with width := 0 }.write v
    refuse .memory

end Directive

/-- Write the arguments into the format, with fuel for its directives. -/
def formatLoop : Nat → List Char → Supply → String → Except Error String
  | 0, _, _, acc => .ok acc
  | fuel + 1, cs, s, acc =>
    let acc := acc ++ String.ofList (cs.takeWhile (· ≠ '%'))
    match cs.dropWhile (· ≠ '%') with
    | [] => if s.args.isEmpty || s.mapping.isSome then .ok acc else refuse .type
    | _ :: '%' :: rest => formatLoop fuel rest s (acc ++ "%")
    | _ :: rest => do
      let (d, s, rest) ← readDirective s rest
      let (v, s) ← s.next
      formatLoop fuel rest s (acc ++ (← d.render v))

/-- Write the arguments into a format. -/
def format (s : String) (supply : Supply) : Except Error String :=
  formatLoop (s.length + 1) s.toList supply ""

end RankOne.Percent
