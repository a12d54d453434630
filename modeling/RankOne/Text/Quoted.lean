/-
  RankOne — quoted texts and bracketed lists, as messages show them.

  * `quote`: a text between single quotes, or between double quotes when it
    holds a single quote and no double one; the chosen quote, the backslash and
    every character without a visible form are escaped;
  * `ascii`: a text whose characters outside of ASCII are escaped;
  * `commas`, `brackets`: items separated by a comma and a blank.
-/
import RankOne.Text.Printable

namespace RankOne.Text

/-- The low `width` hexadecimal digits of `n`. -/
def hex (width n : Nat) : String :=
  let digits := Nat.toDigits 16 n
  String.ofList (List.replicate (width - digits.length) '0' ++ digits)

/-- A character by its code. -/
def codeEscape (c : Char) : String :=
  if c.toNat < 256 then "\\x" ++ hex 2 c.toNat
  else if c.toNat < 65536 then "\\u" ++ hex 4 c.toNat
  else "\\U" ++ hex 8 c.toNat

/-- A character inside quotes `q`. -/
def escape (q c : Char) : String :=
  if c = q ∨ c = '\\' then String.ofList ['\\', c]
  else if c = '\n' then "\\n"
  else if c = '\r' then "\\r"
  else if c = '\t' then "\\t"
  else if isPrintable c then String.singleton c
  else codeEscape c

/-- A text with every character outside of ASCII by its code. -/
def ascii (s : String) : String :=
  String.join (s.toList.map fun c => if c.toNat < 128 then String.singleton c else codeEscape c)

/-- The quote a text is written with: single unless only the double one is free. -/
def quoteMark (s : String) : Char :=
  if s.toList.contains '\'' && !s.toList.contains '"' then '"' else '\''

/-- A text as messages quote it. -/
def quote (s : String) : String :=
  let q := quoteMark s
  String.singleton q ++ String.join (s.toList.map (escape q)) ++ String.singleton q

/-- Items separated by a comma and a blank. -/
def commas (items : List String) : String := ", ".intercalate items

/-- Items between square brackets. -/
def brackets (items : List String) : String := "[" ++ commas items ++ "]"

/-- Items between round brackets; a single item keeps its comma. -/
def parens : List String → String
  | [item] => "(" ++ item ++ ",)"
  | items => "(" ++ commas items ++ ")"

end RankOne.Text
