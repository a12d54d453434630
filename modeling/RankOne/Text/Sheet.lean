/-
  RankOne — rectangular tables of values as texts.

  All entries of a table are written in one layout: truth values and integers
  are padded to a common width, floating-point numbers have their points in one
  column or share one form of exponent.  Rows stand below each other, and a row
  too long for a line is broken between entries.

  * `Entry`, `Sheet`: entries and tables of any number of dimensions;
  * `Layout`: how the entries of a table are written;
  * `Sheet.render`: the text of a table.
-/
import RankOne.Decimal.Places
import RankOne.Decimal.Shortest

namespace RankOne.Text

/-- An entry of a table. -/
inductive Entry where
  | truth (b : Bool)
  | integer (n : Int)
  | number (x : Float)
  /-- any other value, as it is written -/
  | written (s : String)

/-- A table of any number of dimensions. -/
inductive Sheet where
  | entry (e : Entry)
  | rows (xs : List Sheet)

/-- Blanks. -/
def blanks (n : Nat) : String := String.ofList (List.replicate n ' ')

/-- A text padded on the left. -/
def padLeft (width : Nat) (s : String) : String := blanks (width - s.length) ++ s

/-- A text padded on the right. -/
def padRight (width : Nat) (s : String) : String := s ++ blanks (width - s.length)

/-! ## Floating-point numbers -/

/-- Digits after the point that a number in a table has at most. -/
def precision : Nat := 8

/-- A decimal without trailing zeros: digits and the power of ten of the last. -/
def dropTail (v : Nat) (k : Int) : Nat × Int :=
  let ds := Decimal.dropZeros (toString v).toList
  let n := (toString v).length - ds.length
  (v / Nat.pow 10 n, k + n)

/-- The shortest digits of a positive number, cut by rounding to those from
    `10 ^ lowest` on. -/
def cutDigits (d : Decimal.Dyadic) (lowest : Int) : Nat × Int :=
  let (v, k) := (fun r : Nat × Int => dropTail r.1 r.2) (Decimal.digits d)
  if lowest ≤ k then (v, k)
  else
    let (n, den) := d.ratio
    dropTail (Decimal.roundAt n.natAbs den lowest) lowest

/-- The digits before and behind the point of a number, without trailing zeros. -/
def positional (x : Float) : String × String :=
  let d := Decimal.decode x
  let sign := if d.negative then "-" else ""
  if d.m = 0 then (sign ++ "0", "")
  else
    let (v, k) := cutDigits d (-precision)
    let places := (-k).toNat
    let ds := (Decimal.padded (places + 1) (v * Nat.pow 10 k.toNat)).toList
    let part := if v = 0 then [] else ds.drop (ds.length - places)
    (sign ++ String.ofList (ds.take (ds.length - places)), String.ofList part)

/-- The digits before and behind the point of a number with an exponent, without
    trailing zeros, and the exponent. -/
def scientific (x : Float) : String × String × Int :=
  let d := Decimal.decode x
  let sign := if d.negative then "-" else ""
  if d.m = 0 then (sign ++ "0", "", 0)
  else
    let (n, den) := d.ratio
    let (v, k) := cutDigits d (Decimal.leading n.natAbs den - precision)
    let ds := (toString v).toList
    (sign ++ String.ofList (ds.take 1), String.ofList (ds.drop 1), k + ds.length - 1)

/-- The layout of a column of numbers. -/
structure Layout where
  /-- least widths before and behind the point -/
  whole : Nat
  part : Nat
  /-- digits of the exponents, if there are any -/
  exponent : Option Nat

/-- Exponents are used for large and for small numbers, and when both occur. -/
def needsExponent (xs : List Float) : Bool :=
  let sizes := (xs.filter fun x => x != 0).map Float.abs
  match sizes with
  | [] => false
  | x :: rest =>
    let most := rest.foldl (fun a b => if b > a then b else a) x
    let least := rest.foldl (fun a b => if b < a then b else a) x
    most ≥ 1e8 || least < 0.0001 || most / least > 1000

/-- The digits of an exponent, at least two. -/
def exponentDigits (e : Int) : String := Decimal.padded 2 e.natAbs

/-- The longest of some texts. -/
def longest (ss : List String) : Nat := ss.foldl (fun n s => max n s.length) 0

/-- The layout that fits all numbers. -/
def Layout.of (xs : List Float) : Layout :=
  let finite := xs.filter Float.isFinite
  let base : Layout :=
    if needsExponent finite then
      let ss := finite.map scientific
      { whole := longest (ss.map (·.1)), part := longest (ss.map (·.2.1))
        exponent := some (longest (ss.map fun s => exponentDigits s.2.2)) }
    else
      let ss := finite.map positional
      { whole := longest (ss.map (·.1)), part := longest (ss.map (·.2)), exponent := none }
  let behind := match base.exponent with
    | some e => e + 2 + base.part
    | none => base.part
  let widest := longest ((xs.filter fun x => !x.isFinite).map Decimal.render)
  { base with whole := max base.whole (widest - (behind + 1)) }

/-- The text of a number in a layout. -/
def Layout.text (l : Layout) (x : Float) : String :=
  let behind := match l.exponent with
    | some e => e + 2 + l.part
    | none => l.part
  if !x.isFinite then padLeft (l.whole + behind + 1) (Decimal.render x)
  else match l.exponent with
    | some digits =>
      let (whole, part, e) := scientific x
      let zeros := String.ofList (List.replicate (l.part - part.length) '0')
      padLeft l.whole whole ++ "." ++ part ++ zeros ++ "e" ++ (if e < 0 then "-" else "+")
        ++ Decimal.padded digits e.natAbs
    | none =>
      let (whole, part) := positional x
      padLeft l.whole whole ++ "." ++ padRight l.part part

/-! ## Tables -/

mutual

/-- The entries of a table, row by row. -/
def Sheet.entries : Sheet → List Entry
  | entry e => [e]
  | rows xs => rowEntries xs

/-- The entries of rows. -/
def Sheet.rowEntries : List Sheet → List Entry
  | [] => []
  | x :: xs => x.entries ++ rowEntries xs

end

/-- The number of dimensions. -/
def Sheet.depth : Sheet → Nat
  | entry _ => 0
  | rows [] => 1
  | rows (x :: _) => x.depth + 1

/-- How the entries of a table are written; a single entry is not padded. -/
def Sheet.format (s : Sheet) : Entry → String :=
  let numbers := s.entries.filterMap fun e => match e with
    | .number x => some x
    | _ => none
  let layout := Layout.of numbers
  let width := longest (s.entries.map fun e => match e with
    | .integer n => toString n
    | _ => "")
  fun e => match e with
  | .truth b => padLeft (if s.depth = 0 then 0 else 5) (if b then "True" else "False")
  | .integer n => padLeft width (toString n)
  | .number x => layout.text x
  | .written w => w

/-- An entry as it is written by itself. -/
def Entry.plain : Entry → Entry
  | .truth b => .written (if b then "True" else "False")
  | .integer n => .written (toString n)
  | .number x => .written (Decimal.render x)
  | .written w => .written w

mutual

/-- The table with each entry written by itself. -/
def Sheet.plain : Sheet → Sheet
  | entry e => entry e.plain
  | rows xs => rows (plainRows xs)

/-- The rows with each entry written by itself. -/
def Sheet.plainRows : List Sheet → List Sheet
  | [] => []
  | x :: xs => x.plain :: plainRows xs

end

/-- A text without blanks at its end. -/
def trimEnd (s : String) : String := String.ofList (s.toList.reverse.dropWhile (· == ' ')).reverse

/-- Put words on lines of a width, the lines after the first indented; `done`
    holds the finished lines and `line` the last one. -/
def fillLines (width indent : Nat) (separator : String) :
    List String → (done line : String) → String
  | [], done, line => done ++ line
  | w :: ws, done, line =>
    let line := if line.length ≤ indent then line else line ++ separator
    let full := line.length + w.length > width && indent < line.length
    if full then fillLines width indent separator ws (done ++ trimEnd line ++ "\n") (blanks indent ++ w)
    else fillLines width indent separator ws done (line ++ w)

mutual

/-- The text of a table whose lines after the first are indented. -/
def Sheet.lines (format : Entry → String) (separator : String) (indent width : Nat) :
    Sheet → String
  | entry e => format e
  | rows xs =>
    let words := rowLines format separator (indent + 1) (width - 1) xs
    let depth := (rows xs).depth
    let body :=
      if depth ≤ 1 then
        fillLines (width - 1) indent separator words "" (blanks indent)
      else
        let break_ := trimEnd separator ++ String.ofList (List.replicate (depth - 1) '\n')
        break_.intercalate (words.map (blanks indent ++ ·))
    "[" ++ String.ofList (body.toList.drop indent) ++ "]"

/-- The texts of rows. -/
def Sheet.rowLines (format : Entry → String) (separator : String) (indent width : Nat) :
    List Sheet → List String
  | [] => []
  | x :: xs => x.lines format separator indent width :: rowLines format separator indent width xs

end

/-- The text of a table that starts in column `column` of a line of `width`. -/
def Sheet.render (s : Sheet) (separator : String) (column width : Nat) : String :=
  s.lines s.format separator (column + 1) width

end RankOne.Text
