/-
  RankOne — equality of host values.

  Equality asks the values themselves, so a signal refuses it and an expression
  allows it only between constants.  Inside a sequence two places that hold one
  and the same thing count as equal without being asked.

  * `identical`: two values are one and the same thing;
  * `isEqual`, `areEqual`: equality of values and of sequences;
  * `keyIs`, `findEntry`: look-up by key.
-/
import RankOne.Value.Fixed
import RankOne.Value.Grid

namespace RankOne.Value

/-- A signal or an expression. -/
def isSymbolic : Value → Bool
  | signal _ | expr _ _ => true
  | _ => false

/-- An operand of circuit arithmetic: an integer, a signal or an expression. -/
def isOperand (v : Value) : Bool :=
  match v.operand with
  | .other _ => false
  | _ => true

/-- The host value of an operand of a host operation. -/
def hostOperand (op : String) : Value → Except Error Value
  | signal s => .error (.hostOnSignal op s.path)
  | expr e _ => if e.degree > 0 then .error (.hostOnSymbolic op e.text e.degree) else .ok (.int e.const)
  | v => .ok v

/-- Two values are one and the same thing.  What is equal whenever it looks alike
    need not be told apart. -/
def identical : Value → Value → Bool
  | signal s, signal t => s == t
  | expr _ m, expr _ n | float _ m, float _ n | double _ m, double _ n | list _ m, list _ n
  | table _ m, table _ n | grid _ m, grid _ n => m.same n
  | _, _ => false

/-- The constant of an expression is a value. -/
def constantIs (e : Expr) (m : Mark) (v : Value) : Except Error Bool := do
  let v := v.bare
  if v.isOperand then
    let a ← hostOperand "==" (expr e m)
    let b ← hostOperand "==" v
    match Number.ofValue? a, Number.ofValue? b with
    | some a, some b => return Number.test .eq a b
    | _, _ => return false
  else return false

/-- Ranges with the same integers. -/
def sameRange (a b s a' b' s' : Int) : Bool :=
  let n := rangeLength a b s
  n == rangeLength a' b' s' && (n == 0 || (a == a' && (n == 1 || s == s')))

/-- Sets with the same signals; two signals with one declaration number cannot be
    told apart. -/
def sameSignals : List Signal → List Signal → Except Error Bool
  | [], [] => .ok true
  | s :: ss, t :: ts =>
    if s = t then sameSignals ss ts
    else if s.uid = t.uid then .error (.signalCompared s.path)
    else .ok false
  | _, _ => .ok false

/-- Equality of values of which at most one is a sequence. -/
def leafEqual : Value → Value → Except Error Bool
  | signal s, v => match v with
    | signal t => if s = t then .ok true else .error (.signalCompared s.path)
    | _ => .error (.signalCompared s.path)
  | expr e m, v => constantIs e m v
  | _, signal t => .error (.signalCompared t.path)
  | v, expr e m => constantIs e m v
  | none, none => .ok true
  | str s, str t => .ok (s == t)
  | range a b s, range a' b' s' => .ok (sameRange a b s a' b' s')
  | array _ _ m, array _ _ n => .ok (m.same n)
  | component c, component c' => .ok (c.id == c'.id)
  | slots a, slots a' => .ok (a.id == a'.id && a.taken == a'.taken)
  | template _ _ m, template _ _ n => .ok (m.same n)
  | field f, field g => .ok (f == g)
  | kind k, kind l => .ok (k == l)
  | combination l, combination l' => .ok (l == l')
  | signals ss, signals tt => if ss.length = tt.length then sameSignals ss tt else .ok false
  | v, v' =>
    if v.isFixed || v'.isFixed then match Fixed.ofValue? v, Fixed.ofValue? v' with
      | some a, some b => .ok (Fixed.test .eq a b)
      | _, _ => .ok false
    else match Number.ofValue? v, Number.ofValue? v' with
      | some a, some b => .ok (Number.test .eq a b)
      | _, _ => .ok false

/-- A value beside which a sequence is taken as a grid. -/
def isGrid : Value → Bool
  | cell _ | grid _ _ => true
  | _ => false

/-- A list or a tuple. -/
def isRow : Value → Bool
  | list _ _ | tuple _ => true
  | _ => false

/-- Equality item by item where grids are compared. -/
def gridEqual (a b : Value) : Except Error Value :=
  spread (fun x y => do return bool (← leafEqual x y)) a b

/-- Equality of values of which at most one is a sequence, grids included: the
    answer of a grid must be a single one. -/
def flatEqual (a b : Value) : Except Error Bool :=
  match a with
  | signal _ => leafEqual a b
  | _ =>
    if a.isGrid || b.isGrid || (a.isFixed && b.isRow) || (a.isRow && b.isFixed) then do
      (← gridEqual a b).truth
    else leafEqual a b

/-! ## Keys -/

/-- A value as a number that keys are told apart by; a signal goes by its
    declaration number, a field by its prime. -/
def keyNumber? : Value → Option Number
  | signal s => some (.int s.uid)
  | field f => some (.int f.p)
  | v => Number.ofValue? v

/-- Two keys fall under one number. -/
def sharesNumber (a b : Value) : Bool :=
  match a.keyNumber?, b.keyNumber? with
  | some x, some y => Number.test .eq x y
  | _, _ => false

mutual

/-- A stored key is the one looked for.  A signal is only asked when the other
    key falls under its number, and then refuses unless it is the same. -/
def keyIs : Value → Value → Except Error Bool
  | tuple xs, v => match v with
    | tuple ys => keysAre xs ys
    | _ => .ok false
  | a, b =>
    if a.isSymbolic || b.isSymbolic then
      if a.sharesNumber b then leafEqual a b else .ok false
    else leafEqual a b

/-- Stored keys are those looked for, one by one. -/
def keysAre : List Value → List Value → Except Error Bool
  | [], [] => .ok true
  | x :: xs, y :: ys => do if ← keyIs x y then keysAre xs ys else return false
  | _, _ => .ok false

end

/-- The value under a key. -/
def findEntry (key : Value) : List (Value × Value) → Except Error (Option Value)
  | [] => .ok Option.none
  | (k, v) :: es => do if ← keyIs k key then return some v else findEntry key es

/-- A table with a value under a key; a new key goes to the end. -/
def setEntry (key v : Value) : List (Value × Value) → Except Error (List (Value × Value))
  | [] => .ok [(key, v)]
  | (k, w) :: es => do
    if ← keyIs k key then return (k, v) :: es else return (k, w) :: (← setEntry key v es)

/-! ## Sequences -/

mutual

/-- Equality of values: lists of different lengths differ at once, tables have
    the same keys with equal values. -/
def isEqual : Value → Value → Except Error Bool
  | list xs m, v => match v with
    | list ys _ => if xs.length = ys.length then areEqual xs ys else .ok false
    | v => flatEqual (list xs m) v
  | tuple xs, v => match v with
    | tuple ys => areEqual xs ys
    | v => flatEqual (tuple xs) v
  | table es m, v => match v with
    | table fs _ => if es.length = fs.length then entriesEqual es fs else .ok false
    | v => flatEqual (table es m) v
  | v, v' => flatEqual v v'

/-- Equality of sequences, up to the first difference. -/
def areEqual : List Value → List Value → Except Error Bool
  | [], [] => .ok true
  | x :: xs, y :: ys => do
    if identical x y then areEqual xs ys
    else if ← isEqual x y then areEqual xs ys
    else return false
  | _, _ => .ok false

/-- The entries of a table are those of another. -/
def entriesEqual : List (Value × Value) → List (Value × Value) → Except Error Bool
  | [], _ => .ok true
  | (k, v) :: es, fs => do
    match ← findEntry k fs with
    | Option.none => return false
    | some w =>
      if identical v w then entriesEqual es fs
      else if ← isEqual v w then entriesEqual es fs
      else return false

end

end RankOne.Value
