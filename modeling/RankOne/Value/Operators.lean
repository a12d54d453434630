/-
  RankOne — operators on host values.

  Signals and expressions take part in `+ - * /` and in powers with a constant
  exponent; every other operator is a host operation, refused on a value that
  depends on a signal.  An operator asks its left operand first; when that one
  knows no answer the right operand is asked from its side, so that a comparison
  with a number on the left is reported with its sides exchanged.  Numbers of
  fixed width and grids answer item by item, and stand for plain numbers beside
  a signal.

  * `binary`, `unary`: the operators;
  * `keptMark`: when arithmetic gives back one of its operands.
-/
import RankOne.Value.Equality
import RankOne.Value.Percent

namespace RankOne

/-- Operators on one value. -/
inductive Unary where
  | neg | pos | invert
deriving DecidableEq, Repr

namespace Value

/-! ## Repetition -/

/-- Refuse a number of repetitions that gives more than can be held. -/
def checkRepeat (length : Nat) (n : Int) (tooLong : Fault) : Except Error Unit :=
  if n < -sizeBound || sizeBound ≤ n then refuse .overflow
  else if sizeBound ≤ length * n.toNat then refuse tooLong
  else if Nat.pow 2 32 ≤ length * n.toNat then refuse .memory
  else .ok ()

/-- A sequence repeated. -/
def repeated (xs : List α) (n : Int) : List α :=
  if xs.isEmpty then [] else (List.replicate n.toNat xs).flatten

/-- A text, list or tuple repeated as often as an index says. -/
def repeatSequence (s n : Value) : Except Error Value :=
  match s with
  | str s => do
    let n ← n.index
    checkRepeat s.length n .overflow
    return .str (String.join (repeated (if s.isEmpty then [] else [s]) n))
  | list xs _ => do
    let n ← n.index
    checkRepeat xs.length n .memory
    return .list (repeated xs n)
  | tuple xs => do
    let n ← n.index
    checkRepeat xs.length n .memory
    return .tuple (repeated xs n)
  | _ => refuse .type

/-- A text, list or tuple, which can be repeated. -/
def isSequence : Value → Bool
  | str _ | list _ _ | tuple _ => true
  | _ => false

/-! ## Sets and tables -/

/-- An operator on two sets of signals. -/
def signalsBinary (op : Binary) (ss tt : List Signal) : Except Error Value :=
  let within (a b : List Signal) : Bool := a.all b.contains
  let without (a b : List Signal) : List Signal := a.filter fun s => !b.contains s
  match op with
  | .and => .ok (signals (ss.filter tt.contains))
  | .or => .ok (signals (Signal.sorted (ss ++ tt)))
  | .sub => .ok (signals (without ss tt))
  | .xor => .ok (signals (Signal.sorted (without ss tt ++ without tt ss)))
  | .le => .ok (bool (within ss tt))
  | .lt => .ok (bool (within ss tt && ss.length < tt.length))
  | .ge => .ok (bool (within tt ss))
  | .gt => .ok (bool (within tt ss && tt.length < ss.length))
  | _ => refuse .type

/-- A table with the entries of another put into it. -/
def mergeEntries (es : List (Value × Value)) : List (Value × Value) → Except Error (List (Value × Value))
  | [] => .ok es
  | (k, v) :: fs => do mergeEntries (← setEntry k v es) fs

/-! ## Plain values -/

/-- Arithmetic and comparison of numbers. -/
def numbers (op : Binary) (a b : Value) : Except Error Value :=
  match Number.ofValue? a, Number.ofValue? b with
  | some x, some y =>
    if op.isComparison then .ok (.bool (Number.test op x y))
    else do return (← Number.arith op x y).toValue
  | _, _ => refuse .type

/-- An operator on plain host values. -/
def hostBinary (op : Binary) (a b : Value) : Except Error Value :=
  match op with
  | .eq => do return .bool (← isEqual a b)
  | .ne => do return .bool !(← isEqual a b)
  | _ => match a, b with
    | bool x, bool y => match op with
      | .and => .ok (.bool (x && y))
      | .or => .ok (.bool (x || y))
      | .xor => .ok (.bool (x != y))
      | _ => numbers op a b
    | str s, v => match op, v with
      | .add, str t => .ok (.str (s ++ t))
      | .mul, v => repeatSequence a v
      | op, str t => if op.isComparison then .ok (.bool (op.holds (compare s t))) else refuse .type
      | _, _ => refuse .type
    | list xs _, list ys _ => if op = .add then .ok (.list (xs ++ ys)) else refuse .type
    | tuple xs, tuple ys => if op = .add then .ok (.tuple (xs ++ ys)) else refuse .type
    | table es _, table fs _ => if op = .or then do return .table (← mergeEntries es fs) else refuse .type
    | signals ss, signals tt => signalsBinary op ss tt
    | a, b =>
      if op = .mul && a.isSequence then repeatSequence a b
      else if op = .mul && b.isSequence then repeatSequence b a
      else numbers op a b

/-! ## Signals and expressions -/

/-- A host operation on operands of which one is a signal or an expression. -/
def hostOn (op : Binary) (a b : Value) : Except Error Value :=
  if a.isOperand && b.isOperand then do
    let x ← hostOperand op.symbol a
    let y ← hostOperand op.symbol b
    hostBinary op x y
  else match op with
    | .eq => .ok (.bool false)
    | .ne => .ok (.bool true)
    | _ => refuse .type

/-- The mark of a value that is compared by what it is. -/
def markOf : Value → Mark
  | expr _ m => m
  | _ => []

/-- The value of an operand without signals, in a field. -/
def scalar? (f : PrimeField) : Value → Option Nat
  | int n => some (f.reduce n)
  | bool b => some (f.reduce (ofBool b))
  | expr e _ => if e.degree = 0 then some (f.reduce e.const) else Option.none
  | _ => Option.none

/-- The mark of a product: a factor one gives back the other factor. -/
def productMark (f : PrimeField) (a b : Value) : Mark :=
  match a.scalar? f with
  | some k => if k = 1 then b.markOf else []
  | Option.none => if b.scalar? f = some 1 then a.markOf else []

/-- The mark of what an operation gives: a product with one, a quotient by one
    and a negation modulo two give back their operand. -/
def keptMark (op : String) (f : PrimeField) (vs : List Value) : Mark :=
  match op, vs with
  | "sum", [a] | "product", [a] => a.markOf
  | "product", [a, b] => productMark f a b
  | "div", [a, b] => if b.scalar? f = some 1 then a.markOf else []
  | "scalar", [k, a] => if k.scalar? f = some 1 then a.markOf else []
  | "neg", a :: _ => if f.p = 2 then a.markOf else []
  | _, _ => []

/-- An operation on operands of which one is a signal or an expression. -/
def combined (op : String) (vs : List Value) : Except Error Value := do
  let e ← combine op (vs.map operand)
  return .expr e (keptMark op e.field vs)

/-- The name of the operation on expressions behind an operator. -/
def operationName? : Binary → Option String
  | .add => some "sum"
  | .sub => some "sub"
  | .mul => some "product"
  | .div => some "div"
  | _ => Option.none

/-- The power of a base with a mark: the first power is the base, and so is every
    power of one but the empty one. -/
def powered (base : Expr) (mark : Mark) (n : Nat) : Except Error Value := do
  let e ← base.pow n
  let kept := n = 1 || (n ≠ 0 && base.degree = 0 && base.const = 1)
  return .expr e (if kept then mark else [])

/-- A power of a signal or an expression. -/
def power (base : Expr) (mark : Mark) (k : Value) : Except Error Value := do
  match ← hostOperand "**" k with
  | int n => if 0 ≤ n then powered base mark n.toNat else refuse .type
  | bool b => powered base mark (ofBool b).toNat
  | _ => refuse .type

/-- An operator on values of which none has a fixed width; ordering of two lists
    or two tuples is not for here. -/
def plainBinary (op : Binary) (a b : Value) : Except Error Value :=
  if !a.isSymbolic && !b.isSymbolic then hostBinary op a b
  else match operationName? op with
    | some name =>
      if a.isOperand && b.isOperand then combined name [a, b]
      else if op = .mul && a.isSequence then repeatSequence a b
      else if op = .mul && b.isSequence then repeatSequence b a
      else refuse .type
    | Option.none => match op, a, b with
      | .pow, signal s, k => power (.ofSignal s) [] k
      | .pow, expr e m, k => power e m k
      | .pow, _, _ => refuse .type
      | .eq, signal s, v => do return .bool (← leafEqual (signal s) v)
      | .ne, signal s, v => do return .bool !(← leafEqual (signal s) v)
      | .eq, v, signal s | .ne, v, signal s =>
        if v.isSymbolic then hostOn op v (signal s) else .error (.signalCompared s.path)
      | _, a, b =>
        if op.isComparison && !a.isSymbolic then hostOn op.swapped b a else hostOn op a b

/-! ## Fixed width -/

/-- A truth value with a fixed width. -/
def asFlag : Value → Value
  | bool b => flag b
  | v => v

/-- An operator on two items that are no numbers of fixed width. -/
def bareBinary (op : Binary) (a b : Value) : Except Error Value := do
  let v ← plainBinary op a.bare b.bare
  return if op.isComparison then v.asFlag else v

/-- An operator on two items; integers too wide for a grid stay as they are. -/
def itemBinary (op : Binary) (a b : Value) : Except Error Value :=
  match a, b with
  | int _, int _ => bareBinary op a b
  | a, b => match Fixed.ofValue? a, Fixed.ofValue? b with
    | some x, some y => if op.isComparison then .ok (flag (Fixed.test op x y)) else Fixed.arith op x y
    | _, _ => bareBinary op a b

/-- A number of fixed width. -/
def isFixedNumber : Value → Bool
  | word _ | flag _ | double _ _ => true
  | _ => false

/-- An operator on two values of which one is of fixed width. -/
def fixedBinary (op : Binary) (a b : Value) : Except Error Value :=
  match op, a with
  | .eq, signal s | .ne, signal s => .error (.signalCompared s.path)
  | _, _ =>
    if op = .mul && a.isSequence && b.isFixedNumber then repeatSequence a b
    else if op = .mul && a.isFixedNumber && b.isSequence then repeatSequence b a
    else spread (itemBinary op) a b

/-! ## All values -/

/-- An operator on two values that are not both lists or both tuples in need of
    an order. -/
def flatBinary (op : Binary) (a b : Value) : Except Error Value :=
  match op, a with
  | .mod, str s => do return .str (← Percent.format s (.of b))
  | _, _ => if a.isFixed || b.isFixed then fixedBinary op a b else plainBinary op a b

mutual

/-- An ordering operator on two values. -/
def ordered (op : Binary) : Value → Value → Except Error Value
  | list xs m, v => match v with
    | list ys _ => orderedItems op xs ys
    | v => flatBinary op (list xs m) v
  | tuple xs, v => match v with
    | tuple ys => orderedItems op xs ys
    | v => flatBinary op (tuple xs) v
  | a, b => flatBinary op a b

/-- Sequences are ordered as the first items that differ, or else by length. -/
def orderedItems (op : Binary) : List Value → List Value → Except Error Value
  | [], ys => .ok (.bool (op.holds (if ys.isEmpty then .eq else .lt)))
  | _ :: _, [] => .ok (.bool (op.holds .gt))
  | x :: xs, y :: ys => do
    if identical x y then orderedItems op xs ys
    else if ← isEqual x y then orderedItems op xs ys
    else ordered op x y

end

/-- An operator on two values. -/
def binary (op : Binary) (a b : Value) : Except Error Value :=
  match op with
  | .lt | .le | .gt | .ge => ordered op a b
  | op => flatBinary op a b

/-- An operator on one item. -/
def itemUnary (op : Unary) (v : Value) : Except Error Value :=
  match op, v with
  | .invert, flag b => .ok (flag !b)
  | _, flag _ => refuse .type
  | .neg, word n => .ok (word (Fixed.wrap (-n)))
  | .pos, word n => .ok (word n)
  | .invert, word n => .ok (word (-n - 1))
  | .neg, double x _ => .ok (double (-x))
  | .pos, double x _ => .ok (double x)
  | .invert, double _ _ => refuse .type
  | .neg, signal s => combined "neg" [signal s]
  | .neg, expr e m => combined "neg" [expr e m]
  | .pos, signal s => .ok (.expr (.ofSignal s))
  | .pos, expr e m => .ok (.expr e m)
  | .invert, v => do
    match Number.ofValue? (← hostOperand "~" v) with
    | some (.int n) => return .int (-n - 1)
    | _ => refuse .type
  | .pos, float x m => .ok (.float x m)
  | op, v => match Number.ofValue? v with
    | some (.int n) => .ok (.int (if op = .neg then -n else n))
    | some (.float x) => .ok (.float (if op = .neg then -x else x))
    | Option.none => refuse .type

/-- An operator on one value. -/
def unary (op : Unary) : Value → Except Error Value
  | cell v => itemUnary op v.scalar
  | grid xs m => eachItem (itemUnary op) (gridShape xs).length (grid xs m)
  | v => itemUnary op v

end Value

end RankOne
