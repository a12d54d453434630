/-
  RankOne — choice between values by equality with constants.

  `branch cs` gives `values[i]` when `x` is the `i`-th constant and the last
  value when it is none of them: one indicator per constant, one for "none
  fired", and the inner product of indicators and values.  At most one indicator
  can fire only if the constants are different field elements.
-/
import RankOne.Gadget.Select

namespace RankOne.Gadget

open Build

variable {σ : Type}

/-- Refuse constants that are the same field element; `seen` holds the earlier
    ones with their elements. -/
def checkDistinct (f : PrimeField) (path : String) : List (Nat × Value) → List Value →
    Except Error Unit
  | _, [] => .ok ()
  | seen, c :: cs => do
    let key := f.reduce (← c.toInt)
    match seen.find? (·.1 == key) with
    | some earlier => .error (.overlappingBranch path (← earlier.2.shownText) (← c.shownText))
    | none => checkDistinct f path ((key, c) :: seen) cs

/-- Assign a constant given as a value, which may be refused. -/
def assignValue (target : Signal) (v : Value) : Build σ Unit := do
  let f ← field
  request (.assign target (v.operand.toExpr (some f)))

/-- The cases from the `i`-th on: the indicator of each constant and its product
    with the value, added to the sums so far. -/
def casesFrom (eqs : SlotArray) (x : Signal) :
    Nat → Expr → Expr → List (Value × Signal × Signal) → Build σ (Expr × Expr)
  | _, fired, acc, [] => return (fired, acc)
  | i, fired, acc, (c, value, term) :: rest => do
    let eq ← fill eqs i isEqualTemplate
    match ← terminalSignals eq "in" with
    | [l, r] =>
      assign l (.ofSignal x)
      assignValue r c
    | _ => throw (.fault .index)
    let out ← terminalSignal eq "out"
    let product ← times (.ofSignal value) (.ofSignal out)
    assign term product
    casesFrom eqs x (i + 1) (fired.add (.ofSignal out)) (acc.add (.ofSignal term)) rest

/-- The value of the case that `x` equals, or the last one. -/
def branch (constants : Value) : Build σ Unit := do
  let f ← field
  let cs ← items constants
  demand (checkDistinct f (← path) [] cs)
  let n : Value := .int (cs.length + 1)
  let x ← signal .input "x"
  let values ← signals .input "values" n
  let out ← signal .output "out"
  let terms ← signals .intermediate "terms" n
  let eqs ← slots "eqs" (.int cs.length)
  let (fired, acc) ← casesFrom eqs x 0 (← const 0) (← const 0) (cs.zip (values.zip terms))
  let otherwise ← component "otherwise" isZeroTemplate
  assign (← terminalSignal otherwise "in") fired
  match values.getLast?, terms.getLast? with
  | some value, some term =>
    let product ← times (.ofSignal value) (.ofSignal (← terminalSignal otherwise "out"))
    assign term product
    assign out (acc.add (.ofSignal term))
  | _, _ => throw (.fault .index)
  log s!"{cs.length + 1}-way branch on {x.path}"

end RankOne.Gadget
