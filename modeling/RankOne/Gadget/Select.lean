/-
  RankOne — selection by an index known only to the prover.

  A signal cannot index a list, so a selection is an inner product with one
  indicator per position.  The indicators alone do not bound the index: outside
  the range all of them are zero.

  * `quinSelector`: `out = in[index]`, with the index bounded unless the caller
    asks for the unsafe form;
  * `decoder`: one indicator per position, and whether one of them is set;
  * `escalarProduct`: an inner product;
  * `multiplexer`: a row of a matrix, chosen by a decoder.
-/
import RankOne.Gadget.Bits

namespace RankOne.Gadget

open Build

variable {σ : Type}

/-- Refuse a size below `least`. -/
def checkBound (bound : Value) (least : Int) : Build σ Unit := do
  if ← demand do (← Value.binary .lt bound (.int least)).truth then
    throw (.boundTooSmall (← path) least (← demand bound.shownText))

/-- One position of a selector: the indicator of `i = index` and its product
    with the input, added to the sums so far. -/
def selectAt (eqs : SlotArray) (index : Signal) (i : Nat) (x term : Signal)
    (acc active : Expr) : Build σ (Expr × Expr) := do
  let eq ← fill eqs i isEqualTemplate
  assignAll (← terminalSignals eq "in") [← const i, .ofSignal index]
  let out ← terminalSignal eq "out"
  let product ← times (.ofSignal x) (.ofSignal out)
  assign term product
  return (acc.add (.ofSignal term), active.add (.ofSignal out))

/-- The positions of a selector from `i` on. -/
def selectFrom (eqs : SlotArray) (index : Signal) :
    Nat → Expr → Expr → List (Signal × Signal) → Build σ (Expr × Expr)
  | _, acc, active, [] => return (acc, active)
  | i, acc, active, (x, term) :: rest => do
    let (acc, active) ← selectAt eqs index i x term acc active
    selectFrom eqs index (i + 1) acc active rest

/-- `out = in[index]`; the safe form also forces `index < n` and exactly one
    indicator. -/
def quinSelector (n safe : Value) : Build σ Unit := do
  checkBound n 1
  let xs ← signals .input "in" n
  let index ← signal .input "index"
  let out ← signal .output "out"
  let terms ← signals .intermediate "terms" n
  let eqs ← slots "eqs" n
  let (acc, active) ← selectFrom eqs index 0 (← const 0) (← const 0) (xs.zip terms)
  assign out acc
  if ← demand safe.truth then
    let width := max 1 (← demand n.bitLength)
    let lt ← component "lt" (lessThanTemplate (.int width))
    assignAll (← terminalSignals lt "in") [.ofSignal index, ← const xs.length]
    constrain (.ofSignal (← terminalSignal lt "out")) (← const 1)
    constrain active (← const 1)

/-- The template `QuinSelector(n, True)`. -/
def quinSelectorTemplate (n : Value) : Template σ :=
  ⟨.of "QuinSelector" [n, .bool true], quinSelector n (.bool true)⟩

/-- The positions of a decoder from `i` on: a hinted indicator that is zero
    unless the input is `i`, added to the sum of the earlier ones. -/
def decodeFrom (x : Signal) : Nat → Expr → List Signal → Build σ Expr
  | _, acc, [] => return acc
  | i, acc, out :: outs => do
    hint out (.isPosition i) (.ofSignal x)
    let product ← times (.ofSignal out) ((Expr.ofSignal x).sub (← const i))
    constrain product (← const 0)
    decodeFrom x (i + 1) (acc.add (.ofSignal out)) outs

/-- `out` has a one at the input's position; `success` tells whether it has. -/
def decoder (w : Value) : Build σ Unit := do
  let x ← signal .input "inp"
  let outs ← signals .output "out" w
  let success ← signal .output "success"
  let total ← decodeFrom x 0 (← const 0) outs
  assign success total
  constrainBit success

/-- Products of two rows, added to the sum so far. -/
def productsFrom : Expr → List (Signal × Signal × Signal) → Build σ Expr
  | acc, [] => return acc
  | acc, (aux, x, y) :: rest => do
    let product ← times (.ofSignal x) (.ofSignal y)
    assign aux product
    productsFrom (acc.add (.ofSignal aux)) rest

/-- `out` is the inner product of the inputs. -/
def escalarProduct (w : Value) : Build σ Unit := do
  let xs ← signals .input "in1" w
  let ys ← signals .input "in2" w
  let out ← signal .output "out"
  let aux ← signals .intermediate "aux" w
  let total ← productsFrom (← const 0) (aux.zip (xs.zip ys))
  assign out total

/-- Feed a column and the indicators to an inner product, entry by entry. -/
def feed : List (Signal × Signal) → List (Signal × Signal) → Build σ Unit
  | (a, x) :: as, (b, d) :: bs => do
    assign a (.ofSignal x)
    assign b (.ofSignal d)
    feed as bs
  | _, _ => return ()

/-- The columns of a multiplexer from the `j`-th on. -/
def columnsFrom (ep : SlotArray) (n : Value) (rows : List (List Signal)) (chosen : List Signal) :
    Nat → List Signal → Build σ Unit
  | _, [] => return ()
  | j, out :: outs => do
    let c ← fill ep j ⟨.of "EscalarProduct" [n], escalarProduct n⟩
    let column := rows.filterMap (·[j]?)
    feed ((← terminalSignals c "in1").zip column) ((← terminalSignals c "in2").zip chosen)
    assign out (.ofSignal (← terminalSignal c "out"))
    columnsFrom ep n rows chosen (j + 1) outs

/-- `out` is row `sel` of an `n` by `w` matrix. -/
def multiplexer (w n : Value) : Build σ Unit := do
  let rows ← matrix .input "inp" n w
  let sel ← signal .input "sel"
  let outs ← signals .output "out" w
  let dec ← component "dec" ⟨.of "Decoder" [n], decoder n⟩
  assign (← terminalSignal dec "inp") (.ofSignal sel)
  let ep ← slots "ep" w
  let chosen ← terminalSignals dec "out"
  columnsFrom ep n rows chosen 0 outs
  constrain (.ofSignal (← terminalSignal dec "success")) (← const 1)

end RankOne.Gadget
