/-
  RankOne — terms of a sequence at an index known only to the prover.

  The number of steps cannot depend on a signal, so all terms below a bound are
  computed and constrained, and a selector takes the one asked for.

  * `factorial`, `fibonacci`, `power`: the sequences;
  * `swap`: an array with two entries exchanged, entry by entry a choice between
    the entry at the other position and the entry itself.
-/
import RankOne.Gadget.Select

namespace RankOne.Gadget

open Build

variable {σ : Type}

/-- The entry of a row at an index, by a selector. -/
def select (row : List Signal) (index : Signal) (bound : Value) : Build σ Signal := do
  let sel ← component "sel" (quinSelectorTemplate bound)
  assignAll (← terminalSignals sel "in") (row.map .ofSignal)
  assign (← terminalSignal sel "index") (.ofSignal index)
  terminalSignal sel "out"

/-- Assign each signal a function of its place and of the signal before it. -/
def chain (step : Nat → Signal → Build σ Expr) : Nat → Signal → List Signal → Build σ Unit
  | _, _, [] => return ()
  | i, before, s :: rest => do
    assign s (← step i before)
    chain step (i + 1) s rest

/-- `out` is the factorial of `n`. -/
def factorial (bound : Value) : Build σ Unit := do
  checkBound bound 1
  let n ← signal .input "n"
  let out ← signal .output "out"
  let seq ← signals .intermediate "seq" bound
  match seq with
  | [] => throw (.fault .index)
  | first :: rest =>
    assign first (← const 1)
    chain (fun i before => do times (.ofSignal before) (← const i)) 1 first rest
    assign out (.ofSignal (← select seq n bound))

/-- The Fibonacci numbers after two of them. -/
def fibonacciFrom : Signal → Signal → List Signal → Build σ Unit
  | _, _, [] => return ()
  | a, b, s :: rest => do
    assign s ((Expr.ofSignal b).add (.ofSignal a))
    fibonacciFrom b s rest

/-- `out` is the Fibonacci number of index `n`. -/
def fibonacci (bound : Value) : Build σ Unit := do
  checkBound bound 2
  let n ← signal .input "n"
  let out ← signal .output "out"
  let seq ← signals .intermediate "seq" bound
  match seq with
  | a :: b :: rest =>
    assign a (← const 0)
    assign b (← const 1)
    fibonacciFrom a b rest
    assign out (.ofSignal (← select seq n bound))
  | _ => throw (.fault .index)

/-- `out` is the `n`-th power of the base. -/
def power (bound : Value) : Build σ Unit := do
  checkBound bound 1
  let base ← signal .input "base"
  let n ← signal .input "n"
  let out ← signal .output "out"
  let seq ← signals .intermediate "seq" bound
  match seq with
  | [] => throw (.fault .index)
  | first :: rest =>
    assign first (← const 1)
    chain (fun _ before => times (.ofSignal before) (.ofSignal base)) 1 first rest
    assign out (.ofSignal (← select seq n bound))

/-- The signals of one entry of an exchanged array. -/
structure SwapEntry where
  entry : Signal
  out : Signal
  branchS : Signal
  branchT : Signal
  notST : Signal
  branchOther : Signal

/-- An indicator of `i = position`. -/
def isAt (eqs : SlotArray) (i : Nat) (position : Signal) : Build σ Signal := do
  let eq ← fill eqs i isEqualTemplate
  assignAll (← terminalSignals eq "in") [← const i, .ofSignal position]
  terminalSignal eq "out"

/-- The entries from the `i`-th on.  When both positions coincide the branch of
    the first is dropped, so that the entry is not counted twice. -/
def swapFrom (isS isT : SlotArray) (s t atS atT same : Signal) :
    Nat → List SwapEntry → Build σ Unit
  | _, [] => return ()
  | i, e :: rest => do
    let atThisS ← isAt isS i s
    let atThisT ← isAt isT i t
    let one ← const 1
    let product ← times (.ofSignal atThisS) (.ofSignal atT)
    assign e.branchS product
    let product ← times (.ofSignal atThisT) (.ofSignal atS)
    assign e.branchT product
    let product ← times (one.sub (.ofSignal atThisS)) (one.sub (.ofSignal atThisT))
    assign e.notST product
    let product ← times (.ofSignal e.notST) (.ofSignal e.entry)
    assign e.branchOther product
    let product ← times (one.sub (.ofSignal same)) (.ofSignal e.branchS)
    assign e.out ((product.add (.ofSignal e.branchT)).add (.ofSignal e.branchOther))
    swapFrom isS isT s t atS atT same (i + 1) rest

/-- The entry of a row at a position, by a named selector. -/
def entryAt (name : String) (row : List Signal) (n : Value) (position : Signal) :
    Build σ Signal := do
  let sel ← component name (quinSelectorTemplate n)
  assignAll (← terminalSignals sel "in") (row.map .ofSignal)
  assign (← terminalSignal sel "index") (.ofSignal position)
  terminalSignal sel "out"

/-- The signals of an exchanged array, entry by entry. -/
def swapEntries : List Signal → List Signal → List Signal → List Signal → List Signal →
    List Signal → List SwapEntry
  | x :: xs, o :: os, bs :: bss, bt :: bts, n :: ns, b :: bs' =>
    ⟨x, o, bs, bt, n, b⟩ :: swapEntries xs os bss bts ns bs'
  | _, _, _, _, _, _ => []

/-- `out` is the array with the entries at `s` and `t` exchanged. -/
def swap (n : Value) : Build σ Unit := do
  checkBound n 1
  let arr ← signals .input "arr" n
  let s ← signal .input "s"
  let t ← signal .input "t"
  let outs ← signals .output "out" n
  let atS ← entryAt "atS" arr n s
  let atT ← entryAt "atT" arr n t
  let same ← component "sEqT" isEqualTemplate
  assignAll (← terminalSignals same "in") [.ofSignal s, .ofSignal t]
  let same ← terminalSignal same "out"
  let isS ← slots "isS" n
  let isT ← slots "isT" n
  let branchS ← signals .intermediate "branchS" n
  let branchT ← signals .intermediate "branchT" n
  let notST ← signals .intermediate "notST" n
  let branchOther ← signals .intermediate "branchOther" n
  swapFrom isS isT s t atS atT same 0 (swapEntries arr outs branchS branchT notST branchOther)

end RankOne.Gadget
