/-
  RankOne — hints, host computations without a row.

  A hint receives the canonical values of its dependencies and gives advice for
  one signal.  Advice that is no integer is refused, and a hint may fail.
-/
import RankOne.Field.Basic

namespace RankOne

/-- What a hint returns. -/
inductive Advice where
  | value (n : Int)
  /-- a result that is no field element, as it is written -/
  | refused (text : String)
  /-- a result that is no field element and has no written form -/
  | unwritten (e : Error)

/-- How a hint fails. -/
inductive HintFault where
  | zeroDivision
  /-- a failure of the host, with its report -/
  | failed (reason : String)
  /-- an error about circuits, passed on unchanged -/
  | raised (e : Error) (h : e.isCircuit = true)

/-- A named host computation. -/
structure Hint where
  name : String
  run : PrimeField → List Nat → Except HintFault Advice

namespace Hint

/-- The value `n`, as advice. -/
def give (n : Int) : Except HintFault Advice := .ok (.value n)

/-- The failure of a function of one value that was given another number of
    them. -/
def wrongCount (function : String) (given : Nat) : Except HintFault Advice :=
  .error <| .failed <|
    if given = 0 then s!"{function}() missing 1 required positional argument: 'v'"
    else s!"{function}() takes 1 positional argument but {given} were given"

/-- The field inverse; zero has none. -/
def inverse : Hint where
  name := "inverse"
  run f
    | [v] => if v = 0 then .error .zeroDivision else give (f.inverse v)
    | vs => wrongCount "inverse" vs.length

/-- The field inverse, or zero for zero. -/
def inverseOrZero : Hint where
  name := "inverse_or_zero"
  run f
    | [v] => give (if v = 0 then 0 else f.inverse v)
    | vs => wrongCount "inverse_or_zero" vs.length

/-- The binary digit at place `k`. -/
def bit (k : Int) : Hint where
  name := s!"bit{k}"
  run _
    | [v] => if k < 0 then .error (.failed "negative shift count")
      else give (if v.testBit k.toNat then 1 else 0)
    | vs => wrongCount "_bit.<locals>.bit" vs.length

/-- One at the value `i`, zero elsewhere. -/
def isPosition (i : Int) : Hint where
  name := s!"is_position{i}"
  run _
    | [v] => give (if (v : Int) = i then 1 else 0)
    | vs => wrongCount "_is_position.<locals>.is_position" vs.length

end Hint

end RankOne
