/-
  RankOne — positions in sequences; a negative one counts from the end.
-/
import RankOne.Error

namespace RankOne

/-- The place that an integer position denotes in a sequence of `n` items. -/
def position? (n : Nat) (i : Int) : Option Nat :=
  if 0 ≤ i then (if i < n then some i.toNat else none)
  else if -i ≤ n then some (n + i).toNat else none

/-- The item at a position of a list. -/
def itemAt (xs : List α) (i : Int) : Except Error α :=
  match (position? xs.length i).bind (xs[·]?) with
  | some x => .ok x
  | none => .error (.fault .index)

/-- The item at a position of an array. -/
def elementAt (xs : Array α) (i : Int) : Except Error α :=
  match (position? xs.size i).bind (xs[·]?) with
  | some x => .ok x
  | none => .error (.fault .index)

end RankOne
