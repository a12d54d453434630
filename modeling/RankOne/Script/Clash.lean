/-
  RankOne — the look-ups behind operations on values.

  Where two signals of a session share a declaration number, an operation that
  would have to tell them apart is refused.

  * `checkCombine`: the look-ups of an operation by name.
-/
import RankOne.Expr.Clash
import RankOne.Value.Operators

namespace RankOne.Clash

/-- The look-ups behind an operation on values that can be carried out. -/
def checkCombine (op : String) (vs : List Value) : Except Error Unit := do
  let f ← Operand.commonField (vs.map Value.operand)
  let es ← vs.mapM fun v => v.operand.toExpr f
  match op, es with
  | "sum", e :: es => let _ ← sum e es
  | "sub", [a, b] => let _ ← add a b.neg
  | _, _ => return ()

end RankOne.Clash
