/-
  RankOne — the log of a compilation and of the evaluations that follow.
-/

namespace RankOne

/-- How much a record matters. -/
inductive Log.Level where
  | debug | info | warning
deriving DecidableEq, Repr

/-- The part of the library a record comes from. -/
inductive Log.Source where
  | template | rows | compilation | witness
deriving DecidableEq, Repr

/-- One record. -/
structure Log.Record where
  level : Log.Level
  source : Log.Source
  text : String
deriving DecidableEq, Repr

end RankOne
