/-
  RankOne — the order in which rules run.

  Every rule runs after the rules of the signals it reads; among the rules that
  may run next, the one of the signal declared first runs first.

  * `next?`: the rule to run next, with the remaining ones;
  * `arrange`: all rules in order, or those that wait for each other;
  * `findCycle`: the first cycle that a search along readers meets;
  * `evaluationOrder`: the order, or the error that names a cycle.
-/
import RankOne.Draft

namespace RankOne.Order

/-- Insert a rule in order of its target's declaration. -/
def insertRule (r : Rule) : List Rule → List Rule
  | [] => [r]
  | q :: qs => if r.target.uid ≤ q.target.uid then r :: q :: qs else q :: insertRule r qs

/-- Rules in order of their targets' declaration. -/
def byTarget (rules : List Rule) : List Rule := rules.foldr insertRule []

/-- The first signal that a rule reads and a pending rule computes. -/
def blocker? (pending : List Rule) (r : Rule) : Option Rule :=
  r.reads.findSome? fun s => pending.find? fun p => p.target.same s

/-- The first rule that waits for no pending one, with the others in order. -/
def pick (pending : List Rule) : List Rule → Option (Rule × List Rule)
  | [] => none
  | r :: rs =>
    if (blocker? pending r).isNone then some (r, rs)
    else (pick pending rs).map fun (n, rest) => (n, r :: rest)

/-- The rule to run next among the pending ones. -/
def next? (pending : List Rule) : Option (Rule × List Rule) := pick pending pending

/-- Run rules one after another, at most `fuel` of them; the second part holds
    the rules that are left. -/
def arrange : Nat → List Rule → List Rule × List Rule
  | 0, pending => ([], pending)
  | fuel + 1, pending => match next? pending with
    | some (r, rest) =>
      let (order, left) := arrange fuel rest
      (r :: order, left)
    | none => ([], pending)

/-! ## Cycles -/

/-- The rule of a signal. -/
def ruleOf? (rules : List Rule) (s : Signal) : Option Rule := rules.find? (·.target.same s)

/-- The rules that read the target of a rule, in order of statement. -/
def readers (rules : List Rule) (r : Rule) : List Rule :=
  rules.filter fun q => q.reads.any (·.same r.target)

/-- The rule is among some others. -/
def isAmong (r : Rule) (rs : List Rule) : Bool := rs.any (·.target.same r.target)

/-- Search depth first from a rule along its readers.  `trail` holds the rules
    on the way to it, the last one first, and `settled` those from which no
    cycle can be reached; the answer is a cycle, or more settled rules. -/
def explore (rules : List Rule) : Nat → List Rule → List Rule → Rule →
    Except (List Rule) (List Rule)
  | 0, _, settled, _ => .ok settled
  | fuel + 1, trail, settled, r => do
    let trail := r :: trail
    let settled ← (readers rules r).foldlM (fun settled q =>
      if isAmong q trail then
        .error (q :: (trail.takeWhile fun t => !t.target.same q.target).reverse)
      else if isAmong q settled then .ok settled
      else explore rules fuel trail settled q) settled
    return r :: settled

/-- The rules in the order in which a search for cycles starts from them: each
    before the rules it reads from. -/
def starts (rules : List Rule) : List Rule :=
  rules.flatMap fun r => r :: r.reads.filterMap (ruleOf? rules)

/-- A cycle of rules, each read by the next, or nothing. -/
def findCycle (rules : List Rule) : List Rule :=
  let found := (starts rules).foldlM (fun settled r =>
    if isAmong r settled then .ok settled
    else explore rules (rules.length + 1) [] settled r) []
  match found with
  | .error cycle => cycle
  | .ok _ => []

/-- The rotation that starts at the smallest text.  A cycle is reported like this
    wherever the search has entered it. -/
def fromSmallest (xs : List String) : List String :=
  let least := xs.foldl (fun m x => if x < m then x else m) (xs.headD "")
  xs.dropWhile (· ≠ least) ++ xs.takeWhile (· ≠ least)

/-- The rules in the order in which they run. -/
def evaluationOrder (rules : List Rule) : Except Error (List Rule) :=
  let sorted := byTarget rules
  match arrange sorted.length sorted with
  | (order, []) => .ok order
  | (_, _ :: _) =>
    .error (.cycle (fromSmallest ((findCycle rules).map (·.target.path))))

end RankOne.Order
