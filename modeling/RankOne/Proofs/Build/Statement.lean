/-
  RankOne — the statements that a run executes.

  * `Statement`: an assignment, an equality or a hint, with the path of the
    component that states it;
  * `Command.executed`, `Program.statements`, `Template.statements`: the
    statements that are executed, in order, anywhere in the component tree; one
    that is refused does not count unless its rule is kept, and one that was
    executed counts even when its component is given up later;
  * `executed`: the statements that a compilation executes.
-/
import RankOne.Circuit.Basic

namespace RankOne

/-- A statement, with the path of the component that states it. -/
inductive Statement where
  /-- constrain a signal to an expression, and compute it so -/
  | assign (origin : String) (target : Signal) (e : Expr)
  /-- constrain two expressions to be equal -/
  | constrain (origin : String) (l r : Expr)
  /-- compute a signal by a hint -/
  | hint (origin : String) (target : Signal) (h : Hint) (deps : List Expr)

namespace Statement

/-- The path of the component that states it. -/
def origin : Statement → String
  | assign origin _ _ | constrain origin _ _ | hint origin _ _ _ => origin

/-- The rule that a statement adds. -/
def rule? : Statement → Option Rule
  | assign origin target e => some { target, action := .assign e, origin }
  | constrain _ _ _ => none
  | hint origin target h deps => some { target, action := .hint h deps, origin }

/-- A statement adds a row: an assignment does, and an equality unless both
    sides are constants, that is, of degree zero. -/
def emitsRow : Statement → Bool
  | assign _ _ _ => true
  | constrain _ l r => max l.degree r.degree != 0
  | hint _ _ _ _ => false

/-- The expressions of a statement. -/
def exprs : Statement → List Expr
  | assign _ _ e => [e]
  | constrain _ l r => [l, r]
  | hint _ _ _ deps => deps

/-- The signal that a statement computes. -/
def target? : Statement → Option Signal
  | assign _ target _ | hint _ target _ _ => some target
  | constrain _ _ _ => none

theorem of_rule?_eq_some {st : Statement} {r : Rule} (h : st.rule? = some r) :
    st.target? = some r.target ∧ st.exprs = r.exprs := by
  cases st with
  | assign origin target e => cases h; exact ⟨rfl, rfl⟩
  | constrain origin l r => cases h
  | hint origin target g deps => cases h; exact ⟨rfl, rfl⟩

end Statement

/-! ## Execution -/

/-- The statement that a request makes, if it is answered. -/
def Command.statement? (origin : String) : Command → Option Statement
  | .assign target (.ok e) => some (.assign origin target e)
  | .constrain l r => some (.constrain origin l r)
  | .hint target h (.ok deps) => some (.hint origin target h deps)
  | _ => none

/-- The statement that a request executes: its request is answered, or it is refused
    after its rule was added. -/
def Command.executed (here : Nat) (w : Workspace) (c : Command) : List Statement :=
  match (c.perform here).run.run w with
  | (.ok _, _) => (c.statement? (w.instanceAt here).path).toList
  | (.error _, w') =>
    if w.draft.rules.size < w'.draft.rules.size then
      (c.statement? (w.instanceAt here).path).toList
    else []

namespace Command

variable {here : Nat} {w w' : Workspace} {c : Command}

theorem executed_of_silent (h : c.statement? (w.instanceAt here).path = none) :
    c.executed here w = [] := by
  rw [executed, h]
  split
  · rfl
  · split <;> rfl

theorem executed_of_answered {r : c.Reply} (h : (c.perform here).run.run w = (.ok r, w')) :
    c.executed here w = (c.statement? (w.instanceAt here).path).toList := by
  rw [executed, h]

end Command

namespace Program

variable {σ : Type}

/-- The statements that a run of a program executes, those of children in their
    place. -/
def statements {α : Type} : Program σ α → Nat → Workspace × σ → List Statement
  | .pure _, _, _ => []
  | .request c next, here, (w, h) =>
    let (r, w') := (c.perform here).run.run w
    c.executed here w ++ (next r).statements here (w', h)
  | .child place application body next, here, (w, h) =>
    match (Workspace.openChild here place application).run.run w with
    | (.error e, w) => (next (.error e)).statements here (w, h)
    | (.ok (parent, name, id), w) =>
      let (built, (w', h')) := body.run id (w, h)
      let (r, w'') := (Workspace.closeChild place parent name id built).run.run w'
      body.statements id (w, h) ++ (next r).statements here (w'', h')
  | .getHost next, here, (w, h) => (next h).statements here (w, h)
  | .setHost h next, here, (w, _) => next.statements here (w, h)

end Program

/-- The statements that the expansion of a template executes. -/
def Template.statements {σ : Type} (t : Template σ) (s : Workspace × σ) : List Statement :=
  let (id, w) := (Workspace.enter "main" "main" t.application none).run s.1
  Program.statements t.body.run id (w, s.2)

/-- The statements that a compilation executes. -/
def executed {σ : Type} (settings : Settings) (t : Template σ) (host : σ) : List Statement :=
  match settings.field with
  | .error _ => []
  | .ok field => t.statements (.start field settings.dangling, host)

end RankOne
