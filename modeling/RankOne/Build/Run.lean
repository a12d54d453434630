/-
  RankOne — running programs on a workspace.

  * `Command.perform`: the answer to one request;
  * `Program.run`: all requests of a program in order, children first to last;
  * `Template.expand`: the expansion of a template as the main component.
-/
import RankOne.Build.Workspace

namespace RankOne

/-- Answer a request made by the component of number `here`. -/
def Command.perform (here : Nat) : (c : Command) → Work c.Reply
  | .path => return ((← get).instanceAt here).path
  | .field => return (← get).field
  | .declare role name dims => Workspace.declare here role name dims
  | .slots name dims => Workspace.declareSlots here name dims
  | .misplace place got => Workspace.misplace here place got
  | .slot a i label => Workspace.readSlot a i label
  | .assign target value => Workspace.assign here target value
  | .constrain l r => Workspace.constrain here l r
  | .hint target h deps => Workspace.hint here target h deps
  | .log text => modify (·.report .debug .template text)
  | .bind s p => Workspace.bindPosition s p
  | .inspect id => return Instance.survey (← get).instances id

namespace Program

variable {σ : Type}

/-- Run a program inside the component of number `here`. -/
def run {α : Type} : Program σ α → Nat → Workspace × σ → α × (Workspace × σ)
  | .pure a, _, s => (a, s)
  | .request c next, here, (w, h) =>
    let (r, w) := (c.perform here).run.run w
    (next r).run here (w, h)
  | .child place application body next, here, (w, h) =>
    match (Workspace.openChild here place application).run.run w with
    | (.error e, w) => (next (.error e)).run here (w, h)
    | (.ok (parent, name, id), w) =>
      let (built, (w, h)) := body.run id (w, h)
      let (r, w) := (Workspace.closeChild place parent name id built).run.run w
      (next r).run here (w, h)
  | .getHost next, here, (w, h) => (next h).run here (w, h)
  | .setHost h next, here, (w, _) => next.run here (w, h)

end Program

/-- Expand a template as the main component. -/
def Template.expand {σ : Type} (t : Template σ) (s : Workspace × σ) :
    Except Error Nat × (Workspace × σ) :=
  let (id, w) := (Workspace.enter "main" "main" t.application none).run s.1
  let (built, (w, h)) := Program.run t.body.run id (w, s.2)
  match built with
  | .error e => (.error e, (w, h))
  | .ok () =>
    let (r, w) := (Workspace.checkDangling id).run.run w
    (r.map fun _ => id, (w, h))

end RankOne
