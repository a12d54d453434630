/-
  RankOne — the rows and rules that a run leaves behind.

  * `Statement.Emits`: the row of a statement;
  * `Statement.Accepted`: what holds of every statement that was not refused;
  * `Run.rows`, `Run.rules`, `Run.accepted`: after a run the draft holds, in
    order, one row for each statement that emits one, and one rule for each
    that computes a signal.
-/
import RankOne.Proofs.Build.Run

namespace RankOne

namespace Statement

/-- The row of a statement. -/
inductive Emits : Statement → Row → Prop
  | assign {origin : String} {target : Signal} {e a b c : Expr}
      (h : (e.sub (.ofSignal target)).toRow = .ok (a, b, c)) :
      Emits (.assign origin target e) { a, b, c, origin }
  | constrain {origin : String} {l r a b c : Expr} (h : (l.sub r).toRow = .ok (a, b, c)) :
      Emits (.constrain origin l r) { a, b, c, origin }

theorem Emits.unique {st : Statement} {row row' : Row} (h : st.Emits row)
    (h' : st.Emits row') : row = row' := by
  cases h with
  | assign h =>
    cases h' with
    | assign h' => rw [h] at h'; cases h'; rfl
  | constrain h =>
    cases h' with
    | constrain h' => rw [h] at h'; cases h'; rfl

/-- What holds of a statement that was not refused. -/
def Accepted : Statement → Prop
  | .assign _ target e => e.field = target.field
  | .constrain _ l r => l.degree ≤ 2 ∧ r.degree ≤ 2 ∧ l.field = r.field ∧
      (max l.degree r.degree = 0 → (l.sub r).const = 0)
  | .hint _ _ _ _ => True

variable {w : Workspace} {st : Statement} {draft : Draft}

theorem Changes.accepted (h : st.Changes w draft) : st.Accepted := by
  cases h with
  | assign _ _ h => exact (Draft.assign_eq_ok h).2.1
  | constrain _ h =>
    obtain ⟨hl, hr, hf, ⟨-, hc, -, -⟩ | ⟨hd, -⟩⟩ := Draft.constrain_eq_ok h
    · exact ⟨hl, hr, hf, fun _ => hc⟩
    · exact ⟨hl, hr, hf, fun h => absurd h hd⟩
  | hint => trivial

/-- A statement adds its row, if it emits one. -/
theorem Changes.rows (h : st.Changes w draft) : ∃ rows,
    draft.rows.toList = w.draft.rows.toList ++ rows ∧
      List.Forall₂ Emits ([st].filter emitsRow) rows := by
  cases h with
  | assign _ _ h =>
    obtain ⟨-, -, -, a, b, c, hr, rfl⟩ := Draft.assign_eq_ok h
    exact ⟨_, Array.toList_push, .cons (.assign hr) .nil⟩
  | constrain _ h =>
    obtain ⟨-, -, -, ⟨hd, -, -, rfl⟩ | ⟨hd, -, a, b, c, hr, rfl⟩⟩ := Draft.constrain_eq_ok h
    · rw [List.filter_singleton, emitsRow, hd]
      exact ⟨[], (List.append_nil _).symm, .nil⟩
    · rw [List.filter_singleton, emitsRow, bne_iff_ne.2 hd]
      exact ⟨_, Array.toList_push, .cons (.constrain hr) .nil⟩
  | hint _ _ h =>
    obtain ⟨-, _, -, rfl⟩ := Draft.hint_eq_ok h
    exact ⟨[], (List.append_nil _).symm, .nil⟩

/-- A statement adds its rule, if it computes a signal, and then the first one of
    that signal. -/
theorem Changes.rules (h : st.Changes w draft) :
    draft.rules.toList = w.draft.rules.toList ++ st.rule?.toList ∧
      ∀ s, st.target? = some s → w.draft.rule? s = none := by
  cases h with
  | assign _ _ h =>
    obtain ⟨hu, -, -, a, b, c, -, rfl⟩ := Draft.assign_eq_ok h
    exact ⟨Array.toList_push, by rintro s ⟨⟩; exact hu⟩
  | constrain _ h =>
    refine ⟨?_, fun s hs => by cases hs⟩
    obtain ⟨-, -, -, ⟨-, -, -, rfl⟩ | ⟨-, -, a, b, c, -, rfl⟩⟩ := Draft.constrain_eq_ok h <;>
      exact (List.append_nil _).symm
  | hint _ _ h =>
    obtain ⟨hu, _, hd, rfl⟩ := Draft.hint_eq_ok h
    cases hd
    exact ⟨Array.toList_push, by rintro s ⟨⟩; exact hu⟩

end Statement

namespace Workspace

variable {S A : Set ℕ} {w w' : Workspace} {sts : List Statement}

theorem Move.draft {here : ℕ} (h : Move here w w') : w'.draft = w.draft := by
  cases h with
  | reserve | declare | enter | record => rfl
  | keep _ _ _ hd _ => exact hd

theorem Run.accepted (h : Run S A w sts w') : ∀ st ∈ sts, st.Accepted := by
  induction h with
  | done => simp
  | move _ _ _ ih | attach _ _ _ _ _ ih => exact ih
  | state hc _ ih => exact List.forall_mem_cons.2 ⟨hc.accepted, ih⟩

/-- **The rows added by a run are those of its statements, in order.** -/
theorem Run.rows (h : Run S A w sts w') :
    ∃ rows, w'.draft.rows.toList = w.draft.rows.toList ++ rows ∧
      List.Forall₂ Statement.Emits (sts.filter Statement.emitsRow) rows := by
  induction h with
  | done => exact ⟨[], (List.append_nil _).symm, .nil⟩
  | move _ hm _ ih => rw [← hm.draft]; exact ih
  | attach _ _ _ _ _ ih => exact ih
  | @state w w₂ st draft sts hc _ ih =>
    obtain ⟨rows₁, h₁, hs₁⟩ := hc.rows
    obtain ⟨rows₂, h₂, hs₂⟩ := ih
    refine ⟨rows₁ ++ rows₂, by rw [h₂, ← List.append_assoc, ← h₁], ?_⟩
    rw [← List.singleton_append, List.filter_append]
    exact List.rel_append hs₁ hs₂

/-- **The rules added by a run are those of its statements, in order.** -/
theorem Run.rules (h : Run S A w sts w') :
    w'.draft.rules.toList = w.draft.rules.toList ++ sts.filterMap Statement.rule? := by
  induction h with
  | done => exact (List.append_nil _).symm
  | move _ hm _ ih => rw [← hm.draft]; exact ih
  | attach _ _ _ _ _ ih => exact ih
  | @state w w₂ st draft sts hc _ ih =>
    rw [ih, hc.rules.1, List.append_assoc]
    cases hr : st.rule? with
    | none => rw [List.filterMap_cons_none hr]; rfl
    | some r => rw [List.filterMap_cons_some hr]; rfl

end Workspace

end RankOne
