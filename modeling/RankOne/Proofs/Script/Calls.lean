/-
  RankOne — rows and rules stated one call at a time.

  A refused step of a session keeps what happened before the refusal, so that
  nothing of a refused statement stays is a property of the order in which its
  checks are made.  A hint fails it: its rule is there before its dependencies are
  written to the log.

  * `Session.Call`: a statement with values as operands and a signal as target;
  * `Session.call`, `Session.after`: one call, and calls in a row whether or not
    they are accepted;
  * `Call.Adds`: what an accepted call adds to the draft, and the row it reports;
  * `Call.Leaves`: what a refused call leaves behind;
  * `Settles`: the ways in which a step can end;
  * `run_findRule`, `findM?_keyIs`: the look-up of a target;
  * `call_settles`, `call_assign_reassigned`, `call_hint_reassigned`: one call;
  * **`calls_append_only`**: any calls in any order;
  * `refused_hint_leaves_rule`: a refused call that leaves a rule.
-/
import RankOne.Proofs.Build.Run
import RankOne.Script.Session

namespace RankOne.Script.Session

/-! ## Calls -/

/-- A statement on the draft whose operands are values and whose target, if it has
    one, is a signal. -/
inductive Call where
  | assign (target : Signal) (value : Value) (origin : String)
  | constrain (l r : Value) (origin : String)
  | hint (target : Signal) (h : Hint) (deps : List Value) (origin : String)

/-- The effect of a call, and the row it reports. -/
def Call.perform : Call → Step (Option ℕ)
  | .assign target value origin => do return some (← assignValue (.signal target) value origin)
  | .constrain l r origin => constrainValues l r origin
  | .hint target h deps origin => do
    hintValue (.signal target) h deps origin
    return none

/-- The answer to a call, and the session afterwards. -/
def call (s : Session) (c : Call) : Except Error (Option ℕ) × Session := c.perform.run.run s

/-- The session after calls, each made whether or not the earlier ones were
    accepted. -/
def after (s : Session) (cs : List Call) : Session := cs.foldl (fun s c => (s.call c).2) s

/-- What an accepted call adds to the draft of a session, and the row it reports. -/
inductive Call.Adds (s : Session) : Call → Option ℕ → Draft → Prop
  /-- one row and one rule -/
  | assign {target : Signal} {value : Value} {origin : String} {e a b c : Expr}
      (hvalue : value.operand.toExpr (some s.workspace.field) = .ok e)
      (hfree : s.workspace.draft.rule? target = none)
      (hrow : (e.sub (.ofSignal target)).toRow = .ok (a, b, c)) :
      Adds s (.assign target value origin) (some s.workspace.draft.rows.size)
        { s.workspace.draft with
          rows := s.workspace.draft.rows.push { a, b, c, origin }
          rules := s.workspace.draft.rules.push { target, action := .assign e, origin } }
  /-- nothing, for equal constants -/
  | equal {l r : Value} {origin : String} {x y : Expr}
      (hl : l.operand.toExpr (some s.workspace.field) = .ok x)
      (hr : r.operand.toExpr (some s.workspace.field) = .ok y)
      (hdegree : max x.degree y.degree = 0) (hconst : (x.sub y).const = 0) :
      Adds s (.constrain l r origin) none s.workspace.draft
  /-- one row -/
  | constrain {l r : Value} {origin : String} {x y a b c : Expr}
      (hl : l.operand.toExpr (some s.workspace.field) = .ok x)
      (hr : r.operand.toExpr (some s.workspace.field) = .ok y)
      (hrow : (x.sub y).toRow = .ok (a, b, c)) :
      Adds s (.constrain l r origin) (some s.workspace.draft.rows.size)
        { s.workspace.draft with rows := s.workspace.draft.rows.push { a, b, c, origin } }
  /-- one rule -/
  | hint {target : Signal} {h : Hint} {deps : List Value} {origin : String} {es : List Expr}
      {texts : List String}
      (hdeps : deps.mapM (fun d => d.operand.toExpr (some s.workspace.field)) = .ok es)
      (hfree : s.workspace.draft.rule? target = none)
      (hwritten : es.mapM Expr.written = .ok texts) :
      Adds s (.hint target h deps origin) none
        { s.workspace.draft with
          rules := s.workspace.draft.rules.push { target, action := .hint h es, origin } }

/-- What a refused call leaves behind, if anything: the rule of a hint whose
    dependencies cannot be written. -/
inductive Call.Leaves (s : Session) : Call → Error → Session → Prop
  | hint {target : Signal} {h : Hint} {deps : List Value} {origin : String} {es : List Expr}
      {e : Error}
      (hdeps : deps.mapM (fun d => d.operand.toExpr (some s.workspace.field)) = .ok es)
      (hfree : s.workspace.draft.rule? target = none)
      (hwritten : es.mapM Expr.written = .error e) :
      Leaves s (.hint target h deps origin) e
        { s with workspace.draft.rules :=
            s.workspace.draft.rules.push { target, action := .hint h es, origin } }

section
variable {s s' : Session} {c : Call} {row : Option ℕ} {d : Draft} {e : Error}

theorem Call.Adds.rows_prefix (h : c.Adds s row d) :
    s.workspace.draft.rows.toList <+: d.rows.toList := by
  cases h <;> simp

theorem Call.Adds.rules_prefix (h : c.Adds s row d) :
    s.workspace.draft.rules.toList <+: d.rules.toList := by
  cases h <;> simp

/-- A rule for a signal that has none leaves the targets distinct. -/
theorem nodup_push {rules : Array Rule} {r : Rule}
    (hnodup : (rules.toList.map (·.target.uid)).Nodup)
    (hnew : ∀ q ∈ rules.toList, q.target.uid ≠ r.target.uid) :
    ((rules.push r).toList.map (·.target.uid)).Nodup := by
  rw [Array.toList_push, List.map_append, List.map_singleton, ← List.concat_eq_append]
  refine hnodup.concat fun hmem => ?_
  obtain ⟨q, hq, huid⟩ := List.mem_map.1 hmem
  exact hnew q hq huid

theorem Call.Adds.nodup (h : c.Adds s row d)
    (hnodup : (s.workspace.draft.rules.toList.map (·.target.uid)).Nodup) :
    (d.rules.toList.map (·.target.uid)).Nodup := by
  cases h with
  | equal | constrain => exact hnodup
  | assign _ hfree _ => exact nodup_push hnodup (Draft.ne_of_rule?_eq_none hfree)
  | hint _ hfree _ => exact nodup_push hnodup (Draft.ne_of_rule?_eq_none hfree)

theorem Call.Leaves.rows_eq (h : c.Leaves s e s') :
    s'.workspace.draft.rows = s.workspace.draft.rows := by
  cases h
  rfl

theorem Call.Leaves.rules_prefix (h : c.Leaves s e s') :
    s.workspace.draft.rules.toList <+: s'.workspace.draft.rules.toList := by
  cases h
  simp

theorem Call.Leaves.nodup (h : c.Leaves s e s')
    (hnodup : (s.workspace.draft.rules.toList.map (·.target.uid)).Nodup) :
    (s'.workspace.draft.rules.toList.map (·.target.uid)).Nodup := by
  cases h with
  | hint _ hfree _ => exact nodup_push hnodup (Draft.ne_of_rule?_eq_none hfree)

theorem Call.Leaves.unwritten {target : Signal} {h : Hint} {deps : List Value} {origin : String}
    (hleft : (Call.hint target h deps origin).Leaves s e s') :
    ∃ es, deps.mapM (fun d => d.operand.toExpr (some s.workspace.field)) = .ok es ∧
      es.mapM Expr.written = .error e := by
  cases hleft with
  | hint hdeps _ hwritten => exact ⟨_, hdeps, hwritten⟩

theorem Call.Leaves.strays_eq (h : c.Leaves s e s') : s'.strays = s.strays := by
  cases h
  rfl

end

/-! ## Steps -/

section
variable {α β : Type} {s s' : Session}

theorem run_bind_ok {x : Step α} {a : α} (g : α → Step β) (h : x.run.run s = (.ok a, s')) :
    (x >>= g).run.run s = (g a).run.run s' := by
  simp only [ExceptT.run_bind, StateT.run_bind, h]
  rfl

theorem run_bind_error {x : Step α} {e : Error} (g : α → Step β)
    (h : x.run.run s = (.error e, s')) : (x >>= g).run.run s = (.error e, s') := by
  simp only [ExceptT.run_bind, StateT.run_bind, h]
  rfl

theorem run_get : (get : Step Session).run.run s = (.ok s, s) := rfl

theorem run_liftM (x : Except Error α) : (liftM x : Step α).run.run s = (x, s) := by
  cases x <;> rfl

/-- A check comes first, and what follows only reads. -/
theorem run_bind_liftM {x : Except Error α} {g : α → Step β} {y : α → Except Error β}
    (h : ∀ a, x = .ok a → (g a).run.run s = (y a, s)) :
    (liftM x >>= g).run.run s = (x >>= y, s) := by
  cases x with
  | error e => exact run_bind_error g (run_liftM _)
  | ok a => exact (run_bind_ok g (run_liftM _)).trans (h a rfl)

/-- The step is refused and changes nothing, is refused and leaves what is told, or
    ends as told. -/
def Settles (x : Step α) (s : Session) (Q : Error → Session → Prop) (P : α → Session → Prop) :
    Prop :=
  (∃ e, x.run.run s = (.error e, s)) ∨ (∃ e s', x.run.run s = (.error e, s') ∧ Q e s') ∨
    ∃ a s', x.run.run s = (.ok a, s') ∧ P a s'

variable {Q : Error → Session → Prop} {P : β → Session → Prop}

/-- A step that only reads may come first. -/
theorem Settles.bind {x : Step α} {y : Except Error α} {g : α → Step β}
    (hx : x.run.run s = (y, s)) (h : ∀ a, y = .ok a → Settles (g a) s Q P) :
    Settles (x >>= g) s Q P := by
  cases y with
  | error e => exact Or.inl ⟨e, run_bind_error g hx⟩
  | ok a =>
    rw [Settles, run_bind_ok g hx]
    exact h a rfl

/-- A change of the answer may come last. -/
theorem Settles.map {x : Step α} {g : α → β} (h : Settles x s Q fun a s' => P (g a) s') :
    Settles (do return g (← x)) s Q P := by
  obtain ⟨e, he⟩ | ⟨e, s', he, hleft⟩ | ⟨a, s', ha, hpost⟩ := h
  · exact Or.inl ⟨e, run_bind_error _ he⟩
  · exact Or.inr (Or.inl ⟨e, s', run_bind_error _ he, hleft⟩)
  · exact Or.inr (Or.inr ⟨g a, s', run_bind_ok _ ha, hpost⟩)

theorem Settles.imp {x : Step β} {P' : β → Session → Prop} (h : Settles x s Q P)
    (himp : ∀ a s', P a s' → P' a s') : Settles x s Q P' :=
  h.imp_right (.imp_right fun ⟨a, s', ha, hpost⟩ => ⟨a, s', ha, himp a s' hpost⟩)

theorem run_work (w : Work β) : (work w).run.run s =
    ((w.run.run s.workspace).1, { s with workspace := (w.run.run s.workspace).2 }) := by
  unfold work
  rw [run_bind_ok _ run_get]
  exact run_liftM _

/-- Work on the workspace that is refused without a change, or ends as told. -/
theorem settles_work {w : Work β} {P : β → Workspace → Prop}
    (h : (∃ e, w.run.run s.workspace = (.error e, s.workspace)) ∨
      ∃ b w', w.run.run s.workspace = (.ok b, w') ∧ P b w') :
    Settles (work w) s Q fun b s' => P b s'.workspace ∧ s'.strays = s.strays := by
  obtain ⟨e, he⟩ | ⟨b, w', hw, hpost⟩ := h
  · exact Or.inl ⟨e, by rw [run_work, he]⟩
  · exact Or.inr (Or.inr ⟨b, { s with workspace := w' }, by rw [run_work, hw], hpost, rfl⟩)

end

/-! ## The look-up of a target -/

section
variable {s : Session} {t : Signal} {r : Rule}

/-- A signal is only asked when the other has its number, and then refuses unless
    it is the same. -/
theorem keyIs_signal (a b : Signal) : Value.keyIs (.signal a) (.signal b) =
    if a.same b then if a = b then .ok true else .error (.signalCompared a.path)
    else .ok false := by
  have h : Number.test .eq (.int a.uid) (.int b.uid) = a.same b := by
    rw [Bool.eq_iff_iff, Signal.same_iff]
    simp [Number.test, Number.compare, Binary.holds]
  simp [Value.keyIs, Value.isSymbolic, Value.sharesNumber, Value.keyNumber?, Value.leafEqual, h]

/-- A search that stops at the first hit. -/
theorem run_forIn_find {α β : Type} (p : α → Except Error Bool) (g : α → β) (xs : List α) :
    (forIn xs ((none : Option β), ()) fun a _ => do
      if ← (liftM (p a) : Step Bool) then pure (ForInStep.done (some (g a), ()))
      else pure (ForInStep.yield (none, ()))).run.run s =
    ((xs.findM? p).map fun found => (found.map g, ()), s) := by
  induction xs with
  | nil => rfl
  | cons a xs ih =>
    rw [List.forIn_cons]
    cases ha : p a with
    | error e =>
      simp [ha, List.findM?]
      rfl
    | ok b =>
      cases b with
      | true =>
        simp [ha, List.findM?]
        rfl
      | false =>
        have hnext : (a :: xs).findM? p = xs.findM? p := by
          simp [ha, List.findM?]
          rfl
        rw [hnext, ← ih]
        rfl

/-- The rules are asked one by one. -/
theorem run_findRule (hs : s.strays = []) : (findRule (.signal t)).run.run s =
    ((s.workspace.draft.rules.toList.findM? fun r =>
      Value.keyIs (.signal r.target) (.signal t)).map (Option.map some), s) := by
  unfold findRule
  rw [run_bind_ok _ run_get]
  simp only [Value.isHashable, Bool.not_true, Bool.false_eq_true, if_false, ← Array.forIn_toList,
    hs]
  have hloop := run_forIn_find (s := s)
    (fun r : Rule => Value.keyIs (.signal r.target) (.signal t)) (fun r => some (some r))
    s.workspace.draft.rules.toList
  cases h : s.workspace.draft.rules.toList.findM? fun r : Rule =>
      Value.keyIs (.signal r.target) (.signal t) with
  | error e =>
    rw [h] at hloop
    exact run_bind_error _ hloop
  | ok found =>
    rw [h] at hloop
    rw [run_bind_ok _ hloop]
    cases found <;> rfl

/-- The first rule under the number of the target answers. -/
theorem findM?_keyIs (rules : List Rule) :
    rules.findM? (fun r => Value.keyIs (.signal r.target) (.signal t)) =
      ((rules.find? fun r => r.target.same t).elim (.ok none) fun r =>
        if r.target = t then .ok (some r) else .error (.signalCompared r.target.path)) := by
  induction rules with
  | nil => rfl
  | cons r rules ih =>
    rw [List.findM?, List.find?_cons, keyIs_signal]
    cases r.target.same t with
    | true =>
      by_cases hr : r.target = t
      · simp [hr]
        rfl
      · simp [hr]
        rfl
    | false => exact ih

/-- A signal with a rule is found. -/
theorem findRule_of_some (hs : s.strays = []) (h : s.workspace.draft.rule? t = some r)
    (hr : r.target = t) : (findRule (.signal t)).run.run s = (.ok (some (some r)), s) := by
  rw [Draft.rule?, ← Array.find?_toList] at h
  rw [run_findRule hs, findM?_keyIs, h, Option.elim_some, if_pos hr]
  rfl

/-- The look-up of a target only reads. -/
theorem run_checkFree (hs : s.strays = []) :
    ∃ y, (checkFree (.signal t)).run.run s = (y, s) := by
  have h := run_findRule (t := t) hs
  cases hy : s.workspace.draft.rules.toList.findM? fun r : Rule =>
      Value.keyIs (.signal r.target) (.signal t) with
  | error e =>
    rw [hy] at h
    exact ⟨_, run_bind_error _ h⟩
  | ok found =>
    rw [hy] at h
    refine ⟨.ok (), (run_bind_ok _ h).trans ?_⟩
    cases found <;> rfl

/-- So do the look-ups behind a difference. -/
theorem run_checkDifference (l r : Value) :
    ∃ y, (checkDifference l r).run.run s = (y, s) := by
  unfold checkDifference
  rw [run_bind_ok _ run_get]
  split
  · exact ⟨_, run_liftM _⟩
  · exact ⟨_, rfl⟩

end

/-! ## One call -/

section
variable {s : Session} {origin : String} {Q : Error → Session → Prop}

theorem settles_addAssignment (target : Signal) (e : Expr) :
    Settles (work (Workspace.addAssignment target e origin)) s Q fun row s' =>
      s.workspace.draft.assign target e origin = .ok (row, s'.workspace.draft) ∧
        s'.strays = s.strays := by
  refine settles_work
    (P := fun row w => s.workspace.draft.assign target e origin = .ok (row, w.draft)) ?_
  simp only [Workspace.addAssignment, Work.run_bind, Work.run_get, Work.run_liftM, Work.run_set,
    Work.run_pure]
  cases hd : s.workspace.draft.assign target e origin with
  | error e' => exact Or.inl ⟨e', rfl⟩
  | ok added =>
    -- the row and the rule are there only if the difference can be formed
    cases Clash.add e (Expr.ofSignal target).neg with
    | error e' => exact Or.inl ⟨e', rfl⟩
    | ok _ => exact Or.inr ⟨added.1, _, rfl, rfl⟩

theorem settles_addEquality (l r : Expr) :
    Settles (work (Workspace.addEquality l r origin)) s Q fun row s' =>
      s.workspace.draft.constrain l r origin = .ok (row, s'.workspace.draft) ∧
        s'.strays = s.strays := by
  refine settles_work
    (P := fun row w => s.workspace.draft.constrain l r origin = .ok (row, w.draft)) ?_
  simp only [Workspace.addEquality, Work.run_bind, Work.run_get, Work.run_liftM]
  cases hd : s.workspace.draft.constrain l r origin with
  | error e => exact Or.inl ⟨e, rfl⟩
  | ok added =>
    obtain ⟨row, draft⟩ := added
    cases Clash.add l r.neg with
    | error e => exact Or.inl ⟨e, rfl⟩
    | ok _ =>
      cases row with
      | none =>
        -- Equal constants: the draft that comes back is the one that was there.
        obtain ⟨-, -, -, ⟨-, -, -, rfl⟩ | ⟨-, hrow, -⟩⟩ := Draft.constrain_eq_ok hd
        · exact Or.inr ⟨none, s.workspace, rfl, rfl⟩
        · cases hrow
      | some row => exact Or.inr ⟨some row, _, rfl, rfl⟩

/-- A hint is refused, or its rule is there and its dependencies are written. -/
theorem settles_addHint (target : Signal) (h : Hint) (deps : List Value) :
    Settles (work (Workspace.addHint target h
        (deps.mapM fun d => d.operand.toExpr (some s.workspace.field)) origin)) s
      (Call.Leaves s (.hint target h deps origin)) fun _ s' =>
        (Call.hint target h deps origin).Adds s none s'.workspace.draft ∧
          s'.strays = s.strays := by
  rw [Settles, run_work]
  simp only [Workspace.addHint, Work.run_bind, Work.run_get, Work.run_liftM]
  cases hd : s.workspace.draft.hint target h
      (deps.mapM fun d => d.operand.toExpr (some s.workspace.field)) origin with
  | error e => exact Or.inl ⟨e, rfl⟩
  | ok draft =>
    obtain ⟨hfree, es, hdeps, rfl⟩ := Draft.hint_eq_ok hd
    rw [hdeps]
    simp only [Work.run_set, Except.bind]
    right
    cases hwritten : es.mapM Expr.written with
    | error e => exact Or.inl ⟨e, _, rfl, .hint hdeps hfree hwritten⟩
    | ok texts => exact Or.inr ⟨(), _, rfl, .hint hdeps hfree hwritten, rfl⟩

/-- **A call that is refused changes nothing, unless it is a hint that cannot be
    written; one that is accepted adds what its kind says.** -/
theorem call_settles (hs : s.strays = []) (c : Call) :
    Settles c.perform s (c.Leaves s) fun row s' =>
      c.Adds s row s'.workspace.draft ∧ s'.strays = [] := by
  cases c with
  | assign target value origin =>
    refine Settles.map ?_
    refine Settles.bind run_get ?_
    rintro _ ⟨⟩
    refine Settles.bind (run_liftM _) fun e he => ?_
    refine Settles.bind (run_liftM _) fun _ _ => ?_
    obtain ⟨y, hy⟩ := run_checkFree (t := target) hs
    refine Settles.bind hy fun _ _ => ?_
    refine Settles.bind run_get ?_
    rintro _ ⟨⟩
    have hlast : Settles (work (Workspace.addAssignment target e origin)) s
        (Call.Leaves s (.assign target value origin)) fun row s' =>
        (Call.assign target value origin).Adds s (some row) s'.workspace.draft ∧
          s'.strays = [] := by
      refine (settles_addAssignment target e).imp fun row s' ⟨hd, hstrays⟩ => ⟨?_, hstrays.trans hs⟩
      obtain ⟨hfree, -, rfl, a, b, c, hrow, hd⟩ := Draft.assign_eq_ok hd
      rw [hd]
      exact .assign he hfree hrow
    split
    · obtain ⟨y, hy⟩ := run_checkDifference (s := s) (.expr e) (.signal target)
      exact Settles.bind hy fun _ _ => hlast
    · exact hlast
  | constrain l r origin =>
    refine Settles.bind run_get ?_
    rintro _ ⟨⟩
    refine Settles.bind (run_liftM _) fun x hx => ?_
    refine Settles.bind (run_liftM _) fun y hy => ?_
    refine Settles.bind (run_liftM _) fun _ _ => ?_
    refine Settles.bind (run_liftM _) fun _ _ => ?_
    obtain ⟨z, hz⟩ := run_checkDifference (s := s) (.expr x) (.expr y)
    refine Settles.bind hz fun _ _ => ?_
    refine (settles_addEquality x y).imp fun row s' ⟨hd, hstrays⟩ => ⟨?_, hstrays.trans hs⟩
    obtain ⟨-, -, -, ⟨hdegree, hconst, rfl, hd'⟩ | ⟨-, rfl, a, b, c, hrow, hd'⟩⟩ :=
      Draft.constrain_eq_ok hd
    · rw [hd']
      exact .equal hx hy hdegree hconst
    · rw [hd']
      exact .constrain hx hy hrow
  | hint target h deps origin =>
    refine Settles.map ?_
    refine Settles.bind run_get ?_
    rintro _ ⟨⟩
    obtain ⟨y, hy⟩ := run_checkFree (t := target) hs
    refine Settles.bind hy fun _ _ => ?_
    exact (settles_addHint target h deps).imp fun _ s' ⟨hadds, hstrays⟩ =>
      ⟨hadds, hstrays.trans hs⟩

/-- An assignment to a signal with a rule is refused once its operand is accepted. -/
theorem call_assign_reassigned {r : Rule} {value : Value} (hs : s.strays = [])
    (hr : s.workspace.draft.rule? r.target = some r) :
    (s.call (.assign r.target value origin)).1 = (do
      let e ← value.operand.toExpr (some s.workspace.field)
      Draft.checkDegree e
      .error (.alreadyAssigned r.target.path r.action.name r.origin "assign")) := by
  have hassigned : s.workspace.draft.isAssigned r.target = true := by simp [Draft.isAssigned, hr]
  have hfree : (checkFree (.signal r.target)).run.run s = (.ok (), s) :=
    run_bind_ok _ (findRule_of_some hs hr rfl)
  have hwork {e : Expr} {u : Unit} (hu : Draft.checkDegree e = .ok u) :
      (work (Workspace.addAssignment r.target e origin)).run.run s =
        (.error (.alreadyAssigned r.target.path r.action.name r.origin "assign"), s) := by
    have hd : s.workspace.draft.assign r.target e origin =
        .error (.alreadyAssigned r.target.path r.action.name r.origin "assign") := by
      simp only [Draft.assign, hu, Draft.checkUnassigned, hr]
      rfl
    rw [run_work]
    simp only [Workspace.addAssignment, Work.run_bind, Work.run_get, Work.run_liftM, hd]
  suffices hrun : (Call.assign r.target value origin).perform.run.run s = ((do
      let e ← value.operand.toExpr (some s.workspace.field)
      Draft.checkDegree e
      .error (.alreadyAssigned r.target.path r.action.name r.origin "assign")), s) by
    rw [call, hrun]
  simp only [Call.perform, assignValue, bind_assoc]
  refine (run_bind_ok _ run_get).trans (run_bind_liftM fun e _ => run_bind_liftM fun u hu => ?_)
  rw [run_bind_ok _ hfree, run_bind_ok _ run_get, hassigned]
  exact run_bind_error _ (hwork hu)

/-- A hint for a signal with a rule is refused outright. -/
theorem call_hint_reassigned {r : Rule} {h : Hint} {deps : List Value} (hs : s.strays = [])
    (hr : s.workspace.draft.rule? r.target = some r) :
    (s.call (.hint r.target h deps origin)).1 =
      .error (.alreadyAssigned r.target.path r.action.name r.origin "hint") := by
  have hfree : (checkFree (.signal r.target)).run.run s = (.ok (), s) :=
    run_bind_ok _ (findRule_of_some hs hr rfl)
  have hhint : (hintValue (.signal r.target) h deps origin).run.run s =
      (.error (.alreadyAssigned r.target.path r.action.name r.origin "hint"), s) := by
    refine (run_bind_ok _ run_get).trans ((run_bind_ok _ hfree).trans ?_)
    have hd deps : s.workspace.draft.hint r.target h deps origin =
        .error (.alreadyAssigned r.target.path r.action.name r.origin "hint") := by
      simp only [Draft.hint, Draft.checkUnassigned, hr]
      rfl
    dsimp only
    rw [run_work]
    simp only [Workspace.addHint, Work.run_bind, Work.run_get, Work.run_liftM, hd]
  exact congrArg Prod.fst (run_bind_error _ hhint)

end

/-! ## Any calls -/

/-- What holds between calls: every target is a signal, with one rule. -/
structure Tidy (s : Session) : Prop where
  strays : s.strays = []
  single : (s.workspace.draft.rules.toList.map (·.target.uid)).Nodup

theorem tidy_start (f : PrimeField) (signals : List (String × Signal)) :
    (start f signals).Tidy where
  strays := rfl
  single := List.nodup_nil

theorem Tidy.call {s : Session} (hs : s.Tidy) (c : Call) : (s.call c).2.Tidy := by
  rw [Session.call]
  obtain ⟨e, he⟩ | ⟨e, s', he, hleft⟩ | ⟨row, s', hrow, hadds, hstrays⟩ :=
    call_settles hs.strays c
  · rw [he]
    exact hs
  · rw [he]
    exact ⟨hleft.strays_eq.trans hs.strays, hleft.nodup hs.single⟩
  · rw [hrow]
    exact ⟨hstrays, hadds.nodup hs.single⟩

theorem Tidy.after {s : Session} (hs : s.Tidy) (cs : List Call) : (s.after cs).Tidy := by
  induction cs generalizing s with
  | nil => exact hs
  | cons c cs ih => exact ih (hs.call c)

/-- **Calls only append.**  Whatever was called before, accepted or not, the next
    call keeps every row and every rule and no signal gets a second rule.  A refused
    call changes nothing, but for a hint whose dependencies cannot be written: that
    leaves its rule and no row.  An accepted call adds what its kind says and reports
    where.  A signal with a rule is refused, an assignment after its operand is looked
    at. -/
theorem calls_append_only {f : PrimeField} {signals : List (String × Signal)} {before : List Call}
    {c : Call} {answer : Except Error (Option ℕ)} {s s' : Session}
    (hs : (start f signals).after before = s) (hc : s.call c = (answer, s')) :
    s.workspace.draft.rows.toList <+: s'.workspace.draft.rows.toList ∧
    s.workspace.draft.rules.toList <+: s'.workspace.draft.rules.toList ∧
    (s'.workspace.draft.rules.toList.map (·.target.uid)).Nodup ∧
    (∀ e, answer = .error e → s' = s ∨ c.Leaves s e s') ∧
    (∀ row, answer = .ok row → c.Adds s row s'.workspace.draft) ∧
    (∀ r ∈ s.workspace.draft.rules.toList,
      (∀ value origin, c = .assign r.target value origin → answer = do
        let e ← value.operand.toExpr (some s.workspace.field)
        Draft.checkDegree e
        .error (.alreadyAssigned r.target.path r.action.name r.origin "assign")) ∧
      ∀ h deps origin, c = .hint r.target h deps origin → answer =
        .error (.alreadyAssigned r.target.path r.action.name r.origin "hint")) := by
  have hs : s.Tidy := hs ▸ (tidy_start f signals).after before
  have hs' : s'.Tidy := by simpa [hc] using hs.call c
  have hanswer : answer = (s.call c).1 := by rw [hc]
  have hfound {r : Rule} (hr : r ∈ s.workspace.draft.rules.toList) :=
    Draft.rule?_of_mem hs.single hr
  suffices h : s.workspace.draft.rows.toList <+: s'.workspace.draft.rows.toList ∧
      s.workspace.draft.rules.toList <+: s'.workspace.draft.rules.toList ∧
      (∀ e, answer = .error e → s' = s ∨ c.Leaves s e s') ∧
      ∀ row, answer = .ok row → c.Adds s row s'.workspace.draft by
    refine ⟨h.1, h.2.1, hs'.single, h.2.2.1, h.2.2.2, fun r hr => ⟨?_, ?_⟩⟩
    · rintro value origin rfl
      exact hanswer.trans (call_assign_reassigned hs.strays (hfound hr))
    · rintro h deps origin rfl
      exact hanswer.trans (call_hint_reassigned hs.strays (hfound hr))
  obtain ⟨e, he⟩ | ⟨e, _, he, hleft⟩ | ⟨row, _, hrow, hadds, -⟩ := call_settles hs.strays c
  · cases hc.symm.trans he
    exact ⟨List.prefix_refl _, List.prefix_refl _, fun _ _ => Or.inl rfl, nofun⟩
  · cases hc.symm.trans he
    refine ⟨hleft.rows_eq ▸ List.prefix_refl _, hleft.rules_prefix, ?_, nofun⟩
    rintro _ ⟨⟩
    exact Or.inr hleft
  · cases hc.symm.trans hrow
    refine ⟨hadds.rows_prefix, hadds.rules_prefix, nofun, ?_⟩
    rintro _ ⟨⟩
    exact hadds

/-- A signal by number and name. -/
def named (n : ℕ) (name : String) : Signal :=
  ⟨n, name, .declared .intermediate, .goldilocks, "main", .own⟩

/-- After an assignment, a refused equality and a hint, a second rule for either
    signal is refused and leaves the session as it was. -/
theorem second_rules_refused :
    let y := named 2 "y"
    let z := named 3 "z"
    let s := (start .goldilocks []).after
      [.assign y (.signal (named 1 "x")) "main", .constrain .none (.int 1) "main",
        .hint z .inverse [.signal y] "main"]
    s.workspace.draft.rules.toList.map (·.target.path) = ["y", "z"] ∧
    s.workspace.draft.rows.size = 1 ∧
    s.call (.assign y (.int 3) "main") =
      (.error (.alreadyAssigned "y" "assign" "main" "assign"), s) ∧
    s.call (.hint z .inverse [] "main") =
      (.error (.alreadyAssigned "z" "hint" "main" "hint"), s) := by
  intro y z s
  have hs : (start .goldilocks []).after
      [.assign y (.signal (named 1 "x")) "main", .constrain .none (.int 1) "main",
        .hint z .inverse [.signal y] "main"] = s := rfl
  have hpaths : s.workspace.draft.rules.toList.map (·.target.path) = ["y", "z"] ∧
      s.workspace.draft.rows.size = 1 := by decide +kernel
  have hy : ∃ r ∈ s.workspace.draft.rules.toList,
      r.target = y ∧ r.action.name = "assign" ∧ r.origin = "main" := by decide +kernel
  have hz : ∃ r ∈ s.workspace.draft.rules.toList,
      r.target = z ∧ r.action.name = "hint" ∧ r.origin = "main" := by decide +kernel
  clear_value s
  obtain ⟨r, hr, hry, hname, horigin⟩ := hy
  obtain ⟨q, hq, hqz, hname', horigin'⟩ := hz
  obtain ⟨-, -, -, hsame, -, hagain⟩ :=
    calls_append_only (c := .assign y (.int 3) "main") hs Prod.mk.eta.symm
  obtain ⟨-, -, -, hsame', -, hagain'⟩ :=
    calls_append_only (c := .hint z .inverse [] "main") hs Prod.mk.eta.symm
  have herror := (hagain r hr).1 _ _ (by rw [hry])
  have herror' := (hagain' q hq).2 _ _ _ (by rw [hqz])
  rw [hry, hname, horigin] at herror
  rw [hqz, hname', horigin'] at herror'
  refine ⟨hpaths.1, hpaths.2, Prod.ext herror ((hsame _ herror).resolve_right nofun),
    Prod.ext herror' ((hsame' _ herror').resolve_right ?_)⟩
  -- a hint without dependencies can be written
  intro hleft
  obtain ⟨es, hdeps, hwritten⟩ := hleft.unwritten
  cases hdeps
  cases hwritten

/-- A hint for `z` that depends on a form of something that is no signal. -/
def strayHint : Call :=
  .hint (named 3 "z") .inverse [.expr (.of .goldilocks 0 [(stray .goldilocks, 1)] [] 1)] "main"

/-- The hint is refused, its rule stays, and `z` cannot be given another one. -/
theorem refused_hint_leaves_rule :
    ∃ answer s, (start .goldilocks []).call strayHint = (answer, s) ∧
      failure answer = some (.fault .attribute) ∧
      s.workspace.draft.rules.toList.map (·.target.path) = ["z"] ∧
      failure (s.call (.hint (named 3 "z") .inverse [.signal (named 1 "x")] "main")).1 =
        some .reassigned := by
  refine ⟨_, _, rfl, ?_⟩
  decide +kernel

end RankOne.Script.Session
