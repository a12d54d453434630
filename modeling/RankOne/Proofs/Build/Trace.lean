/-
  RankOne — runs of builds, request by request.

  * `Build.Runs`: a build runs in a component to a result, with the statements that
    it executes;
  * `runs_bind`, `runs_request`, …: a run of a sequence is made of runs of its parts;
  * `Sight`: what a component has declared and emitted so far;
  * `runs_signal`, `runs_assign`, `runs_constrain`, `runs_hint`: what each statement
    adds to that.
-/
import RankOne.Build.Statement
import RankOne.Proofs.Build.Components

namespace RankOne

/-! ## Sequences -/

namespace Program

variable {σ α β : Type}

theorem run_bind : ∀ (p : Program σ α) (g : α → Program σ β) (here : ℕ) (s : Workspace × σ),
    (p.bind g).run here s = (g (p.run here s).1).run here (p.run here s).2
  | .pure _, _, _, _ => rfl
  | .request _ next, g, here, (_, _) => run_bind (next _) g here _
  | .child place application body next, g, here, (w, h) => by
    simp only [bind, run]
    rcases (Workspace.openChild here place application).run.run w with ⟨e | ⟨parent, name, id⟩, w₁⟩
    · exact run_bind (next _) g here _
    · exact run_bind (next _) g here _
  | .getHost next, g, here, (_, _) => run_bind (next _) g here _
  | .setHost _ next, g, here, (_, _) => run_bind next g here _

theorem statements_bind : ∀ (p : Program σ α) (g : α → Program σ β) (here : ℕ)
    (s : Workspace × σ), (p.bind g).statements here s =
      p.statements here s ++ (g (p.run here s).1).statements here (p.run here s).2
  | .pure _, _, _, _ => rfl
  | .request c next, g, here, (w, _) =>
    (congrArg (c.executed here w ++ ·) (statements_bind (next _) g here _)).trans
      (List.append_assoc _ _ _).symm
  | .child place application body next, g, here, (w, h) => by
    simp only [bind, statements, run]
    rcases (Workspace.openChild here place application).run.run w with ⟨e | ⟨parent, name, id⟩, w₁⟩
    · exact statements_bind (next _) g here _
    · exact (congrArg (body.statements id (w₁, h) ++ ·) (statements_bind (next _) g here _)).trans
        (List.append_assoc _ _ _).symm
  | .getHost next, g, here, (_, _) => statements_bind (next _) g here _
  | .setHost _ next, g, here, (_, _) => statements_bind next g here _

end Program

namespace Build

variable {σ α β : Type} {here : ℕ} {s s' : Workspace × σ} {sts : List Statement}

/-- A build runs in a component to a result, with the statements that it
    executes. -/
structure Runs (b : Build σ α) (here : ℕ) (s : Workspace × σ) (sts : List Statement) (a : α)
    (s' : Workspace × σ) : Prop where
  lt : here < s.1.instances.size
  run : Program.run b.run here s = (.ok a, s')
  statements : Program.statements b.run here s = sts

theorem Runs.chain {b : Build σ α} {a : α} (h : b.Runs here s sts a s') :
    Workspace.Run (Program.actors here s.1) Set.univ s.1 sts s'.1 := by
  have hrun := Program.run_spec b.run s.2 h.lt
  rw [h.run, h.statements] at hrun
  exact hrun.mono subset_rfl (Set.subset_univ _)

theorem Runs.size_le {b : Build σ α} {a : α} (h : b.Runs here s sts a s') :
    s.1.instances.size ≤ s'.1.instances.size := h.chain.size_le

/-- **A run of a sequence is made of runs of its parts.** -/
theorem runs_bind {x : Build σ α} {g : α → Build σ β} {b : β}
    (h : (x >>= g).Runs here s sts b s') : ∃ a s₁ xs ys,
      x.Runs here s xs a s₁ ∧ (g a).Runs here s₁ ys b s' ∧ sts = xs ++ ys := by
  obtain ⟨hlt, hrun, rfl⟩ := h
  have hdef : (x >>= g).run = x.run.bind (ExceptT.bindCont g) := rfl
  rw [hdef, Program.run_bind] at hrun
  rw [hdef, Program.statements_bind]
  rcases hx : Program.run x.run here s with ⟨e | a, s₁⟩ <;> rw [hx] at hrun
  · cases hrun
  · have hxr : x.Runs here s _ a s₁ := ⟨hlt, hx, rfl⟩
    exact ⟨a, s₁, _, _, hxr, ⟨Nat.lt_of_lt_of_le hlt hxr.size_le, hrun, rfl⟩, rfl⟩

theorem runs_pure {a b : α} (h : (pure a : Build σ α).Runs here s sts b s') :
    b = a ∧ s' = s ∧ sts = [] := by
  obtain ⟨-, hrun, rfl⟩ := h
  cases hrun
  exact ⟨rfl, rfl, rfl⟩

theorem runs_demand {r : Except Error α} {a : α} (h : (demand r : Build σ α).Runs here s sts a s') :
    r = .ok a ∧ s' = s ∧ sts = [] := by
  obtain ⟨-, hrun, rfl⟩ := h
  cases hrun
  exact ⟨rfl, rfl, rfl⟩

theorem runs_request {c : Command} {a : c.Reply}
    (h : (request c : Build σ c.Reply).Runs here s sts a s') :
    (c.perform here).run.run s.1 = (.ok a, s'.1) ∧
      sts = (c.statement? (s.1.instanceAt here).path).toList := by
  obtain ⟨-, hrun, rfl⟩ := h
  obtain ⟨w, host⟩ := s
  have hpair : ((c.perform here).run.run w).1 = .ok a ∧
      (((c.perform here).run.run w).2, host) = s' := Prod.ext_iff.1 hrun
  have hans : (c.perform here).run.run w = (.ok a, s'.1) := Prod.ext hpair.1 (by rw [← hpair.2])
  refine ⟨hans, ?_⟩
  change c.executed here w ++ [] = _
  rw [List.append_nil, Command.executed_of_answered hans]

end Build

/-! ## What a component shows -/

/-- What a component has declared and emitted so far, with the number of all rows. -/
structure Sight where
  field : PrimeField
  path : String
  declarations : List Declaration
  rows : List ℕ
  count : ℕ

/-- One more declaration. -/
def Sight.declare (v : Sight) (d : Declaration) : Sight :=
  { v with declarations := v.declarations ++ [d] }

/-- One more row. -/
def Sight.emit (v : Sight) : Sight := { v with rows := v.rows ++ [v.count], count := v.count + 1 }

namespace Workspace

/-- What a component of a workspace shows. -/
def sight (w : Workspace) (here : ℕ) : Sight :=
  { field := w.field, path := (w.instanceAt here).path
    declarations := (w.instanceAt here).declarations, rows := (w.instanceAt here).rows
    count := w.draft.rows.size }

variable {w w' : Workspace} {here : ℕ}

theorem sight_updateInstance (hh : here < w.instances.size) (g : Instance → Instance) :
    (w.updateInstance here g).sight here =
      { field := w.field, path := (g (w.instanceAt here)).path
        declarations := (g (w.instanceAt here)).declarations
        rows := (g (w.instanceAt here)).rows, count := w.draft.rows.size } := by
  rw [sight, instanceAt_updateInstance, if_pos ⟨rfl, hh⟩]; rfl

theorem reserve_eq_ok {name : String} {u : Unit} (hh : here < w.instances.size)
    (h : (reserve here name).run.run w = (.ok u, w')) :
    w'.sight here = w.sight here ∧ w'.signals = w.signals ∧ here < w'.instances.size := by
  rw [reserve, Work.run_bind, Work.run_get] at h
  dsimp only at h
  split_ifs at h
  · cases h
  · obtain rfl := (Prod.ext_iff.1 h).2
    exact ⟨sight_updateInstance hh _, rfl, (size_updateInstance _ _ _).symm ▸ hh⟩

/-- An accepted declaration. -/
theorem declare_eq_ok {role : Role} {name : String} {dims : Except Error (List Int)} {bus : Bus}
    (hh : here < w.instances.size) (h : (declare here role name dims).run.run w = (.ok bus, w')) :
    w'.sight here = (w.sight here).declare ⟨name, role, bus⟩ ∧ ∃ ds, dims = .ok ds ∧
      bus = (makeBus w.field role (w.instanceAt here).path (ds.map Int.toNat)
        [0, here, (w.instanceAt here).declarations.length]
        s!"{(w.instanceAt here).path}.{name}" w.signals).1 := by
  rw [declare, Work.run_bind] at h
  rcases hr : (reserve here name).run.run w with ⟨e | u, w₁⟩ <;> rw [hr] at h
  · cases h
  obtain ⟨hsight, hsignals, hh₁⟩ := reserve_eq_ok hh hr
  dsimp only at h
  rw [Work.run_bind, Work.run_liftM] at h
  cases dims with
  | error e => cases h
  | ok ds =>
    dsimp only at h
    rw [Work.run_bind, Work.run_get] at h
    dsimp only at h
    split_ifs at h
    · cases h
    · cases h
      refine ⟨?_, ds, rfl, ?_⟩
      · rw [← hsight]; exact sight_updateInstance hh₁ _
      · have hfield : w₁.field = w.field := congrArg Sight.field hsight
        have hpath : (w₁.instanceAt here).path = (w.instanceAt here).path :=
          congrArg Sight.path hsight
        have hdecl : (w₁.instanceAt here).declarations = (w.instanceAt here).declarations :=
          congrArg Sight.declarations hsight
        rw [hfield, hpath, hdecl, hsignals]

/-- What is shown after a row was added, reported and noted. -/
theorem sight_record (hh : here < w.instances.size) {draft : Draft} {row : ℕ} (level : Log.Level)
    (source : Log.Source) (text : String) (hr : row = w.draft.rows.size)
    (hd : draft.rows.size = w.draft.rows.size + 1) :
    (record here row ({ w with draft }.report level source text)).sight here =
      (w.sight here).emit := by
  have hh' : here < ({ w with draft }.report level source text).instances.size := hh
  rw [record, sight_updateInstance hh', hr]
  simp [sight, Sight.emit, report, instanceAt, hd]

/-- An accepted assignment adds a row. -/
theorem assign_eq_ok {target : Signal} {e : Expr} {u : Unit} (hh : here < w.instances.size)
    (h : (assign here target (.ok e)).run.run w = (.ok u, w')) :
    w'.sight here = (w.sight here).emit := by
  simp only [assign, addAssignment, Work.run_bind, Work.run_get, Work.run_liftM, Work.run_set,
    Work.run_modify, Work.run_pure] at h
  rcases hw : writable (w.instanceAt here) target with e' | _ <;> rw [hw] at h <;> dsimp only at h
  · cases h
  rcases hd : w.draft.assign target e (w.instanceAt here).path with e' | ⟨row, draft⟩ <;>
    rw [hd] at h <;> dsimp only at h
  · cases h
  rcases hc : Clash.add e (Expr.ofSignal target).neg with e' | _ <;> rw [hc] at h <;> cases h
  obtain ⟨-, -, hr, a, b, c, -, rfl⟩ := Draft.assign_eq_ok hd
  exact sight_record hh _ _ _ hr (by simp)

/-- An accepted equality adds a row, unless both sides are constants. -/
theorem constrain_eq_ok {l r : Expr} {u : Unit} (hh : here < w.instances.size)
    (h : (constrain here l r).run.run w = (.ok u, w')) :
    w'.sight here = if max l.degree r.degree = 0 then w.sight here else (w.sight here).emit := by
  simp only [constrain, addEquality, Work.run_bind, Work.run_get, Work.run_liftM] at h
  rcases hd : w.draft.constrain l r (w.instanceAt here).path with e | ⟨row, draft⟩ <;>
    rw [hd] at h <;> dsimp only at h
  · cases h
  rcases hc : Clash.add l r.neg with e | _ <;> rw [hc] at h
  · cases h
  obtain ⟨-, -, -, ⟨hdeg, -, rfl, -⟩ | ⟨hdeg, rfl, a, b, c, -, rfl⟩⟩ := Draft.constrain_eq_ok hd
  · cases h; rw [if_pos hdeg]
  · cases h; rw [if_neg hdeg]; exact sight_record hh _ _ _ rfl (by simp)

/-- An accepted hint adds no row. -/
theorem hint_eq_ok {target : Signal} {hint : Hint} {deps : List Expr} {u : Unit}
    (h : (Workspace.hint here target hint (.ok deps)).run.run w = (.ok u, w')) :
    w'.sight here = w.sight here := by
  simp only [Workspace.hint, addHint, Work.run_bind, Work.run_get, Work.run_liftM, Work.run_set,
    Work.run_modify] at h
  rcases hw : writable (w.instanceAt here) target with e' | _ <;> rw [hw] at h <;> dsimp only at h
  · cases h
  rcases hd : w.draft.hint target hint (.ok deps) (w.instanceAt here).path with e' | draft <;>
    rw [hd] at h <;> dsimp only at h
  · cases h
  obtain ⟨-, es, -, rfl⟩ := Draft.hint_eq_ok hd
  rcases ha : (Except.ok deps).bind (·.mapM Expr.written) with e' | args <;> rw [ha] at h <;>
    cases h
  rfl

end Workspace

/-! ## Statements -/

namespace Build

variable {σ : Type} {here : ℕ} {s s' : Workspace × σ} {sts : List Statement} {u : Unit}

theorem runs_declare {role : Role} {name : String} {dims : List Value} {bus : Bus}
    (h : (declare role name dims : Build σ Bus).Runs here s sts bus s') : sts = [] ∧
      s'.1.sight here = (s.1.sight here).declare ⟨name, role, bus⟩ ∧ ∃ ds, sizes dims = .ok ds ∧
      bus = (Workspace.makeBus s.1.field role (s.1.instanceAt here).path (ds.map Int.toNat)
        [0, here, (s.1.instanceAt here).declarations.length]
        s!"{(s.1.instanceAt here).path}.{name}" s.1.signals).1 := by
  obtain ⟨hrun, rfl⟩ := runs_request h
  exact ⟨rfl, Workspace.declare_eq_ok h.lt hrun⟩

theorem runs_signal {role : Role} {name : String} {x : Signal}
    (h : (signal role name : Build σ Signal).Runs here s sts x s') :
    sts = [] ∧ s'.1.sight here = (s.1.sight here).declare ⟨name, role, .single x⟩ := by
  obtain ⟨bus, s₁, xs, ys, hd, hrest, rfl⟩ := runs_bind h
  obtain ⟨rfl, hsight, -⟩ := runs_declare hd
  cases bus with
  | single y =>
    obtain ⟨rfl, rfl, rfl⟩ := runs_pure hrest
    exact ⟨rfl, hsight⟩
  | array _ _ _ => cases hrest.run

/-- A row of two signals. -/
theorem runs_pair {role : Role} {name : String} {xs : List Signal}
    (h : (signals role name (.int 2) : Build σ (List Signal)).Runs here s sts xs s') :
    sts = [] ∧ ∃ x y mark, xs = [x, y] ∧ s'.1.sight here =
      (s.1.sight here).declare ⟨name, role, .array [.single x, .single y] [2] mark⟩ := by
  obtain ⟨bus, s₁, _, _, hd, hrest, rfl⟩ := runs_bind h
  obtain ⟨rfl, hsight, ds, hds, hbus⟩ := runs_declare hd
  obtain ⟨rfl, rfl, rfl⟩ := runs_pure hrest
  cases hds
  rw [hsight, hbus]
  exact ⟨rfl, _, _, _, rfl, rfl⟩

theorem runs_field {f : PrimeField} (h : (field : Build σ PrimeField).Runs here s sts f s') :
    sts = [] ∧ f = s.1.field ∧ s'.1 = s.1 := by
  obtain ⟨hrun, rfl⟩ := runs_request h
  obtain ⟨hf, hs⟩ := Prod.ext_iff.1 hrun
  exact ⟨rfl, (Except.ok.inj hf).symm, hs.symm⟩

theorem runs_const {n : Int} {e : Expr} (h : (const n : Build σ Expr).Runs here s sts e s') :
    sts = [] ∧ e = .ofInt s.1.field n ∧ s'.1 = s.1 := by
  obtain ⟨f, s₁, xs, ys, hf, hrest, rfl⟩ := runs_bind h
  obtain ⟨rfl, rfl, hs⟩ := runs_field hf
  obtain ⟨rfl, rfl, rfl⟩ := runs_pure hrest
  exact ⟨rfl, rfl, hs⟩

theorem runs_times {a b e : Expr} (h : (times a b : Build σ Expr).Runs here s sts e s') :
    a.mul b = .ok e ∧ s' = s ∧ sts = [] := runs_demand h

theorem runs_assign {target : Signal} {e : Expr}
    (h : (assign target e : Build σ Unit).Runs here s sts u s') :
    sts = [.assign (s.1.sight here).path target e] ∧ s'.1.sight here = (s.1.sight here).emit := by
  obtain ⟨hrun, rfl⟩ := runs_request h
  exact ⟨rfl, Workspace.assign_eq_ok h.lt hrun⟩

theorem runs_constrain {l r : Expr} (h : (constrain l r : Build σ Unit).Runs here s sts u s') :
    sts = [.constrain (s.1.sight here).path l r] ∧ s'.1.sight here =
      if max l.degree r.degree = 0 then s.1.sight here else (s.1.sight here).emit := by
  obtain ⟨hrun, rfl⟩ := runs_request h
  exact ⟨rfl, Workspace.constrain_eq_ok h.lt hrun⟩

theorem runs_hint {target : Signal} {hint : Hint} {dep : Expr}
    (h : (Build.hint target hint dep : Build σ Unit).Runs here s sts u s') :
    sts = [.hint (s.1.sight here).path target hint [dep]] ∧ s'.1.sight here = s.1.sight here := by
  obtain ⟨hrun, rfl⟩ := runs_request h
  exact ⟨rfl, Workspace.hint_eq_ok hrun⟩

end Build

end RankOne
