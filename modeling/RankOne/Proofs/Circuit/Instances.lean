/-
  RankOne — the components of a compiled circuit.

  * `walk_components`: the tree of a circuit consists of components of its
    compilation;
  * `declared_mem_signals`: what a component declares are signals of the circuit;
  * `compile_component`: what a component shows when its program has run is what the
    circuit keeps of it, and its rows are those of its own statements.
-/
import RankOne.Proofs.Build.Trace
import RankOne.Proofs.Circuit.Coherent

namespace RankOne

section
variable {σ : Type} {settings : Settings} {t : Template σ} {host : σ} {public_ : List String}
  {c : Circuit}

namespace Circuit

/-- The component of a number. -/
def instanceAt (c : Circuit) (id : ℕ) : Instance := c.instances.getD id default

theorem instances_of_workspace {w : Workspace} (h : ofWorkspace settings w 0 public_ = .ok c) :
    c.instances = w.instances := by
  obtain ⟨-, -, w', hb, -, -, -, -, -, -, -, hi, -⟩ := ofWorkspace_eq_ok h
  obtain ⟨-, ⟨ps, rfl⟩, -, -⟩ := bindFrom_spec hb
  exact hi

/-- What a circuit takes over from the workspace it is made of. -/
theorem of_workspace {w : Workspace} (hw : w.Sound) (h : ofWorkspace settings w 0 public_ = .ok c) :
    c.field = w.field ∧ (∀ id, c.instanceAt id = w.instanceAt id) ∧ c.main = 0 ∧
      ∀ s, s ∈ c.signals ↔ s ∈ w.signals := by
  obtain ⟨-, -, w', hb, -, -, hf, -, -, hs, -, hi, hm⟩ := ofWorkspace_eq_ok h
  obtain ⟨-, ⟨ps, rfl⟩, -, -⟩ := bindFrom_spec hb
  refine ⟨hf, fun id => by rw [instanceAt, hi]; rfl, hm, fun s => ?_⟩
  rw [hs, List.mem_toArray, mem_layout hw]

end Circuit

/-- The children of the components of a circuit are components. -/
theorem children_components (h : (compile settings t host public_).result = .ok c) {id : ℕ}
    {q : String × ℕ} (hq : q ∈ (c.instanceAt id).children) :
    ∃ body, (q.2, body) ∈ components settings t host := by
  obtain ⟨field, w, -, hrun, hc⟩ := compile_spec h
  have hw := hrun.sound (Workspace.opened_sound t field settings.dangling)
  rw [(Circuit.of_workspace hw hc).2.1] at hq
  rcases hrun.children hq with hq | hq
  · have hnil : ((t.opened field settings.dangling).instanceAt id).children = [] := by
      rcases id with _ | id <;> rfl
    rw [hnil] at hq
    cases hq
  · exact hq

/-- The main component is that of the template compiled. -/
theorem main_component (h : (compile settings t host public_).result = .ok c) :
    (c.main, t.body.run) ∈ components settings t host := by
  obtain ⟨field, w, hf, hrun, hc⟩ := compile_spec h
  have hw := hrun.sound (Workspace.opened_sound t field settings.dangling)
  rw [(Circuit.of_workspace hw hc).2.2.1, components, hf]
  exact List.mem_cons_self

/-- **The tree of a circuit consists of components of its compilation.** -/
theorem walk_components (h : (compile settings t host public_).result = .ok c) :
    ∀ (fuel id : ℕ), (∃ body, (id, body) ∈ components settings t host) →
      ∀ j ∈ Circuit.walkFrom c.instances fuel id, ∃ body, (j, body) ∈ components settings t host
  | 0, _, _, _, hj => by cases hj
  | fuel + 1, id, hid, j, hj => by
    rcases List.mem_cons.1 hj with rfl | hj
    · exact hid
    · obtain ⟨q, hq, hj⟩ := List.mem_flatMap.1 hj
      exact walk_components h fuel q.2 (children_components h hq) j hj

/-- What a component declares are signals of the circuit. -/
theorem declared_mem_signals (h : (compile settings t host public_).result = .ok c) (id : ℕ) :
    ∀ s ∈ (c.instanceAt id).declarations.flatMap (·.bus.flat), s ∈ c.signals := by
  intro s hs
  obtain ⟨d, hd, hs⟩ := List.mem_flatMap.1 hs
  obtain ⟨field, w, -, hrun, hc⟩ := compile_spec h
  have hw := hrun.sound (Workspace.opened_sound t field settings.dangling)
  obtain ⟨-, hat, -, hsig⟩ := Circuit.of_workspace hw hc
  rw [hat] at hd
  exact (hsig s).2 (hw.declared id d hd s hs).1

/-- **What the circuit keeps of a component is what it shows when its program has
    run**, starting with nothing declared or emitted, amid the rows of the others. -/
theorem compile_component (h : (compile settings t host public_).result = .ok c) {id : ℕ}
    {b : Build σ Unit} (hid : (id, b.run) ∈ components settings t host) :
    ∃ pre sts post s s', executed settings t host = pre ++ sts ++ post ∧ b.Runs id s sts () s' ∧
      (∃ path, s.1.sight id = ⟨c.field, path, [], [], (pre.filter Statement.emitsRow).length⟩) ∧
      (c.instanceAt id).declarations = (s'.1.sight id).declarations ∧
      (c.instanceAt id).rows = (s'.1.sight id).rows := by
  obtain ⟨field, w, pre, post, s, s', -, hst, hc⟩ := compile_stage h hid
  have hw := hst.chain.sound (Workspace.opened_sound t field settings.dangling)
  obtain ⟨hf, hat, -, -⟩ := Circuit.of_workspace hw hc
  have hruns : b.Runs id s _ () s' := ⟨hst.lt, hst.run, rfl⟩
  have hfield : s.1.field = c.field := by rw [hf, hst.chain.field, hst.before.field]
  have hcount : s.1.draft.rows.size = (pre.filter Statement.emitsRow).length := by
    obtain ⟨rows, hrows, hemits⟩ := hst.before.rows
    rw [hemits.length_eq, ← Array.length_toList, hrows]
    rfl
  refine ⟨pre, _, post, s, s', hst.statements, hruns, ⟨(s.1.instanceAt id).path, ?_⟩, ?_⟩
  · rw [Workspace.sight, hfield, hcount, hst.fresh.1, hst.fresh.2]
  · rw [hat]
    exact hst.after.frame (Nat.lt_of_lt_of_le hst.lt hruns.size_le) (by simp)

end

end RankOne
