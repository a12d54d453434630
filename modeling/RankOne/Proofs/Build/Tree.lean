/-
  RankOne — the tree of components.

  * `Workspace.Tree`: every component but the main one was entered by an earlier one,
    below whose path it stands, and only what a component entered hangs in it;
  * `Run.tree`: it holds throughout;
  * `Program.states`, `buildStates`: the workspaces that a compilation passes through;
  * `buildStates_run`: they are reached by chains of moves and statements.
-/
import RankOne.Proofs.Build.Components

namespace RankOne

namespace Workspace

/-- The tree of the components. -/
structure Tree (w : Workspace) : Prop where
  pos : 0 < w.instances.size
  root : (w.instanceAt 0).parent = none
  /-- a component stands below the one that entered it, which came before -/
  parent : ∀ id < w.instances.size, id ≠ 0 → ∃ p < id, (w.instanceAt id).parent = some p ∧
    (w.instanceAt id).path = s!"{(w.instanceAt p).path}.{(w.instanceAt id).name}"
  children : ∀ p, ∀ q ∈ (w.instanceAt p).children, w.Entered p q.1 q.2

section
variable {S A : Set ℕ} {w w' : Workspace} {sts : List Statement}

theorem seat_eq_iff {j k : ℕ} : w'.seat j = w.seat k ↔
    (w'.instanceAt j).path = (w.instanceAt k).path ∧
      (w'.instanceAt j).parent = (w.instanceAt k).parent ∧
      (w'.instanceAt j).name = (w.instanceAt k).name := by
  simp [seat]

/-- A component is entered after its parent, and stands under its local name below
    it. -/
theorem Tree.of_entered (hw : w.Tree) {p child : ℕ} {name : String} (h : w.Entered p name child) :
    p < child ∧ (w.instanceAt child).path = s!"{(w.instanceAt p).path}.{name}" := by
  have h₀ : child ≠ 0 := by
    rintro rfl
    have := hw.root.symm.trans h.parent
    cases this
  obtain ⟨p', hlt, hparent, hpath⟩ := hw.parent child h.lt h₀
  obtain rfl : p = p' := Option.some.inj (h.parent.symm.trans hparent)
  exact ⟨hlt, by rw [hpath, h.name]⟩

/-- What every component keeps of its seat, it keeps of the tree. -/
theorem Tree.of_seat (hw : w.Tree) (hsize : w'.instances.size = w.instances.size)
    (hseat : ∀ j < w.instances.size, w'.seat j = w.seat j)
    (hchildren : ∀ p, ∀ q ∈ (w'.instanceAt p).children,
      q ∈ (w.instanceAt p).children ∨ w.Entered p q.1 q.2) : w'.Tree where
  pos := hsize ▸ hw.pos
  root := (seat_eq_iff.1 (hseat 0 hw.pos)).2.1.trans hw.root
  parent id hid h₀ := by
    rw [hsize] at hid
    obtain ⟨p, hp, hparent, hpath⟩ := hw.parent id hid h₀
    obtain ⟨hpath', hparent', hname'⟩ := seat_eq_iff.1 (hseat id hid)
    refine ⟨p, hp, hparent'.trans hparent, ?_⟩
    rw [hpath', hname', (seat_eq_iff.1 (hseat p (hp.trans hid))).1, hpath]
  children p q hq := by
    have he : w.Entered p q.1 q.2 := (hchildren p q hq).elim (hw.children p q) id
    obtain ⟨-, hparent, hname⟩ := seat_eq_iff.1 (hseat q.2 he.lt)
    exact ⟨hsize ▸ he.lt, hparent.trans he.parent, hname.trans he.name⟩

theorem Tree.enter (hw : w.Tree) {parent : ℕ} (hparent : parent < w.instances.size) (name : String)
    (application : Application) :
    Tree { w with instances := w.instances.push (w.freshChild parent name application) } := by
  have hat (j : ℕ) := instanceAt_push w (w.freshChild parent name application) j
  have hsize : (w.instances.push (w.freshChild parent name application)).size =
      w.instances.size + 1 := by simp
  refine ⟨by rw [hsize]; omega, ?_, fun id hid h₀ => ?_, fun p q hq => ?_⟩
  · rw [hat, if_neg hw.pos.ne]
    exact hw.root
  · rw [hsize] at hid
    by_cases hnew : id = w.instances.size
    · refine ⟨parent, hnew ▸ hparent, ?_⟩
      simp only [hat, if_pos hnew, if_neg hparent.ne]
      exact ⟨rfl, rfl⟩
    · obtain ⟨p, hp, h⟩ := hw.parent id (by omega) h₀
      refine ⟨p, hp, ?_⟩
      simp only [hat, if_neg hnew, if_neg (show p ≠ w.instances.size by omega)]
      exact h
  · have hmove : Move 0 w _ := .enter parent name application hparent
    have hq : q ∈ (w.instanceAt p).children := hmove.children p ▸ hq
    obtain ⟨hlt, hp, hn⟩ := hw.children p q hq
    refine ⟨by rw [hsize]; omega, ?_, ?_⟩ <;> rw [hat, if_neg hlt.ne]
    · exact hp
    · exact hn

theorem Move.tree {here : ℕ} (h : Move here w w') (hw : w.Tree) : w'.Tree := by
  have hseat (j : ℕ) (hj : j < w.instances.size) := h.seat hj
  have hchildren (p : ℕ) (q : String × ℕ) (hq : q ∈ (w'.instanceAt p).children) :
      q ∈ (w.instanceAt p).children ∨ w.Entered p q.1 q.2 := Or.inl (h.children p ▸ hq)
  cases h with
  | reserve | declare | record =>
    exact hw.of_seat (size_updateInstance _ _ _) hseat hchildren
  | enter parent name application hparent => exact hw.enter hparent name application
  | keep _ _ _ _ hi => exact hw.of_seat (by rw [hi]) hseat hchildren

/-- **Every chain of moves and statements keeps the tree.** -/
theorem Run.tree (h : Run S A w sts w') (hw : w.Tree) : w'.Tree := by
  induction h with
  | done => exact hw
  | move _ hm _ ih => exact ih (hm.tree hw)
  | attach id name _ he _ ih =>
    refine ih (hw.of_seat (size_updateInstance _ _ _)
      (fun j _ => seat_updateInstance _ id j fun _ => ⟨rfl, rfl, rfl⟩) fun p q hq => ?_)
    rw [instanceAt_updateInstance] at hq
    split_ifs at hq with hp
    · refine (mem_attach hq).imp_right fun hq => ?_
      rw [hq, ← hp.1]
      exact he
    · exact Or.inl hq
  | state _ _ ih => exact ih (hw.of_seat rfl (fun _ _ => rfl) fun _ _ hq => Or.inl hq)

theorem opened_tree {σ : Type} (t : Template σ) (field : PrimeField) (policy : DanglingPolicy) :
    (t.opened field policy).Tree where
  pos := Nat.zero_lt_one
  root := rfl
  parent id hid h₀ := absurd (Nat.lt_one_iff.1 hid) h₀
  children p q hq := by
    have hnil : ((t.opened field policy).instanceAt p).children = [] := by
      rcases p with _ | p <;> rfl
    rw [hnil] at hq
    cases hq

end

end Workspace

/-! ## States -/

namespace Program

variable {σ : Type}

/-- The workspaces that a run of a program passes through, those of children in their
    place. -/
def states {α : Type} : Program σ α → Nat → Workspace × σ → List Workspace
  | .pure _, _, (w, _) => [w]
  | .request c next, here, (w, h) =>
    let (r, w') := (c.perform here).run.run w
    w :: (next r).states here (w', h)
  | .child place application body next, here, (w, h) =>
    w :: match (Workspace.openChild here place application).run.run w with
    | (.error e, w) => (next (.error e)).states here (w, h)
    | (.ok (parent, name, id), w) =>
      let (built, (w', h')) := body.run id (w, h)
      let (r, w'') := (Workspace.closeChild place parent name id built).run.run w'
      body.states id (w, h) ++ (next r).states here (w'', h')
  | .getHost next, here, (w, h) => (next h).states here (w, h)
  | .setHost h next, here, (w, _) => next.states here (w, h)

/-- **A run passes through workspaces that chains lead to.** -/
theorem states_run {α : Type} (p : Program σ α) : ∀ {here : ℕ} {w : Workspace} (h : σ),
    here < w.instances.size → ∀ v ∈ p.states here (w, h),
      ∃ sts, Workspace.Run Set.univ Set.univ w sts v := by
  induction p with
  | pure a =>
    intro here w h hh v hv
    rw [List.mem_singleton.1 hv]
    exact ⟨[], .done w⟩
  | request c next ih =>
    intro here w h hh v hv
    have hc := perform_spec hh c
    rcases List.mem_cons.1 hv with rfl | hv
    · exact ⟨[], .done v⟩
    · obtain ⟨sts, hrun⟩ := ih _ h (Nat.lt_of_lt_of_le hh hc.size_le) v hv
      exact ⟨_, hc.any.trans hrun⟩
  | child place application body next ihbody ihnext =>
    intro here w h hh v hv
    rw [states] at hv
    rcases List.mem_cons.1 hv with rfl | hv
    · exact ⟨[], .done v⟩
    have hopen := Workspace.run_openChild hh place application
    rcases ho : (Workspace.openChild here place application).run.run w with
      ⟨e | ⟨parent, name, id⟩, w₁⟩ <;> rw [ho] at hopen hv
    · obtain ⟨sts, hrun⟩ := ihnext _ h (Nat.lt_of_lt_of_le hh hopen.size_le) v hv
      exact ⟨_, hopen.any.trans hrun⟩
    · rcases hb : body.run id (w₁, h) with ⟨built, w₂, h₂⟩
      rcases hc : (Workspace.closeChild place parent name id built).run.run w₂ with ⟨r, w₃⟩
      have hp := placing hh ho hb hc
      simp only [hb, hc] at hv
      rcases List.mem_append.1 hv with hv | hv
      · obtain ⟨sts, hrun⟩ := ihbody h hp.lt v hv
        exact ⟨_, hp.enter.any.trans hrun⟩
      · obtain ⟨sts, hrun⟩ := ihnext r h₂ (Nat.lt_of_lt_of_le hh hp.run.size_le) v hv
        exact ⟨_, hp.run.trans hrun⟩
  | getHost next ih => exact fun h hh => ih h h hh
  | setHost h' next ih => exact fun h hh => ih h' hh

end Program

/-- The workspaces that a compilation passes through while templates expand. -/
def buildStates {σ : Type} (settings : Settings) (t : Template σ) (host : σ) : List Workspace :=
  match settings.field with
  | .error _ => []
  | .ok field => Program.states t.body.run 0 (t.opened field settings.dangling, host)

/-- **A compilation passes through workspaces that chains lead to.** -/
theorem buildStates_run {σ : Type} {settings : Settings} {t : Template σ} {host : σ}
    {w : Workspace} (h : w ∈ buildStates settings t host) :
    ∃ field sts, settings.field = .ok field ∧
      Workspace.Run Set.univ Set.univ (t.opened field settings.dangling) sts w := by
  unfold buildStates at h
  cases hf : settings.field with
  | error e => rw [hf] at h; cases h
  | ok field =>
    rw [hf] at h
    obtain ⟨sts, hrun⟩ := Program.states_run t.body.run host Nat.zero_lt_one w h
    exact ⟨field, sts, rfl, hrun⟩

end RankOne
