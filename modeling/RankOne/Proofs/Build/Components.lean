/-
  RankOne — components, and what the rest of a compilation leaves of them.

  * `Run.frame`, `Run.grows`: a component that does not act keeps its declarations and
    rows, and none loses one;
  * `Stage`: how a component was built: a run of its program on a fresh instance,
    between what was executed before and after;
  * `Program.components_staged`, `compile_stage`: every component has one;
  * `Run.children`: only components are hung into the tree.
-/
import RankOne.Proofs.Build.Sound

namespace RankOne

namespace Workspace

variable {S A : Set ℕ} {w w' : Workspace} {sts : List Statement}

/-! ## Frames -/

/-- A move changes no other component. -/
theorem Move.frame {here j : ℕ} (h : Move here w w') (hj : j < w.instances.size) (hne : j ≠ here) :
    w'.instanceAt j = w.instanceAt j := by
  cases h with
  | reserve => rw [instanceAt_updateInstance, if_neg fun h => hne h.1.symm]
  | declare => rw [instanceAt_withDeclared, if_neg fun h => hne h.1.symm]
  | record => rw [Workspace.record, instanceAt_updateInstance, if_neg fun h => hne h.1.symm]
  | enter => rw [instanceAt_push, if_neg (by omega)]
  | keep _ _ _ _ hi => rw [instanceAt, hi]; rfl

/-- **A component that does not act in a chain keeps its declarations and rows.** -/
theorem Run.frame {j : ℕ} (h : Run S A w sts w') (hj : j < w.instances.size) (hS : j ∉ S) :
    (w'.instanceAt j).declarations = (w.instanceAt j).declarations ∧
      (w'.instanceAt j).rows = (w.instanceAt j).rows := by
  induction h with
  | done => exact ⟨rfl, rfl⟩
  | move hh hm _ ih =>
    rw [← hm.frame hj fun h => hS (h ▸ hh)]
    exact ih (Nat.lt_of_lt_of_le hj hm.size_le)
  | attach id name _ _ _ ih =>
    rw [size_updateInstance, instanceAt_updateInstance] at ih
    split_ifs at ih <;> exact ih hj
  | state _ _ ih => exact ih hj

/-- A move takes back no declaration and no row. -/
theorem Move.grows {here : ℕ} (h : Move here w w') (j : ℕ) :
    (w.instanceAt j).declarations ⊆ (w'.instanceAt j).declarations ∧
      (w.instanceAt j).rows ⊆ (w'.instanceAt j).rows := by
  cases h with
  | reserve =>
    rw [instanceAt_updateInstance]
    split_ifs <;> exact ⟨.refl _, .refl _⟩
  | declare =>
    rw [instanceAt_withDeclared]
    split_ifs
    · exact ⟨List.subset_append_left _ _, .refl _⟩
    · exact ⟨.refl _, .refl _⟩
  | record =>
    rw [Workspace.record, instanceAt_updateInstance]
    split_ifs
    · exact ⟨.refl _, List.subset_append_left _ _⟩
    · exact ⟨.refl _, .refl _⟩
  | enter =>
    rw [instanceAt_push]
    split_ifs with hj
    · rw [hj, instanceAt_of_le le_rfl]
      exact ⟨List.nil_subset _, List.nil_subset _⟩
    · exact ⟨.refl _, .refl _⟩
  | keep _ _ _ _ hi =>
    rw [instanceAt, instanceAt, hi]
    exact ⟨.refl _, .refl _⟩

/-- **A component keeps what it has declared and emitted.** -/
theorem Run.grows (h : Run S A w sts w') (j : ℕ) :
    (w.instanceAt j).declarations ⊆ (w'.instanceAt j).declarations ∧
      (w.instanceAt j).rows ⊆ (w'.instanceAt j).rows := by
  induction h with
  | done => exact ⟨.refl _, .refl _⟩
  | move _ hm _ ih =>
    exact ⟨List.Subset.trans (hm.grows j).1 ih.1, List.Subset.trans (hm.grows j).2 ih.2⟩
  | attach id name _ _ _ ih =>
    rw [instanceAt_updateInstance] at ih
    split_ifs at ih <;> exact ih
  | state _ _ ih => exact ih

theorem Move.field {here : ℕ} (h : Move here w w') : w'.field = w.field := by
  cases h with
  | reserve | declare | enter | record => rfl
  | keep hf => exact hf

theorem Run.field (h : Run S A w sts w') : w'.field = w.field := by
  induction h with
  | done => rfl
  | move _ hm _ ih => rw [ih, hm.field]
  | attach _ _ _ _ _ ih | state _ _ ih => exact ih

theorem Move.children {here : ℕ} (h : Move here w w') (j : ℕ) :
    (w'.instanceAt j).children = (w.instanceAt j).children := by
  cases h with
  | reserve => rw [instanceAt_updateInstance]; split_ifs <;> rfl
  | declare => rw [instanceAt_withDeclared]; split_ifs <;> rfl
  | record => rw [Workspace.record, instanceAt_updateInstance]; split_ifs <;> rfl
  | enter =>
    rw [instanceAt_push]
    split_ifs with h
    · rw [h, instanceAt, Array.getD_eq_getD_getElem?, Array.getElem?_eq_none (le_refl _)]; rfl
    · rfl
  | keep _ _ _ _ hi => rw [instanceAt, hi]; rfl

theorem mem_attach {name : String} {id : ℕ} {q : String × ℕ} : ∀ {cs : List (String × ℕ)},
    q ∈ Instance.attach name id cs → q ∈ cs ∨ q = (name, id)
  | [], h => Or.inr (List.mem_singleton.1 h)
  | (n, i) :: cs, h => by
    rw [Instance.attach] at h
    split_ifs at h with hn
    · rcases List.mem_cons.1 h with rfl | h
      · exact Or.inr (by rw [hn])
      · exact Or.inl (List.mem_cons_of_mem _ h)
    · rcases List.mem_cons.1 h with rfl | h
      · exact Or.inl List.mem_cons_self
      · exact (mem_attach h).imp_left (List.mem_cons_of_mem _)

/-- What a chain hangs into the tree. -/
theorem Run.children (h : Run S A w sts w') {j : ℕ} {q : String × ℕ}
    (hq : q ∈ (w'.instanceAt j).children) : q ∈ (w.instanceAt j).children ∨ q.2 ∈ A := by
  induction h with
  | done => exact Or.inl hq
  | move _ hm _ ih => rw [← hm.children]; exact ih hq
  | attach id name hchild _ _ ih =>
    rcases ih hq with h | h
    · rw [instanceAt_updateInstance] at h
      split_ifs at h
      · refine (mem_attach h).imp_right fun he => ?_
        rw [he]; exact hchild
      · exact Or.inl h
    · exact Or.inr h
  | state _ _ ih => exact ih hq

end Workspace

/-! ## Stages -/

/-- How the component of number `id` was built by a program between two workspaces:
    the program ran on a fresh instance, and the component did not act again. -/
structure Stage {σ : Type} (id : ℕ) (body : Program σ (Except Error Unit)) (w : Workspace)
    (sts : List Statement) (w' : Workspace) (pre post : List Statement) (s s' : Workspace × σ) :
    Prop where
  before : Workspace.Run Set.univ Set.univ w pre s.1
  lt : id < s.1.instances.size
  fresh : (s.1.instanceAt id).declarations = [] ∧ (s.1.instanceAt id).rows = []
  run : body.run id s = (.ok (), s')
  statements : sts = pre ++ body.statements id s ++ post
  after : Workspace.Run {id}ᶜ Set.univ s'.1 post w'

section
variable {σ : Type} {id : ℕ} {body : Program σ (Except Error Unit)} {w₀ w w' w₁ : Workspace}
  {xs sts ys pre post : List Statement} {s s' : Workspace × σ} {S A : Set ℕ}

/-- The stage of a component that acts alone. -/
theorem Stage.alone (hlt : id < s.1.instances.size)
    (hfresh : (s.1.instanceAt id).declarations = [] ∧ (s.1.instanceAt id).rows = [])
    (hrun : body.run id s = (.ok (), s')) :
    Stage id body s.1 (body.statements id s) s'.1 [] [] s s' where
  before := .done s.1
  lt := hlt
  fresh := hfresh
  run := hrun
  statements := (List.append_nil _).symm
  after := .done s'.1

theorem Stage.prepend (h : Stage id body w sts w' pre post s s')
    (hpre : Workspace.Run S A w₀ xs w) : Stage id body w₀ (xs ++ sts) w' (xs ++ pre) post s s' :=
  { h with
    before := hpre.any.trans h.before
    statements := by rw [h.statements]; simp }

theorem Stage.run_body (h : Stage id body w sts w' pre post s s') :
    Workspace.Run Set.univ Set.univ s.1 (body.statements id s) s'.1 := by
  have hrun := body.run_spec s.2 h.lt
  rw [h.run] at hrun
  exact hrun.any

/-- A stage is part of a chain. -/
theorem Stage.chain (h : Stage id body w sts w' pre post s s') :
    Workspace.Run Set.univ Set.univ w sts w' := by
  rw [h.statements]
  exact (h.before.trans h.run_body).trans h.after.any

/-- A component that was built is there at the end. -/
theorem Stage.lt_end (h : Stage id body w sts w' pre post s s') : id < w'.instances.size :=
  Nat.lt_of_lt_of_le h.lt (h.run_body.size_le.trans h.after.size_le)

theorem Stage.append (h : Stage id body w sts w' pre post s s') (hid : id ∉ S)
    (hpost : Workspace.Run S A w' ys w₁) : Stage id body w (sts ++ ys) w₁ pre (post ++ ys) s s' :=
  { h with
    statements := by rw [h.statements]; simp
    after := h.after.trans (hpost.mono (fun _ hj hji => hid (hji ▸ hj)) (Set.subset_univ _)) }

end

namespace Workspace

/-- Only a child that was built is hung into the tree. -/
theorem built_of_closeChild {place : Place} {parent id : ℕ} {name : String}
    {built : Except Error Unit} {w w' : Workspace} {c : Component}
    (h : (closeChild place parent name id built).run.run w = (.ok c, w')) : built = .ok () := by
  cases built with
  | error e => cases h
  | ok u => rfl

end Workspace

namespace Program

variable {σ : Type}

/-- **Every component of a run was built on a stage.** -/
theorem components_staged {α : Type} : ∀ (p : Program σ α) {here : ℕ} {w : Workspace} (h : σ),
    here < w.instances.size → ∀ {id : ℕ} {body : Program σ (Except Error Unit)},
      (id, body) ∈ p.components here (w, h) → w.instances.size ≤ id ∧ ∃ pre post s s',
        Stage id body w (p.statements here (w, h)) (p.run here (w, h)).2.1 pre post s s'
  | .pure _, _, _, _, _, _, _, hm => by cases hm
  | .request c next, here, w, h, hh, id, body, hm => by
    have hc := perform_spec hh c
    obtain ⟨hid, pre, post, s, s', hst⟩ := components_staged (next ((c.perform here).run.run w).1) h
      (Nat.lt_of_lt_of_le hh hc.size_le) hm
    exact ⟨hc.size_le.trans hid, _, _, s, s', hst.prepend hc⟩
  | .child place application sub next, here, w, h, hh, id, body, hm => by
    have hopen := Workspace.run_openChild hh place application
    rcases ho : (Workspace.openChild here place application).run.run w with
      ⟨e | ⟨parent, name, k⟩, w₁⟩ <;> rw [ho] at hopen <;>
      simp only [run, statements, components, ho] at hm ⊢
    · obtain ⟨hid, pre, post, s, s', hst⟩ := components_staged (next (.error e)) h
        (Nat.lt_of_lt_of_le hh hopen.size_le) hm
      exact ⟨hopen.size_le.trans hid, _, _, s, s', hst.prepend hopen⟩
    · obtain ⟨hk, hsize, -⟩ := Workspace.openChild_eq_ok ho
      obtain ⟨w₀, hfresh⟩ := Workspace.instanceAt_openChild ho
      rcases hb : sub.run k (w₁, h) with ⟨built, w₂, h₂⟩
      rw [hb] at hm
      rcases hc : (Workspace.closeChild place parent name k built).run.run w₂ with ⟨r, w₃⟩
      simp only [hc, List.mem_append] at hm ⊢
      have hp := placing hh ho hb hc
      have hh₃ : here < w₃.instances.size := Nat.lt_of_lt_of_le hh hp.run.size_le
      have hrest := (hp.leave.mono singleton_subset_actors subset_rfl).trans
        ((@run_spec σ _ (next r) here w₃ h₂ hh₃).mono subset_rfl (Set.subset_univ _))
      have hidle {j : ℕ} (hj : k ≤ j) (hj' : j < w₂.instances.size) : j ∉ actors here w₃ :=
        fun hmem => (hp.idle hh hj le_rfl j hmem).elim (lt_irrefl j) (not_le.2 hj')
      rcases hm with (hm | hm) | hm
      · obtain ⟨hid, pre, post, s, s', hst⟩ := components_staged sub h hp.lt hm
        rw [hb] at hst
        exact ⟨by omega, _, _, s, s',
          (hst.append (hidle (by omega) hst.lt_end) hrest).prepend hopen⟩
      · cases r with
        | error e => cases hm
        | ok c =>
          obtain ⟨rfl, rfl⟩ := Prod.mk.inj (List.mem_singleton.1 hm)
          obtain rfl := Workspace.built_of_closeChild hc
          have hst : Stage id body w₁ (body.statements id (w₁, h)) w₂ [] [] (w₁, h) (w₂, h₂) :=
            .alone hp.lt (by rw [hfresh]; exact ⟨rfl, rfl⟩) hb
          exact ⟨hk.ge, _, _, _, _, (hst.append (hidle le_rfl hst.lt_end) hrest).prepend hopen⟩
      · obtain ⟨hid, pre, post, s, s', hst⟩ := components_staged (next r) h₂ hh₃ hm
        exact ⟨hp.run.size_le.trans hid, _, _, s, s', hst.prepend hp.run⟩
  | .getHost next, _, _, h, hh, _, _, hm => components_staged (next h) h hh hm
  | .setHost h next, _, _, _, hh, _, _, hm => components_staged next h hh hm

end Program

section
variable {σ : Type} {settings : Settings} {t : Template σ} {host : σ} {public_ : List String}
  {c : Circuit}

/-- **Every component of a compilation was built on a stage**, between the opening of
    the main component and the workspace that the circuit is made of. -/
theorem compile_stage (h : (compile settings t host public_).result = .ok c) {id : ℕ}
    {body : Program σ (Except Error Unit)} (hid : (id, body) ∈ components settings t host) :
    ∃ field w pre post s s', settings.field = .ok field ∧
      Stage id body (t.opened field settings.dangling) (executed settings t host) w pre post s s' ∧
      Circuit.ofWorkspace settings w 0 public_ = .ok c := by
  obtain ⟨field, w₁, host₁, w, hf, hrun, -, hclose, hc⟩ := compile_run h
  have hex : executed settings t host =
      Program.statements t.body.run 0 (t.opened field settings.dangling, host) := by
    unfold executed; rw [hf]; rfl
  have hbody {pre post s s'} (hst : Stage id body (t.opened field settings.dangling)
      (Program.statements t.body.run 0 (t.opened field settings.dangling, host)) w₁ pre post s s') :
      Stage id body (t.opened field settings.dangling) (executed settings t host) w pre post
        s s' := by
    have := hst.append (S := {id + 1}) (by simp) (hclose (id + 1))
    rwa [List.append_nil, List.append_nil, ← hex] at this
  rw [components, hf] at hid
  rcases List.mem_cons.1 hid with heq | hid
  · obtain ⟨rfl, rfl⟩ := Prod.mk.inj heq
    exact ⟨field, w, [], [], _, _, hf, hbody (.alone Nat.zero_lt_one ⟨rfl, rfl⟩ hrun), hc⟩
  · obtain ⟨-, pre, post, s, s', hst⟩ := Program.components_staged t.body.run host
      Nat.zero_lt_one hid
    rw [hrun] at hst
    exact ⟨field, w, pre, post, s, s', hf, hbody hst, hc⟩

end

end RankOne
