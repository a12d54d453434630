/-
  RankOne — when components are finished.

  * `Program.finished`, `finished`: the components of a run that are finished, each with
    the workspace at the end of its build, in this order;
  * `Run.childNames_prefix`, `Run.nodup_childNames`: the table of children of a
    component only grows, and has one entry for a local name;
  * `Finish`, `Program.finished_spec`, `compile_finish`: after the end of its build
    neither a component nor one entered meanwhile acts, and it hangs in its parent.
-/
import RankOne.Proofs.Build.Tree

namespace RankOne

/-! ## The table of children -/

theorem names_attach (name : String) (id : ℕ) (cs : List (String × ℕ)) :
    (Instance.attach name id cs).map Prod.fst =
      if name ∈ cs.map Prod.fst then cs.map Prod.fst else cs.map Prod.fst ++ [name] := by
  induction cs with
  | nil => rfl
  | cons q cs ih =>
    obtain ⟨n, i⟩ := q
    rw [Instance.attach]
    by_cases hn : n = name
    · simp [hn]
    · rw [if_neg hn, List.map_cons, ih]
      by_cases hm : name ∈ cs.map Prod.fst <;> simp [hm, Ne.symm hn]

theorem mem_names_attach (name : String) (id : ℕ) (cs : List (String × ℕ)) :
    name ∈ (Instance.attach name id cs).map Prod.fst := by
  rw [names_attach]
  split_ifs with h
  · exact h
  · exact List.mem_append_right _ (List.mem_singleton_self _)

namespace Workspace

/-- The local names of the children of a component. -/
def childNames (w : Workspace) (id : ℕ) : List String := (w.instanceAt id).children.map Prod.fst

variable {S A : Set ℕ} {w w' : Workspace} {sts : List Statement}

theorem Move.childNames {here : ℕ} (h : Move here w w') (j : ℕ) :
    w'.childNames j = w.childNames j := by
  rw [Workspace.childNames, h.children]; rfl

theorem childNames_attach (w : Workspace) (id j : ℕ) (name : String) (child : ℕ) :
    (w.updateInstance id fun c =>
      { c with children := Instance.attach name child c.children }).childNames j =
      if id = j ∧ j < w.instances.size ∧ name ∉ w.childNames j then w.childNames j ++ [name]
      else w.childNames j := by
  rw [childNames, childNames, instanceAt_updateInstance]
  by_cases hj : id = j ∧ j < w.instances.size
  · rw [if_pos hj, names_attach]
    simp only [hj, true_and, ite_not]
  · rw [if_neg hj, if_neg fun h => hj ⟨h.1, h.2.1⟩]

/-- **A table of children only grows.** -/
theorem Run.childNames_prefix (h : Run S A w sts w') (j : ℕ) :
    w.childNames j <+: w'.childNames j := by
  induction h with
  | done => exact List.prefix_rfl
  | move _ hm _ ih => rw [← hm.childNames]; exact ih
  | attach id name _ _ _ ih =>
    refine List.IsPrefix.trans ?_ ih
    rw [childNames_attach]
    split_ifs
    · exact List.prefix_append _ _
    · exact List.prefix_rfl
  | state _ _ ih => exact ih

/-- **A table of children has one entry for a local name.** -/
theorem Run.nodup_childNames (h : Run S A w sts w') (hw : ∀ j, (w.childNames j).Nodup) :
    ∀ j, (w'.childNames j).Nodup := by
  induction h with
  | done => exact hw
  | move _ hm _ ih => exact ih fun j => by rw [hm.childNames]; exact hw j
  | attach id name _ _ _ ih =>
    refine ih fun j => ?_
    rw [childNames_attach]
    split_ifs with hj
    · rw [← List.concat_eq_append]; exact (hw j).concat hj.2.2
    · exact hw j
  | state _ _ ih => exact ih hw

theorem opened_childNames {σ : Type} (t : Template σ) (field : PrimeField)
    (policy : DanglingPolicy) (j : ℕ) : ((t.opened field policy).childNames j).Nodup := by
  rcases j with _ | j <;> exact List.nodup_nil

/-- A child that was left hangs in its parent. -/
theorem childNames_of_closeChild {place : Place} {parent id : ℕ} {name : String}
    {built : Except Error Unit} {c : Component} (hp : parent < w.instances.size)
    (h : (closeChild place parent name id built).run.run w = (.ok c, w')) :
    name ∈ w'.childNames parent := by
  obtain rfl := built_of_closeChild h
  have hcheck := (quiet_checkDangling (w := w) 0 id).run
  rw [closeChild, Work.run_bind, Work.run_liftM] at h
  dsimp only at h
  rw [Work.run_bind] at h
  rcases hd : (checkDangling id).run.run w with ⟨e | u, w₁⟩ <;> rw [hd] at h hcheck
  · cases h
  · simp only [Work.run_bind, Work.run_modify, Work.run_get] at h
    have hp₁ : parent < w₁.instances.size := hp.trans_le hcheck.size_le
    have hmem : name ∈ (w₁.updateInstance parent fun c =>
        { c with children := Instance.attach name id c.children }).childNames parent := by
      rw [childNames, instanceAt_updateInstance, if_pos ⟨rfl, hp₁⟩]
      exact mem_names_attach _ _ _
    cases place <;> cases h <;> exact hmem

end Workspace

/-! ## Ends of builds -/

namespace Program

variable {σ : Type}

/-- The components that a run finishes, by number, with the workspaces at the end of
    their builds; those of children come before them. -/
def finished {α : Type} : Program σ α → Nat → Workspace × σ → List (Nat × Workspace)
  | .pure _, _, _ => []
  | .request c next, here, (w, h) =>
    let (r, w') := (c.perform here).run.run w
    (next r).finished here (w', h)
  | .child place application body next, here, (w, h) =>
    match (Workspace.openChild here place application).run.run w with
    | (.error e, w) => (next (.error e)).finished here (w, h)
    | (.ok (parent, name, id), w) =>
      let (built, (w', h')) := body.run id (w, h)
      let (r, w'') := (Workspace.closeChild place parent name id built).run.run w'
      let own := if r.toOption.isSome then [(id, w')] else []
      body.finished id (w, h) ++ own ++ (next r).finished here (w'', h')
  | .getHost next, here, (w, h) => (next h).finished here (w, h)
  | .setHost h next, here, (w, _) => next.finished here (w, h)

section
variable {α : Type} {place : Place} {application : Application}
  {body : Program σ (Except Error Unit)} {here parent id : ℕ} {name : String}
  {w w₁ w₂ w₃ : Workspace} {h h₂ : σ} {e : Error} {built : Except Error Unit}
  {r : Except Error Component}

/-- A place that is refused is not built in. -/
theorem child_refused (body : Program σ (Except Error Unit))
    (next : Except Error Component → Program σ α) (h : σ)
    (ho : (Workspace.openChild here place application).run.run w = (.error e, w₁)) :
    (child place application body next).run here (w, h) = (next (.error e)).run here (w₁, h) ∧
      (child place application body next).finished here (w, h) =
        (next (.error e)).finished here (w₁, h) := by
  rw [run, finished, ho]
  exact ⟨rfl, rfl⟩

/-- A child is built and left, and its parent goes on with the answer. -/
theorem child_left (next : Except Error Component → Program σ α)
    (ho : (Workspace.openChild here place application).run.run w = (.ok (parent, name, id), w₁))
    (hb : body.run id (w₁, h) = (built, (w₂, h₂)))
    (hc : (Workspace.closeChild place parent name id built).run.run w₂ = (r, w₃)) :
    (child place application body next).run here (w, h) = (next r).run here (w₃, h₂) ∧
      (child place application body next).finished here (w, h) = body.finished id (w₁, h) ++
        (if r.toOption.isSome then [(id, w₂)] else []) ++ (next r).finished here (w₃, h₂) := by
  constructor
  · rw [run, ho]
    simp only [hb, hc]
  · rw [finished, ho]
    simp only [hb, hc]

end

end Program

/-- The component of number `id` was finished at `v`, between two workspaces:
    afterwards neither it nor a component entered meanwhile acts, and it hangs in its
    parent. -/
structure Finish (id : ℕ) (w v w' : Workspace) : Prop where
  before : ∃ sts, Workspace.Run Set.univ Set.univ w sts v
  lt : id < v.instances.size
  after : ∃ sts, Workspace.Run {j | j < id ∨ v.instances.size ≤ j} Set.univ v sts w'
  hung : ∀ p, (w'.instanceAt id).parent = some p → (w'.instanceAt id).name ∈ w'.childNames p

section
variable {id : ℕ} {w₀ w v w' w₁ : Workspace} {S A : Set ℕ} {sts : List Statement}

theorem Finish.prepend (h : Finish id w v w') (hpre : Workspace.Run S A w₀ sts w) :
    Finish id w₀ v w' := by
  obtain ⟨xs, hxs⟩ := h.before
  exact { h with before := ⟨_, hpre.any.trans hxs⟩ }

theorem Finish.size_le (h : Finish id w v w') : v.instances.size ≤ w'.instances.size := by
  obtain ⟨xs, hxs⟩ := h.after
  exact hxs.size_le

theorem Finish.append (h : Finish id w v w') (hpost : Workspace.Run S A w' sts w₁)
    (hS : ∀ j ∈ S, j < id ∨ v.instances.size ≤ j) : Finish id w v w₁ := by
  obtain ⟨xs, hxs⟩ := h.after
  refine { h with
    after := ⟨_, hxs.trans (hpost.mono hS (Set.subset_univ _))⟩
    hung := fun p hp => ?_ }
  obtain ⟨-, hparent, hname⟩ := Workspace.seat_eq_iff.1 (hpost.seat (h.lt.trans_le h.size_le))
  rw [hname]
  exact (hpost.childNames_prefix p).subset (h.hung p (hparent ▸ hp))

end

namespace Program

variable {σ : Type}

/-- A child that is left is finished, and hangs in its parent. -/
theorem finish_child {body : Program σ (Except Error Unit)} {here parent id : ℕ} {name : String}
    {h : σ} {w w₁ w₂ w₃ : Workspace} {place : Place} {built : Except Error Unit} {c : Component}
    (hh : here < w.instances.size) (ht₁ : w₁.Tree)
    (hp : Placing body here parent name id h w w₁ w₂ w₃)
    (hc : (Workspace.closeChild place parent name id built).run.run w₂ = (.ok c, w₃)) :
    Finish id w₁ w₂ w₃ where
  before := ⟨_, hp.build.any⟩
  lt := hp.entered.lt
  after :=
    ⟨[], hp.leave.mono (Set.singleton_subset_iff.2 (Or.inl (hh.trans_le hp.fresh))) subset_rfl⟩
  hung p hparent := by
    have he := hp.leave.entered hp.entered
    obtain rfl := Option.some.inj (he.parent.symm.trans hparent)
    rw [he.name]
    have hlt := ((hp.build.tree ht₁).of_entered hp.entered).1
    exact Workspace.childNames_of_closeChild (hlt.trans hp.entered.lt) hc

/-- **Every component that a run finishes hangs in its parent, and does not act
    again.** -/
theorem finished_spec {α : Type} (p : Program σ α) : ∀ {here : ℕ} {w : Workspace} (h : σ),
    here < w.instances.size → w.Tree → ∀ q ∈ p.finished here (w, h),
      w.instances.size ≤ q.1 ∧ Finish q.1 w q.2 (p.run here (w, h)).2.1 := by
  induction p with
  | pure a => intro here w h hh ht q hq; cases hq
  | request c next ih =>
    intro here w h hh ht q hq
    have hc := perform_spec hh c
    obtain ⟨hle, hf⟩ := ih _ h (Nat.lt_of_lt_of_le hh hc.size_le) (hc.tree ht) q hq
    exact ⟨hc.size_le.trans hle, hf.prepend hc⟩
  | child place application body next ihbody ihnext =>
    intro here w h hh ht q hq
    have hopen := Workspace.run_openChild hh place application
    rcases ho : (Workspace.openChild here place application).run.run w with
      ⟨e | ⟨parent, name, id⟩, w₁⟩ <;> rw [ho] at hopen
    · obtain ⟨hrun, hfin⟩ := child_refused body next h ho
      rw [hfin] at hq
      rw [hrun]
      obtain ⟨hle, hf⟩ := ihnext _ h (Nat.lt_of_lt_of_le hh hopen.size_le) (hopen.tree ht) q hq
      exact ⟨hopen.size_le.trans hle, hf.prepend hopen⟩
    · rcases hb : body.run id (w₁, h) with ⟨built, w₂, h₂⟩
      rcases hc : (Workspace.closeChild place parent name id built).run.run w₂ with ⟨r, w₃⟩
      obtain ⟨hrun, hfin⟩ := child_left next ho hb hc
      rw [hfin] at hq
      rw [hrun]
      have hp := placing hh ho hb hc
      have ht₁ := hopen.tree ht
      have hh₃ : here < w₃.instances.size := Nat.lt_of_lt_of_le hh hp.run.size_le
      have hnext := run_spec (next r) h₂ hh₃
      rcases List.mem_append.1 hq with hq | hq
      · rcases List.mem_append.1 hq with hq | hq
        · obtain ⟨hle, hf⟩ := ihbody h hp.lt ht₁ q hq
          rw [hb] at hf
          have hid : id ≤ q.1 := hp.lt.le.trans hle
          have hclosed := hf.append (hp.leave.mono singleton_subset_actors subset_rfl)
            (hp.idle hh hid hf.size_le)
          exact ⟨hp.fresh.trans hid,
            (hclosed.append hnext (hp.idle hh hid hf.size_le)).prepend hopen⟩
        · cases r with
          | error e => cases hq
          | ok c =>
            obtain rfl : q = (id, w₂) := List.mem_singleton.1 hq
            have hf := finish_child hh ht₁ hp hc
            exact ⟨hp.fresh, (hf.append hnext (hp.idle hh le_rfl le_rfl)).prepend hopen⟩
      · obtain ⟨hle, hf⟩ := ihnext r h₂ hh₃ (hp.run.tree ht) q hq
        exact ⟨hp.run.size_le.trans hle, hf.prepend hp.run⟩
  | getHost next ih => exact fun h hh ht => ih h h hh ht
  | setHost h' next ih => exact fun h hh ht => ih h' hh ht

/-- **No component is finished twice.** -/
theorem nodup_finished {α : Type} (p : Program σ α) : ∀ {here : ℕ} {w : Workspace} (h : σ),
    here < w.instances.size → w.Tree → ((p.finished here (w, h)).map Prod.fst).Nodup := by
  induction p with
  | pure a => exact fun h _ _ => List.nodup_nil
  | request c next ih =>
    intro here w h hh ht
    have hc := perform_spec hh c
    exact ih _ h (Nat.lt_of_lt_of_le hh hc.size_le) (hc.tree ht)
  | child place application body next ihbody ihnext =>
    intro here w h hh ht
    have hopen := Workspace.run_openChild hh place application
    rcases ho : (Workspace.openChild here place application).run.run w with
      ⟨e | ⟨parent, name, id⟩, w₁⟩ <;> rw [ho] at hopen
    · rw [(child_refused body next h ho).2]
      exact ihnext _ h (Nat.lt_of_lt_of_le hh hopen.size_le) (hopen.tree ht)
    · rcases hb : body.run id (w₁, h) with ⟨built, w₂, h₂⟩
      rcases hc : (Workspace.closeChild place parent name id built).run.run w₂ with ⟨r, w₃⟩
      have hp := placing hh ho hb hc
      have ht₁ := hopen.tree ht
      have ht₃ := hp.run.tree ht
      have hh₃ : here < w₃.instances.size := Nat.lt_of_lt_of_le hh hp.run.size_le
      -- the numbers inside, of the child and after it follow each other
      have hlt : id < w₃.instances.size := hp.entered.lt.trans_le hp.leave.size_le
      have hinside : ∀ i ∈ (body.finished id (w₁, h)).map Prod.fst,
          id < i ∧ i < w₃.instances.size := by
        intro i hi
        obtain ⟨q, hq, rfl⟩ := List.mem_map.1 hi
        obtain ⟨hle, hf⟩ := body.finished_spec h hp.lt ht₁ q hq
        rw [hb] at hf
        exact ⟨hp.lt.trans_le hle, (hf.lt.trans_le hf.size_le).trans_le hp.leave.size_le⟩
      have hown : ∀ i ∈ (if r.toOption.isSome then [(id, w₂)] else []).map Prod.fst, i = id := by
        intro i hi
        split_ifs at hi
        · exact List.mem_singleton.1 hi
        · cases hi
      have hafter : ∀ i ∈ ((next r).finished here (w₃, h₂)).map Prod.fst,
          w₃.instances.size ≤ i := by
        intro i hi
        obtain ⟨q, hq, rfl⟩ := List.mem_map.1 hi
        exact ((next r).finished_spec h₂ hh₃ ht₃ q hq).1
      rw [(child_left next ho hb hc).2, List.append_assoc, List.map_append, List.map_append,
        List.nodup_append, List.nodup_append]
      refine ⟨ihbody h hp.lt ht₁, ⟨?_, ihnext r h₂ hh₃ ht₃, ?_⟩, ?_⟩
      · split_ifs <;> simp
      · rintro i hi j hj rfl
        have heq := hown i hi
        have hle := hafter i hj
        omega
      · rintro i hi j hj rfl
        have hbounds := hinside i hi
        rcases List.mem_append.1 hj with hj | hj
        · have heq := hown i hj
          omega
        · have hle := hafter i hj
          omega
  | getHost next ih => exact fun h hh ht => ih h h hh ht
  | setHost h' next ih => exact fun h hh ht => ih h' hh ht

end Program

/-- The components that a compilation finishes, by number, with the workspaces at the
    end of their builds; the main one comes last. -/
def finished {σ : Type} (settings : Settings) (t : Template σ) (host : σ) :
    List (ℕ × Workspace) :=
  match settings.field with
  | .error _ => []
  | .ok field =>
    let s := (t.opened field settings.dangling, host)
    Program.finished t.body.run 0 s ++ [(0, (Program.run t.body.run 0 s).2.1)]

/-- **No component of a compilation is finished twice.** -/
theorem nodup_finished {σ : Type} (settings : Settings) (t : Template σ) (host : σ) :
    ((finished settings t host).map Prod.fst).Nodup := by
  unfold finished
  cases settings.field with
  | error e => exact List.nodup_nil
  | ok field =>
    have ht := Workspace.opened_tree t field settings.dangling
    simp only [List.map_append, List.nodup_append]
    refine ⟨Program.nodup_finished t.body.run host Nat.zero_lt_one ht,
      List.nodup_singleton _, ?_⟩
    rintro i hi j hj rfl
    obtain ⟨q, hq, rfl⟩ := List.mem_map.1 hi
    -- the main component was there before all others
    have hle : 1 ≤ q.1 := (Program.finished_spec t.body.run host Nat.zero_lt_one ht q hq).1
    have hzero : q.1 = 0 := List.mem_singleton.1 hj
    omega

/-- **Every component that a compilation finishes hangs in its parent, and does not act
    again.** -/
theorem compile_finish {σ : Type} {settings : Settings} {t : Template σ} {host : σ}
    {public_ : List String} {c : Circuit} (h : (compile settings t host public_).result = .ok c) :
    ∃ field w host', settings.field = .ok field ∧
      t.expand (.start field settings.dangling, host) = (.ok 0, (w, host')) ∧
      Circuit.ofWorkspace settings w 0 public_ = .ok c ∧
      ∀ q ∈ finished settings t host, Finish q.1 (t.opened field settings.dangling) q.2 w := by
  obtain ⟨field, w, host', hf, hx, hc⟩ := compile_eq_ok h
  obtain ⟨-, w₁, hrun, -, hclose⟩ := Template.expand_eq_ok hx
  refine ⟨field, w, host', hf, hx, hc, fun q hq => ?_⟩
  have ht := Workspace.opened_tree t field settings.dangling
  have hbody := Program.run_spec t.body.run host (w := t.opened field settings.dangling)
    Nat.zero_lt_one
  rw [hrun] at hbody
  unfold finished at hq
  rw [hf] at hq
  rcases List.mem_append.1 hq with hq | hq
  · have hfin := (Program.finished_spec t.body.run host Nat.zero_lt_one ht q hq).2
    rw [hrun] at hfin
    exact hfin.append (hclose w₁.instances.size) fun j hj => Or.inr <| by
      rw [Set.mem_singleton_iff.1 hj]; exact hfin.size_le
  · obtain rfl : q = (0, w₁) := by
      rw [hrun] at hq; exact List.mem_singleton.1 hq
    have hroot := ((hclose 0).tree (hbody.tree ht)).root
    refine ⟨⟨_, hbody.any⟩, (hbody.tree ht).pos, ⟨[], ?_⟩, fun p hp => ?_⟩
    · exact (hclose w₁.instances.size).mono (fun j hj => Or.inr hj.ge) (Set.subset_univ _)
    · rw [hroot] at hp
      cases hp

end RankOne
