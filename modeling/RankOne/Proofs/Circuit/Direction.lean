/-
  RankOne — who computes a signal.

  A component may compute its own outputs and intermediates, and the inputs of the
  components that hang in it.  The compiler decides this by paths, so it is true of
  components with distinct paths.

  * `Workspace.Permits`: who may compute a signal;
  * `permits_of_writable`: what is not refused is permitted;
  * `Workspace.Directed`, `Run.directed`: every rule was made by a component that may
    compute its target;
  * `rules_cover_in_direction`: what follows for compilations.
-/
import RankOne.Gadget.Indicator
import RankOne.Proofs.Build.References
import RankOne.Proofs.Build.Tree
import RankOne.Proofs.Circuit.Determined
import RankOne.Proofs.Circuit.Instances

namespace RankOne

namespace Workspace

/-- A component may compute a signal of its owner: its own output or intermediate, or
    the input of a component that hangs in it. -/
def Permits (w : Workspace) (here owner : ℕ) (s : Signal) : Prop :=
  (owner = here ∧ s.kind ≠ .declared .input) ∨
    (s.kind = .declared .input ∧ owner ∈ (w.instanceAt here).children.map Prod.snd)

instance (w : Workspace) (here owner : ℕ) (s : Signal) : Decidable (w.Permits here owner s) :=
  inferInstanceAs (Decidable (_ ∨ _))

section
variable {S A : Set ℕ} {w w' : Workspace} {sts : List Statement} {here : ℕ} {s : Signal}

/-! ## What is refused -/

/-- A target that is refused is refused for its direction. -/
theorem writable_kind {c : Instance} {e : Error} (h : writable c s = .error e) :
    e.kind = .direction := by
  unfold writable at h
  split_ifs at h
  · split at h <;> cases h <;> rfl
  · cases h; rfl

/-- What may be written, by paths: an own signal that is no input, or an input below
    the local name of a child. -/
theorem writable_cases {c : Instance} (h : writable c s = .ok ()) :
    (s.component = c.path ∧ s.kind ≠ .declared .input) ∨
      (s.kind = .declared .input ∧ ∃ q ∈ c.children, s.component = s!"{c.path}.{q.1}") := by
  unfold writable at h
  split_ifs at h with hown hchild
  · refine Or.inl ⟨hown, fun hk => ?_⟩
    rw [hk] at h
    cases h
  · obtain ⟨q, hq, hpath⟩ := List.any_eq_true.1 hchild.2
    exact Or.inr ⟨hchild.1, q, hq, beq_iff_eq.1 hpath⟩

/-- Where components have distinct paths, a signal is declared by the component whose
    path it carries, and by no other. -/
theorem declares_iff (hw : w.Sound) (hpaths : (w.instances.toList.map (·.path)).Nodup)
    (hs : s ∈ w.signals) (hk : s.kind ≠ .one) {id : ℕ} (hid : id < w.instances.size) :
    w.Declares id s ↔ s.component = (w.instanceAt id).path := by
  constructor
  · rintro ⟨d, hd, hsd⟩
    exact (hw.declared id d hd s hsd).2.2
  · intro hc
    obtain ⟨j, d, hd, hsd⟩ := hw.covered s hs hk
    obtain rfl : j = id := eq_of_instance_eq hpaths (lt_of_declared hd) hid
      ((hw.declared j d hd s hsd).2.2.symm.trans hc)
    exact ⟨d, hd, hsd⟩

/-- **What is not refused is permitted.** -/
theorem permits_of_writable (hw : w.Sound) (ht : w.Tree)
    (hpaths : (w.instances.toList.map (·.path)).Nodup) (hh : here < w.instances.size)
    (hs : s ∈ w.signals) (h : writable (w.instanceAt here) s = .ok ()) :
    ∃ owner, w.Declares owner s ∧ w.Permits here owner s := by
  have hk := (writable_eq_ok h).1
  rcases writable_cases h with ⟨hc, hkind⟩ | ⟨hkind, q, hq, hc⟩
  · exact ⟨here, (declares_iff hw hpaths hs hk hh).2 hc, Or.inl ⟨rfl, hkind⟩⟩
  · have he := ht.children here q hq
    rw [← (ht.of_entered he).2] at hc
    refine ⟨q.2, (declares_iff hw hpaths hs hk he.lt).2 hc, Or.inr ⟨hkind, ?_⟩⟩
    exact List.mem_map_of_mem hq

/-- A target that is refused changes nothing. -/
theorem refused_of_writable {e : Error} (h : writable (w.instanceAt here) s = .error e) :
    (∀ value, ((Command.assign s value).perform here).run.run w = (.error e, w)) ∧
      ∀ g deps, ((Command.hint s g deps).perform here).run.run w = (.error e, w) := by
  constructor
  · intro value
    simp only [Command.perform, assign, Work.run_bind, Work.run_get, Work.run_liftM, h]
  · intro g deps
    simp only [Command.perform, hint, Work.run_bind, Work.run_get, Work.run_liftM, h]

/-! ## Rules -/

/-- A rule was made by a component that may compute its target: the owner of an output
    or intermediate, the parent of the owner of an input. -/
def Directs (w : Workspace) (r : Rule) : Prop :=
  ∃ id < w.instances.size, r.origin = (w.instanceAt id).path ∧
    ((r.target.kind ≠ .declared .input ∧ r.target.component = r.origin) ∨
      (r.target.kind = .declared .input ∧ ∃ child < w.instances.size,
        (w.instanceAt child).parent = some id ∧
        r.target.component = (w.instanceAt child).path))

/-- Every rule was made by a component that may compute its target. -/
def Directed (w : Workspace) : Prop := ∀ r ∈ w.draft.rules.toList, w.Directs r

theorem Directs.mono {r : Rule} (h : w.Directs r)
    (hsize : w.instances.size ≤ w'.instances.size)
    (hseat : ∀ j < w.instances.size, w'.seat j = w.seat j) : w'.Directs r := by
  obtain ⟨id, hid, horigin, htarget⟩ := h
  refine ⟨id, hid.trans_le hsize, horigin.trans (seat_eq_iff.1 (hseat id hid)).1.symm, ?_⟩
  refine htarget.imp_right fun ⟨hk, child, hlt, hparent, hc⟩ => ⟨hk, child, hlt.trans_le hsize, ?_⟩
  obtain ⟨hpath', hparent', -⟩ := seat_eq_iff.1 (hseat child hlt)
  exact ⟨hparent'.trans hparent, hc.trans hpath'.symm⟩

theorem directs_of_writable (ht : w.Tree) {r : Rule} (hh : here < w.instances.size)
    (hwrite : writable (w.instanceAt here) r.target = .ok ())
    (horigin : r.origin = (w.instanceAt here).path) : w.Directs r := by
  refine ⟨here, hh, horigin, ?_⟩
  rcases writable_cases hwrite with ⟨hc, hk⟩ | ⟨hk, q, hq, hc⟩
  · exact Or.inl ⟨hk, hc.trans horigin.symm⟩
  · have he := ht.children here q hq
    rw [← (ht.of_entered he).2] at hc
    exact Or.inr ⟨hk, q.2, he.lt, he.parent, hc⟩

/-- A rule that a statement adds has a target that its component may write. -/
theorem Directed.change (h : w.Directed) (ht : w.Tree) {st : Statement} {draft : Draft}
    (hc : st.Changes w draft) : Directed { w with draft } := by
  intro r hr
  have hr : r ∈ draft.rules.toList := hr
  rw [hc.rules.1] at hr
  rcases List.mem_append.1 hr with hr | hr
  · exact h r hr
  · cases hc with
    | assign hid hwrite _ =>
      obtain rfl : r = _ := by simpa [Statement.rule?] using hr
      exact directs_of_writable ht hid hwrite rfl
    | constrain => cases hr
    | hint hid hwrite _ =>
      obtain rfl : r = _ := by simpa [Statement.rule?] using hr
      exact directs_of_writable ht hid hwrite rfl

/-- **Every chain of moves and statements keeps rules in their direction.** -/
theorem Run.directed (h : Run S A w sts w') (ht : w.Tree) (hd : w.Directed) : w'.Directed := by
  induction h with
  | done => exact hd
  | move _ hm _ ih =>
    refine ih (hm.tree ht) fun r hr => ?_
    rw [hm.draft] at hr
    exact (hd r hr).mono hm.size_le fun j hj => hm.seat hj
  | attach id name hchild he _ ih =>
    have hstep : Run S A _ [] _ := .attach id name hchild he (.done _)
    exact ih (hstep.tree ht) fun r hr =>
      (hd r hr).mono hstep.size_le fun j hj => hstep.seat hj
  | state hc _ ih =>
    exact ih (ht.of_seat rfl (fun _ _ => rfl) fun _ _ hq => Or.inl hq) (hd.change ht hc)

theorem opened_directed {σ : Type} (t : Template σ) (field : PrimeField) (policy : DanglingPolicy) :
    (t.opened field policy).Directed := fun r hr => by cases hr

end

end Workspace

/-! ## Compiled circuits -/

/-- The component of a number declares a signal. -/
def Circuit.Declares (c : Circuit) (id : ℕ) (s : Signal) : Prop :=
  ∃ d ∈ (c.instanceAt id).declarations, s ∈ d.bus.flat

/-- Who computes a signal that has a rule, where components have distinct paths: its
    owner, or for an input the parent of its owner. -/
theorem rule_direction {σ : Type} {settings : Settings} {t : Template σ} {host : σ}
    {public_ : List String} {c : Circuit} (h : (compile settings t host public_).result = .ok c)
    (hpaths : (c.instances.toList.map (·.path)).Nodup) {r : Rule} (hr : r ∈ c.rules)
    (hs : r.target ∈ c.signals) (hk : r.target.kind ≠ .one) :
    ∃ id, c.Declares id r.target ∧ (∀ j, c.Declares j r.target → j = id) ∧
      (r.target.kind ≠ .declared .input → r.origin = (c.instanceAt id).path) ∧
      (r.target.kind = .declared .input → ∃ p, (c.instanceAt id).parent = some p ∧
        r.origin = (c.instanceAt p).path) := by
  obtain ⟨field, w, -, hrun, hc⟩ := compile_spec h
  have hw := hrun.sound (Workspace.opened_sound t field settings.dangling)
  have hd := hrun.directed (Workspace.opened_tree t field settings.dangling)
    (Workspace.opened_directed t field settings.dangling)
  obtain ⟨-, hat, -, hmem⟩ := Circuit.of_workspace hw hc
  have hdecl (id : ℕ) : c.Declares id r.target ↔ w.Declares id r.target := by
    rw [Circuit.Declares, hat]; rfl
  rw [Circuit.instances_of_workspace hc] at hpaths
  obtain ⟨id, hid⟩ := hw.covered _ ((hmem _).1 hs) hk
  have hlt : id < w.instances.size := by
    obtain ⟨d, hd, -⟩ := hid
    exact Workspace.lt_of_declared hd
  have howner := (Workspace.declares_iff hw hpaths ((hmem _).1 hs) hk hlt).1 hid
  have hunique {j : ℕ} (hj : j < w.instances.size)
      (hc : r.target.component = (w.instanceAt j).path) : j = id :=
    Workspace.eq_of_instance_eq hpaths hj hlt (hc.symm.trans howner)
  have hr : r ∈ w.draft.rules.toList := by
    rw [hrun.rules]
    exact List.mem_append_right _ ((compile_coherent h).rules.mem_iff.1 hr)
  obtain ⟨p, hp, horigin, hcases⟩ := hd r hr
  refine ⟨id, (hdecl id).2 hid, fun j hj => ?_, fun hkind => ?_, fun hkind => ?_⟩
  · obtain ⟨d, hd, hsd⟩ := (hdecl j).1 hj
    exact hunique (Workspace.lt_of_declared hd) (hw.declared j d hd _ hsd).2.2
  · rcases hcases with ⟨-, hc⟩ | ⟨hin, -⟩
    · rw [hat, ← howner, hc]
    · exact absurd hin hkind
  · rcases hcases with ⟨hout, -⟩ | ⟨-, child, hchild, hparent, hc⟩
    · exact absurd hkind hout
    · obtain rfl := hunique hchild hc
      exact ⟨p, by rw [hat]; exact hparent, by rw [hat]; exact horigin⟩

open Workspace in
/-- **Every signal is computed once, and only in its direction.**  In a compiled circuit
    whose components have distinct paths, the constant and the main inputs have no
    rule; every other signal has exactly one, made by its owner, or for an input by the
    parent of its owner.  In every workspace that a compilation passes through, where
    components have distinct paths, assigning or hinting a signal that is neither an
    output or intermediate of the component at work nor an input of one hanging in it
    is refused for its direction and changes nothing. -/
theorem rules_cover_in_direction {σ : Type} (settings : Settings) (t : Template σ) (host : σ) :
    (∀ public_ c, (compile settings t host public_).result = .ok c →
      (c.instances.toList.map (·.path)).Nodup →
      (∀ r ∈ c.rules, r.target.kind ≠ .one ∧ Circuit.isMainInput r.target = false) ∧
      ∀ s ∈ c.signals, s.kind ≠ .one → Circuit.isMainInput s = false →
        ∃ r ∈ c.rules, r.target = s ∧ (c.rules.map (·.target)).count s = 1 ∧
          ∃ id, c.Declares id s ∧ (∀ j, c.Declares j s → j = id) ∧
            (s.kind ≠ .declared .input → r.origin = (c.instanceAt id).path) ∧
            (s.kind = .declared .input → ∃ p, (c.instanceAt id).parent = some p ∧
              r.origin = (c.instanceAt p).path)) ∧
    ∀ w ∈ buildStates settings t host, (w.instances.toList.map (·.path)).Nodup →
      ∀ here < w.instances.size, ∀ s ∈ w.signals,
        (∀ owner, w.Declares owner s → ¬ w.Permits here owner s) →
        ∃ e : Error, e.kind = .direction ∧
          (∀ value, ((Command.assign s value).perform here).run.run w = (.error e, w)) ∧
          ∀ g deps, ((Command.hint s g deps).perform here).run.run w = (.error e, w) := by
  constructor
  · intro public_ c h hpaths
    have hc := compile_coherent h
    refine ⟨hc.targets, fun s hs hk hin => ?_⟩
    have hr : ∃ r ∈ c.rules, r.target = s := by
      rcases hc.cover s hs with rfl | hmain | hr
      · exact absurd rfl hk
      · rw [hin] at hmain; cases hmain
      · exact hr
    obtain ⟨r, hr, rfl⟩ := hr
    have hsingle : (c.rules.map (·.target)).Nodup :=
      .of_map Signal.uid (by rw [List.map_map]; exact hc.single)
    exact ⟨r, hr, rfl, List.count_eq_one_of_mem hsingle (List.mem_map_of_mem hr),
      rule_direction h hpaths hr hs hk⟩
  · intro w hmem hpaths here hh s hs hnot
    obtain ⟨field, sts, -, hrun⟩ := buildStates_run hmem
    have hw := hrun.sound (opened_sound t field settings.dangling)
    have ht := hrun.tree (opened_tree t field settings.dangling)
    rcases hwrite : writable (w.instanceAt here) s with e | ⟨⟩
    · exact ⟨e, writable_kind hwrite, refused_of_writable hwrite⟩
    · obtain ⟨owner, hdecl, hpermits⟩ := permits_of_writable hw ht hpaths hh hs hwrite
      exact absurd hpermits (hnot owner hdecl)

open Build in
/-- Whether an input is zero, as a child tells it. -/
def relay : Build Unit Unit := do
  let x ← signal .input "x"
  let y ← signal .output "y"
  let zero ← component "zero" Gadget.isZeroTemplate
  assign (← terminalSignal zero "in") (.ofSignal x)
  assign y (.ofSignal (← terminalSignal zero "out"))

/-- The template of the relay. -/
def relayTemplate : Template Unit := ⟨.of "Relay" [], relay⟩

/-- The input of the child is computed by the main component, its other signals by
    itself; the main component cannot compute the output of the child. -/
theorem relay_in_direction :
    (∃ c, (compile { prime := .int 7 } relayTemplate () []).result = .ok c ∧
      ∀ s ∈ c.signals, s.component = "main.zero" → ∃ r ∈ c.rules, r.target = s ∧
        r.origin = if s.kind = .declared .input then "main" else "main.zero") ∧
    ∃ w ∈ buildStates { prime := .int 7 } relayTemplate (), ∃ s ∈ w.signals,
      s.path = "main.zero.out" ∧ ∃ e : Error, e.kind = .direction ∧
        ∀ value, ((Command.assign s value).perform 0).run.run w = (.error e, w) := by
  obtain ⟨hcompiled, hstates⟩ := rules_cover_in_direction { prime := .int 7 } relayTemplate ()
  constructor
  · obtain ⟨c, h, hpaths, hs⟩ := exists_ok
      (x := (compile { prime := .int 7 } relayTemplate () []).result)
      (P := fun c => (c.instances.toList.map (·.path)).Nodup ∧
        ∀ s ∈ c.signals, s.component = "main.zero" → s.kind ≠ .one ∧
          Circuit.isMainInput s = false ∧ s ∈ (c.instanceAt 1).declarations.flatMap (·.bus.flat) ∧
          (c.instanceAt 1).path = "main.zero" ∧ (c.instanceAt 1).parent = some 0 ∧
          (c.instanceAt 0).path = "main")
      (by decide +kernel)
    refine ⟨c, h, fun s hmem hzero => ?_⟩
    obtain ⟨hk, hin, hdecl, hpath, hparent, hmain⟩ := hs s hmem hzero
    obtain ⟨r, hr, htarget, -, id, -, hid, hout, hinput⟩ :=
      (hcompiled [] c h hpaths).2 s hmem hk hin
    obtain rfl := hid 1 (List.mem_flatMap.1 hdecl)
    refine ⟨r, hr, htarget, ?_⟩
    split_ifs with hkind
    · obtain ⟨p, hp, horigin⟩ := hinput hkind
      obtain rfl := Option.some.inj (hparent.symm.trans hp)
      rw [horigin, hmain]
    · rw [hout hkind, hpath]
  · obtain ⟨w, hw, hpaths, hsize, s, hs, hpath, hkind, hnot⟩ :
        ∃ w ∈ buildStates { prime := .int 7 } relayTemplate (),
          (w.instances.toList.map (·.path)).Nodup ∧ 0 < w.instances.size ∧
          ∃ s ∈ w.signals.toList, s.path = "main.zero.out" ∧ s.kind ≠ .declared .input ∧
            ¬ w.Declares 0 s := by decide +kernel
    obtain ⟨e, he, hassign, -⟩ := hstates w hw hpaths 0 hsize s (Array.mem_toList_iff.1 hs)
      fun owner hdecl hpermits => by
        rcases hpermits with ⟨rfl, -⟩ | ⟨hinput, -⟩
        · exact hnot hdecl
        · exact hkind hinput
    exact ⟨w, hw, s, Array.mem_toList_iff.1 hs, hpath, e, he, hassign⟩

end RankOne
