/-
  RankOne — what the policy on dangling outputs changes.

  * `Workspace.Blind`, `blind_perform`, `blind_openChild`: answering requests hangs
    neither on the policy nor on what was reported, and changes neither;
  * `Program.run_dangling`: a run that only warns reports the dangling outputs of the
    components it finishes, in this order;
  * `Program.run_strict`: a run that has none to report is the same when they are
    errors;
  * `Program.Ends`, `Program.Relays`, `Program.run_relays`: a program that passes such an
    error on ends with one, if there is any to report;
  * `Build.Relays`: builds that catch nothing are such programs.
-/
import RankOne.Build.Statement
import RankOne.Proofs.Build.Finish

namespace RankOne

namespace Workspace

/-- The workspace under another policy, with other outputs reported. -/
def under (w : Workspace) (policy : DanglingPolicy) (dangling : Array String) : Workspace :=
  { w with policy, dangling }

/-- The workspace where dangling outputs are errors. -/
def strict (w : Workspace) : Workspace := { w with policy := .error }

/-! ## Requests -/

section
variable {α β : Type}

/-- What the work does hangs neither on the policy nor on what was reported, and
    changes neither. -/
def Blind (x : Work α) : Prop := ∀ w policy dangling,
  x.run.run (w.under policy dangling) = ((x.run.run w).1, (x.run.run w).2.under policy dangling)

theorem blind_pure (a : α) : Blind (pure a : Work α) := fun _ _ _ => rfl

theorem blind_throw (e : Error) : Blind (throw e : Work α) := fun _ _ _ => rfl

theorem blind_liftM (x : Except Error α) : Blind (liftM x : Work α) := fun w _ _ => by
  rw [Work.run_liftM, Work.run_liftM]

theorem Blind.bind {x : Work α} {g : α → Work β} (hx : Blind x) (hg : ∀ a, Blind (g a)) :
    Blind (x >>= g) := by
  intro w policy dangling
  rw [Work.run_bind, Work.run_bind, hx]
  rcases x.run.run w with ⟨e | a, w'⟩
  · rfl
  · exact hg a w' policy dangling

/-- Work that looks at the workspace is blind if what it goes on to do is the same. -/
theorem blind_get {g : Workspace → Work β}
    (h : ∀ w policy dangling, g (w.under policy dangling) = g w) (hg : ∀ w, Blind (g w)) :
    Blind (get >>= g) := by
  intro w policy dangling
  rw [Work.run_bind, Work.run_get, Work.run_bind, Work.run_get]
  dsimp only
  rw [h]
  exact hg w w policy dangling

theorem blind_modify {g : Workspace → Workspace}
    (h : ∀ w policy dangling, g (w.under policy dangling) = (g w).under policy dangling) :
    Blind (modify g : Work PUnit) := by
  intro w policy dangling
  rw [Work.run_modify, Work.run_modify, h]

/-- Blind work changes neither the policy nor what was reported. -/
theorem Blind.keeps {x : Work α} (hx : Blind x) (w : Workspace) :
    (x.run.run w).2.policy = w.policy ∧ (x.run.run w).2.dangling = w.dangling := by
  have h : x.run.run w = ((x.run.run w).1, (x.run.run w).2.under w.policy w.dangling) :=
    hx w w.policy w.dangling
  rw [h]
  exact ⟨rfl, rfl⟩

/-- Blind work does the same where dangling outputs are errors. -/
theorem Blind.strict {x : Work α} (hx : Blind x) (w : Workspace) :
    x.run.run w.strict = ((x.run.run w).1, (x.run.run w).2.strict) := by
  have h : x.run.run w.strict = _ := hx w .error w.dangling
  rw [h, under, ← (hx.keeps w).2]
  rfl

end

theorem blind_reserve (here : ℕ) (name : String) : Blind (reserve here name) := by
  refine blind_get (fun _ _ _ => rfl) fun w => ?_
  dsimp only
  split
  · exact blind_throw _
  · exact blind_modify fun _ _ _ => rfl

theorem blind_declare (here : ℕ) (role : Role) (name : String) (dims : Except Error (List Int)) :
    Blind (declare here role name dims) := by
  refine (blind_reserve here name).bind fun _ => (blind_liftM dims).bind fun dims => ?_
  intro w policy dangling
  rw [Work.run_bind, Work.run_get, Work.run_bind, Work.run_get]
  dsimp only
  split <;> rfl

theorem blind_declareSlots (here : ℕ) (name : String) (dims : Except Error (List Int)) :
    Blind (declareSlots here name dims) := by
  refine (blind_reserve here name).bind fun _ => (blind_liftM dims).bind fun dims => ?_
  split
  · exact blind_throw _
  · exact blind_get (fun _ _ _ => rfl) fun _ => (blind_liftM _).bind fun _ _ _ _ => rfl

theorem blind_readSlot (a : SlotArray) (i : Int) (label : String) : Blind (readSlot a i label) := by
  unfold readSlot
  split
  · exact blind_throw _
  · split
    · exact blind_pure _
    · refine blind_get (fun _ _ _ => rfl) fun w => ?_
      split
      · exact blind_pure _
      · exact blind_throw _

theorem blind_occupy (here : ℕ) : ∀ place : Place, Blind (occupy here place)
  | .named name => (blind_reserve here name).bind fun _ => blind_pure _
  | .slot a i => by
    rw [occupy]
    split
    · exact blind_throw _
    · split
      · exact blind_throw _
      · refine blind_get (fun _ _ _ => rfl) fun w => ?_
        split
        · exact blind_throw _
        · refine blind_get (fun _ _ _ => rfl) fun w => ?_
          split
          · exact blind_pure _
          · exact blind_throw _

theorem blind_misplace (here : ℕ) (place : Place) (got : Except Error String) :
    Blind (misplace here place got) :=
  (blind_occupy here place).bind fun _ => blind_get (fun _ _ _ => rfl) fun _ =>
    (blind_liftM got).bind fun _ => blind_throw _

theorem blind_openChild (here : ℕ) (place : Place) (application : Application) :
    Blind (openChild here place application) :=
  (blind_occupy here place).bind fun _ _ _ _ => rfl

theorem blind_bindPosition (s : Signal) (p : Position) : Blind (bindPosition s p) := by
  intro w policy dangling
  have hp : (w.under policy dangling).position? s = w.position? s := rfl
  rw [bindPosition, Work.run_bind, Work.run_get, Work.run_bind, Work.run_get]
  dsimp only
  rw [hp]
  cases w.position? s <;> rfl

/-- Work on the draft is blind if what it goes on to do is. -/
theorem blind_draft {α β : Type} (x : Draft → Except Error α) {k : α → Workspace → Work β}
    (h : ∀ a w policy dangling, (k a (w.under policy dangling)).run.run (w.under policy dangling) =
      (((k a w).run.run w).1, ((k a w).run.run w).2.under policy dangling)) :
    Blind (do
      let w ← get
      let a ← (liftM (x w.draft) : Work α)
      k a w) := by
  intro w policy dangling
  have hd : (w.under policy dangling).draft = w.draft := rfl
  simp only [Work.run_bind, Work.run_get, Work.run_liftM, hd]
  cases x w.draft with
  | error e => rfl
  | ok a => exact h a w policy dangling

theorem blind_assign (here : ℕ) (target : Signal) (value : Except Error Expr) :
    Blind (assign here target value) := by
  refine blind_get (fun _ _ _ => rfl) fun w => ?_
  refine (blind_liftM _).bind fun _ => (blind_liftM value).bind fun e => ?_
  have hadd : Blind (addAssignment target e (w.instanceAt here).path) := by
    unfold addAssignment
    refine blind_draft (·.assign target e (w.instanceAt here).path) fun _ _ _ _ => ?_
    cases Clash.add e (Expr.ofSignal target).neg <;> rfl
  exact hadd.bind fun _ => blind_modify fun _ _ _ => rfl

theorem blind_constrain (here : ℕ) (l r : Expr) : Blind (constrain here l r) := by
  refine blind_get (fun _ _ _ => rfl) fun w => ?_
  have hadd : Blind (addEquality l r (w.instanceAt here).path) := by
    unfold addEquality
    refine blind_draft (·.constrain l r (w.instanceAt here).path) ?_
    rintro ⟨row | row, draft⟩ w policy dangling <;> cases Clash.add l r.neg <;> rfl
  refine hadd.bind fun row => ?_
  cases row
  · exact blind_pure _
  · exact blind_modify fun _ _ _ => rfl

theorem blind_hint (here : ℕ) (target : Signal) (g : Hint) (deps : Except Error (List Expr)) :
    Blind (hint here target g deps) := by
  refine blind_get (fun _ _ _ => rfl) fun w => (blind_liftM _).bind fun _ => ?_
  unfold addHint
  refine blind_draft (·.hint target g deps (w.instanceAt here).path) fun _ _ _ _ => ?_
  cases deps.bind (·.mapM Expr.written) <;> rfl

end Workspace

open Workspace in
/-- **Answering a request hangs neither on the policy nor on what was reported, and
    changes neither.** -/
theorem blind_perform (here : ℕ) : ∀ c : Command, Blind (c.perform here)
  | .path | .field | .inspect _ | .log _ => fun _ _ _ => rfl
  | .declare role name dims => blind_declare here role name dims
  | .slots name dims => blind_declareSlots here name dims
  | .misplace place got => blind_misplace here place got
  | .slot a i label => blind_readSlot a i label
  | .assign target value => blind_assign here target value
  | .constrain l r => blind_constrain here l r
  | .hint target g deps => blind_hint here target g deps
  | .bind s p => blind_bindPosition s p

namespace Workspace

/-! ## Ends of builds -/

/-- Hang a child that passed its check into the tree, and put it into its place. -/
def hang (place : Place) (parent : ℕ) (name : String) (id : ℕ) : Work Component := do
  modify (·.updateInstance parent fun c =>
    { c with children := Instance.attach name id c.children })
  let c := (← get).component id
  match place with
  | .named _ => return c
  | .slot a i =>
    let j := (RankOne.position? a.width i).getD 0
    modify fun w => { w with filled := ((a.id, a.taken ++ [j]), c) :: w.filled }
    return c

section
variable {w : Workspace} (place : Place) (parent : ℕ) (name : String) (id : ℕ)

theorem blind_hang : Blind (hang place parent name id) := by
  refine (blind_modify fun _ _ _ => rfl).bind fun _ => blind_get (fun _ _ _ => rfl) fun w => ?_
  cases place with
  | named => exact blind_pure _
  | slot => exact (blind_modify fun _ _ _ => rfl).bind fun _ => blind_pure _

theorem hang_ok (w : Workspace) : ∃ c w', (hang place parent name id).run.run w = (.ok c, w') := by
  cases place <;> exact ⟨_, _, rfl⟩

theorem closeChild_ok : closeChild place parent name id (.ok ()) =
    (do checkDangling id; hang place parent name id) := rfl

theorem checkDangling_warn (hw : w.policy = .warn) :
    ∃ w', (checkDangling id).run.run w = (.ok (), w') ∧ w'.policy = .warn ∧
      w'.dangling = w.dangling ++ (w.danglingOutputs id).toArray := by
  rw [checkDangling, Work.run_bind, Work.run_get]
  dsimp only
  rw [hw]
  exact ⟨_, rfl, rfl, rfl⟩

/-- A component without dangling outputs passes its check under both policies. -/
theorem checkDangling_strict (hw : w.policy = .warn) (h : w.danglingOutputs id = []) :
    (checkDangling id).run.run w.strict =
      (((checkDangling id).run.run w).1, ((checkDangling id).run.run w).2.strict) := by
  have hstrict : w.strict.danglingOutputs id = [] := h
  rw [checkDangling, Work.run_bind, Work.run_get, Work.run_bind, Work.run_get]
  dsimp only
  rw [hw, h, hstrict]
  rfl

/-- A component with dangling outputs is refused where they are errors. -/
theorem checkDangling_refused (h : w.danglingOutputs id ≠ []) :
    ∃ e : Error, e.kind = .dangling ∧
      (checkDangling id).run.run w.strict = (.error e, w.strict) := by
  have hstrict : w.strict.danglingOutputs id = w.danglingOutputs id := rfl
  rw [checkDangling, Work.run_bind, Work.run_get]
  dsimp only
  rw [hstrict]
  cases hd : w.danglingOutputs id with
  | nil => exact absurd hd h
  | cons path paths => exact ⟨_, rfl, rfl⟩

theorem closeChild_warn (hw : w.policy = .warn) :
    ∃ c w', (closeChild place parent name id (.ok ())).run.run w = (.ok c, w') ∧
      w'.policy = .warn ∧ w'.dangling = w.dangling ++ (w.danglingOutputs id).toArray := by
  obtain ⟨w₁, hcheck, hpolicy, hdangling⟩ := checkDangling_warn id hw
  obtain ⟨c, w₂, hc⟩ := hang_ok place parent name id w₁
  have hkeeps := (blind_hang place parent name id).keeps w₁
  rw [hc] at hkeeps
  refine ⟨c, w₂, ?_, hkeeps.1.trans hpolicy, hkeeps.2.trans hdangling⟩
  rw [closeChild_ok, Work.run_bind, hcheck]
  exact hc

theorem closeChild_strict (hw : w.policy = .warn) (h : w.danglingOutputs id = []) :
    (closeChild place parent name id (.ok ())).run.run w.strict =
      (((closeChild place parent name id (.ok ())).run.run w).1,
        ((closeChild place parent name id (.ok ())).run.run w).2.strict) := by
  obtain ⟨w₁, hcheck, -⟩ := checkDangling_warn id hw
  rw [closeChild_ok, Work.run_bind, Work.run_bind, checkDangling_strict id hw h, hcheck]
  exact (blind_hang place parent name id).strict w₁

theorem closeChild_refused (h : w.danglingOutputs id ≠ []) :
    ∃ e : Error, e.kind = .dangling ∧
      (closeChild place parent name id (.ok ())).run.run w.strict = (.error e, w.strict) := by
  obtain ⟨e, he, hcheck⟩ := checkDangling_refused id h
  refine ⟨e, he, ?_⟩
  rw [closeChild_ok, Work.run_bind, hcheck]

end

/-- The dangling outputs of components at the ends of their builds. -/
def reports (fs : List (ℕ × Workspace)) : List String :=
  fs.flatMap fun q => q.2.danglingOutputs q.1

theorem reports_append (fs gs : List (ℕ × Workspace)) :
    reports (fs ++ gs) = reports fs ++ reports gs := List.flatMap_append

end Workspace

/-! ## Runs -/

namespace Program

open Workspace (reports reports_append)

variable {σ : Type}

/-- **A run that only warns reports the dangling outputs of the components that it
    finishes.** -/
theorem run_dangling {α : Type} (p : Program σ α) : ∀ {here : ℕ} {w : Workspace} (h : σ),
    w.policy = .warn → (p.run here (w, h)).2.1.policy = .warn ∧
      (p.run here (w, h)).2.1.dangling.toList =
        w.dangling.toList ++ reports (p.finished here (w, h)) := by
  induction p with
  | pure a => exact fun h hw => ⟨hw, (List.append_nil _).symm⟩
  | request c next ih =>
    intro here w h hw
    obtain ⟨hpolicy, hdangling⟩ := (blind_perform here c).keeps w
    rw [← hdangling]
    exact ih _ h (hpolicy.trans hw)
  | child place application body next ihbody ihnext =>
    intro here w h hw
    obtain ⟨hpolicy, hdangling⟩ := (Workspace.blind_openChild here place application).keeps w
    rcases ho : (Workspace.openChild here place application).run.run w with
      ⟨e | ⟨parent, name, id⟩, w₁⟩ <;> rw [ho] at hpolicy hdangling <;> rw [← hdangling]
    · obtain ⟨hrun, hfin⟩ := child_refused body next h ho
      rw [hrun, hfin]
      exact ihnext _ h (hpolicy.trans hw)
    · obtain ⟨hpolicy₂, hdangling₂⟩ := @ihbody id w₁ h (hpolicy.trans hw)
      rcases hb : body.run id (w₁, h) with ⟨e | ⟨⟨⟩⟩, w₂, h₂⟩ <;> rw [hb] at hpolicy₂ hdangling₂ <;>
        dsimp only at hpolicy₂ hdangling₂
      · obtain ⟨hrun, hfin⟩ := child_left next ho hb rfl
        rw [hrun, hfin, List.append_assoc, reports_append, ← List.append_assoc, ← hdangling₂]
        exact ihnext (.error e) h₂ hpolicy₂
      · obtain ⟨c, w₃, hc, hpolicy₃, hdangling₃⟩ :=
          Workspace.closeChild_warn place parent name id hpolicy₂
        obtain ⟨hrun, hfin⟩ := child_left next ho hb hc
        have hown : w₃.dangling.toList = w₁.dangling.toList ++
            reports (body.finished id (w₁, h) ++ [(id, w₂)]) := by
          rw [hdangling₃, Array.toList_append, hdangling₂, reports_append, List.append_assoc]
          exact congrArg _ (congrArg _ (List.append_nil _).symm)
        rw [hrun, hfin, reports_append, ← List.append_assoc]
        refine (ihnext (.ok c) h₂ hpolicy₃).imp_right fun hend => hend.trans ?_
        exact congrArg (· ++ _) hown
  | getHost next ih => exact fun h hw => ih h h hw
  | setHost h' next ih => exact fun h hw => ih h' hw

/-- **A run without dangling outputs is the same where they are errors.** -/
theorem run_strict {α : Type} (p : Program σ α) : ∀ {here : ℕ} {w : Workspace} (h : σ),
    w.policy = .warn → reports (p.finished here (w, h)) = [] →
      p.run here (w.strict, h) = ((p.run here (w, h)).1,
        ((p.run here (w, h)).2.1.strict, (p.run here (w, h)).2.2)) := by
  induction p with
  | pure a => exact fun h _ _ => rfl
  | request c next ih =>
    intro here w h hw hnil
    have hpolicy := ((blind_perform here c).keeps w).1
    rw [run, (blind_perform here c).strict w]
    exact ih _ h (hpolicy.trans hw) hnil
  | child place application body next ihbody ihnext =>
    intro here w h hw hnil
    have hpolicy := ((Workspace.blind_openChild here place application).keeps w).1
    have hstrict := (Workspace.blind_openChild here place application).strict w
    rcases ho : (Workspace.openChild here place application).run.run w with
      ⟨e | ⟨parent, name, id⟩, w₁⟩ <;> rw [ho] at hpolicy hstrict
    · obtain ⟨hrun, hfin⟩ := child_refused body next h ho
      rw [hfin] at hnil
      rw [hrun, (child_refused body next h hstrict).1]
      exact ihnext _ h (hpolicy.trans hw) hnil
    · have hpolicy₁ := hpolicy.trans hw
      have hpolicy₂ := (@run_dangling _ _ body id w₁ h hpolicy₁).1
      rcases hb : body.run id (w₁, h) with ⟨e | ⟨⟨⟩⟩, w₂, h₂⟩ <;> rw [hb] at hpolicy₂ <;>
        dsimp only at hpolicy₂
      · obtain ⟨hrun, hfin⟩ := child_left next ho hb rfl
        rw [hfin, reports_append, reports_append] at hnil
        simp only [List.append_eq_nil_iff] at hnil
        have hbody := @ihbody id w₁ h hpolicy₁ hnil.1.1
        rw [hb] at hbody
        rw [hrun, (child_left next hstrict hbody rfl).1]
        exact ihnext (.error e) h₂ hpolicy₂ hnil.2
      · obtain ⟨c, w₃, hc, hpolicy₃, -⟩ :=
          Workspace.closeChild_warn place parent name id hpolicy₂
        obtain ⟨hrun, hfin⟩ := child_left next ho hb hc
        rw [hfin, reports_append, reports_append] at hnil
        simp only [List.append_eq_nil_iff] at hnil
        have hbody := @ihbody id w₁ h hpolicy₁ hnil.1.1
        rw [hb] at hbody
        have hnone : w₂.danglingOutputs id = [] := by
          simpa [reports, Except.toOption] using hnil.1.2
        have hclose := Workspace.closeChild_strict place parent name id hpolicy₂ hnone
        rw [hc] at hclose
        rw [hrun, (child_left next hstrict hbody hclose).1]
        exact ihnext (.ok c) h₂ hpolicy₃ hnil.2
  | getHost next ih => exact fun h hw => ih h h hw
  | setHost h' next ih => exact fun h hw => ih h' hw

/-! ## Errors that are passed on -/

/-- The result is the error of a dangling output. -/
def Dangles {α : Type} (r : Except Error α) : Prop := ∃ e : Error, r = .error e ∧ e.kind = .dangling

/-- However its requests are answered, the program ends with such a result. -/
def Ends {α : Type} : Program σ α → (α → Prop) → Prop
  | .pure a, R => R a
  | .request _ next, R => ∀ r, (next r).Ends R
  | .child _ _ _ next, R => ∀ r, (next r).Ends R
  | .getHost next, R => ∀ h, (next h).Ends R
  | .setHost _ next, R => next.Ends R

/-- When a child is refused for a dangling output, the program ends with such a
    result, and the programs of children end with such an error. -/
def Relays {α : Type} : Program σ α → (α → Prop) → Prop
  | .pure _, _ => True
  | .request _ next, R => ∀ r, (next r).Relays R
  | .child _ _ body next, R => body.Relays Dangles ∧ (∀ r, (next r).Relays R) ∧
      ∀ e : Error, e.kind = .dangling → (next (.error e)).Ends R
  | .getHost next, R => ∀ h, (next h).Relays R
  | .setHost _ next, R => next.Relays R

theorem Ends.run {α : Type} (p : Program σ α) : ∀ {R : α → Prop} (here : ℕ) (w : Workspace) (h : σ),
    p.Ends R → R (p.run here (w, h)).1 := by
  induction p with
  | pure a => exact fun _ _ _ hp => hp
  | request c next ih => exact fun here w h hp => ih _ here _ h (hp _)
  | child place application body next _ ihnext =>
    intro R here w h hp
    rw [Program.run]
    rcases (Workspace.openChild here place application).run.run w with
      ⟨e | ⟨parent, name, id⟩, w₁⟩
    · exact ihnext _ here w₁ h (hp _)
    · exact ihnext _ here _ _ (hp _)
  | getHost next ih => exact fun here w h hp => ih h here w h (hp h)
  | setHost h' next ih => exact fun here w h hp => ih here w h' hp

/-- **A program that passes the errors of dangling outputs on ends with one**, if there
    is a dangling output. -/
theorem run_relays {α : Type} (p : Program σ α) :
    ∀ {R : α → Prop} {here : ℕ} {w : Workspace} (h : σ), p.Relays R → w.policy = .warn →
      reports (p.finished here (w, h)) ≠ [] → R (p.run here (w.strict, h)).1 := by
  induction p with
  | pure a => exact fun h _ _ hne => absurd rfl hne
  | request c next ih =>
    intro R here w h hp hw hne
    have hpolicy := ((blind_perform here c).keeps w).1
    rw [run, (blind_perform here c).strict w]
    exact ih _ h (hp _) (hpolicy.trans hw) hne
  | child place application body next ihbody ihnext =>
    intro R here w h hp hw hne
    obtain ⟨hbody, hnext, hends⟩ := hp
    have hpolicy := ((Workspace.blind_openChild here place application).keeps w).1
    have hstrict := (Workspace.blind_openChild here place application).strict w
    rcases ho : (Workspace.openChild here place application).run.run w with
      ⟨e | ⟨parent, name, id⟩, w₁⟩ <;> rw [ho] at hpolicy hstrict
    · rw [(child_refused body next h ho).2] at hne
      rw [(child_refused body next h hstrict).1]
      exact ihnext _ h (hnext _) (hpolicy.trans hw) hne
    · have hpolicy₁ := hpolicy.trans hw
      by_cases hinside : reports (body.finished id (w₁, h)) = []
      · have hpolicy₂ := (@run_dangling _ _ body id w₁ h hpolicy₁).1
        have hsame := @run_strict _ _ body id w₁ h hpolicy₁ hinside
        rcases hb : body.run id (w₁, h) with ⟨e | ⟨⟨⟩⟩, w₂, h₂⟩ <;> rw [hb] at hpolicy₂ hsame <;>
          dsimp only at hpolicy₂
        · rw [(child_left next ho hb rfl).2, List.append_assoc, reports_append, hinside] at hne
          rw [(child_left next hstrict hsame rfl).1]
          exact ihnext (.error e) h₂ (hnext _) hpolicy₂ hne
        · by_cases hnone : w₂.danglingOutputs id = []
          · obtain ⟨c, w₃, hc, hpolicy₃, -⟩ :=
              Workspace.closeChild_warn place parent name id hpolicy₂
            have hclose := Workspace.closeChild_strict place parent name id hpolicy₂ hnone
            rw [hc] at hclose
            have hown : reports [(id, w₂)] = [] := (List.append_nil _).trans hnone
            rw [(child_left next ho hb hc).2, List.append_assoc, reports_append, reports_append,
              hinside, List.nil_append] at hne
            rw [(child_left next hstrict hsame hclose).1]
            refine ihnext (.ok c) h₂ (hnext _) hpolicy₃ fun hnil => hne ?_
            exact List.append_eq_nil_iff.2 ⟨hown, hnil⟩
          · obtain ⟨e, he, hc⟩ := Workspace.closeChild_refused place parent name id hnone
            rw [(child_left next hstrict hsame hc).1]
            exact Ends.run _ here _ _ (hends e he)
      · -- an error inside the child is an error of the child
        obtain ⟨e, hresult, he⟩ := @ihbody _ id w₁ h hbody hpolicy₁ hinside
        rcases hb : body.run id (w₁.strict, h) with ⟨built, w₂, h₂⟩
        obtain rfl : built = .error e := by rw [← hresult, hb]
        rw [(child_left next hstrict hb rfl).1]
        exact Ends.run _ here _ _ (hends e he)
  | getHost next ih => exact fun h hp hw => ih h h (hp h) hw
  | setHost h' next ih => exact fun h hp hw => ih h' hp hw

section
variable {α β : Type} {R : α → Prop} {Q : β → Prop} {f : α → Program σ β}

theorem Ends.bind (p : Program σ α) (hp : p.Ends R) (hf : ∀ a, R a → (f a).Ends Q) :
    (p.bind f).Ends Q := by
  induction p with
  | pure a => exact hf a hp
  | request c next ih => exact fun r => ih r (hp r) hf
  | child place application body next _ ihnext => exact fun r => ihnext r (hp r) hf
  | getHost next ih => exact fun h => ih h (hp h) hf
  | setHost h next ih => exact ih hp hf

theorem Relays.bind (p : Program σ α) (hp : p.Relays R) (hf : ∀ a, (f a).Relays Q)
    (hends : ∀ a, R a → (f a).Ends Q) : (p.bind f).Relays Q := by
  induction p with
  | pure a => exact hf a
  | request c next ih => exact fun r => ih r (hp r) hf hends
  | child place application body next _ ihnext =>
    exact ⟨hp.1, fun r => ihnext r (hp.2.1 r) hf hends, fun e he => (hp.2.2 e he).bind _ hends⟩
  | getHost next ih => exact fun h => ih h (hp h) hf hends
  | setHost h next ih => exact ih hp hf hends

end

end Program

namespace Build

variable {σ α β : Type}

/-- The build passes the errors of dangling outputs on. -/
def Relays (x : Build σ α) : Prop := Program.Relays x.run Program.Dangles

theorem relays_demand (r : Except Error α) : Relays (demand r : Build σ α) := trivial

theorem relays_request (c : Command) : Relays (request c : Build σ c.Reply) := fun _ => trivial

theorem relays_place (place : Place) {t : Template σ} (ht : Relays t.body) :
    Relays (Build.place place t) :=
  ⟨ht, fun _ => trivial, fun e he => ⟨e, rfl, he⟩⟩

theorem Relays.bind {x : Build σ α} {g : α → Build σ β} (hx : Relays x)
    (hg : ∀ a, Relays (g a)) : Relays (x >>= g) := by
  refine Program.Relays.bind x.run hx ?_ ?_
  · rintro (e | a)
    · exact trivial
    · exact hg a
  · rintro _ ⟨e, rfl, he⟩
    exact ⟨e, rfl, he⟩

theorem relays_signal (role : Role) (name : String) :
    Relays (signal role name : Build σ Signal) := by
  refine (relays_request _).bind fun bus => ?_
  cases bus <;> exact relays_demand _

theorem relays_terminalSignal (c : Component) (name : String) :
    Relays (terminalSignal c name : Build σ Signal) := by
  refine (relays_demand _).bind fun bus => ?_
  cases bus <;> exact relays_demand _

end Build

end RankOne
