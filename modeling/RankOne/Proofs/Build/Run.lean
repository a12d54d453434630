/-
  RankOne — what the expansion of templates can do to a workspace.

  * `Workspace.Move`: the changes that leave the draft alone, one constructor
    each;
  * `Statement.Changes`: what an executed statement does to the draft;
  * `Workspace.Run`: a chain of moves and statements, with the statements in
    order and the components that may act and be attached;
  * `Workspace.Still`, `Performed`: what leaves the rows alone, and what a request does;
  * `Workspace.Entered`, `Run.seat`: where a component was entered, and that it keeps
    its path, its parent and its name;
  * `Program.components`, `Program.actors`: the components a program builds, and
    those that act while it runs;
  * `run_spec`, `expand_spec`, `compile_spec`: every expansion is such a chain,
    with the statements it executes.  Invariants follow by induction on the chain;
  * `Program.Placing`: the chains that enter, build and leave a child.
-/
import RankOne.Proofs.Build.Statement
import RankOne.Proofs.Draft

namespace RankOne

/-! ## Work -/

namespace Work

variable {α β : Type} (w : Workspace)

theorem run_bind (x : Work α) (g : α → Work β) :
    (x >>= g).run.run w = match x.run.run w with
      | (.ok a, w') => (g a).run.run w'
      | (.error e, w') => (.error e, w') := by
  simp only [ExceptT.run_bind, StateT.run_bind]
  rcases x.run.run w with ⟨e | a, w'⟩ <;> rfl

theorem run_pure (a : α) : (pure a : Work α).run.run w = (.ok a, w) := rfl

theorem run_get : (get : Work Workspace).run.run w = (.ok w, w) := rfl

theorem run_set (w' : Workspace) : (set w' : Work PUnit).run.run w = (.ok ⟨⟩, w') := rfl

theorem run_modify (g : Workspace → Workspace) :
    (modify g : Work PUnit).run.run w = (.ok ⟨⟩, g w) := rfl

theorem run_liftM (x : Except Error α) : (liftM x : Work α).run.run w = (x, w) := by
  cases x <;> rfl

end Work

/-! ## Moves -/

/-- The component that a place for a child of `here` belongs to. -/
def Place.owner (here : Nat) : Place → Nat
  | .named _ => here
  | .slot a _ => a.owner

/-- The rows that a component noted, and the signals of these rows. -/
def Instance.notes (c : Instance) : List Nat × List Signal := (c.rows, c.referenced)

namespace Workspace

/-- A new child of a component. -/
def freshChild (w : Workspace) (parent : Nat) (name : String) (application : Application) :
    Instance :=
  { (default : Instance) with
    name, path := s!"{(w.instanceAt parent).path}.{name}", application, parent := some parent }

/-- The workspace with a new declaration of a component, under a name it takes. -/
def withDeclared (w : Workspace) (here : Nat) (signals : Array Signal) (d : Declaration) :
    Workspace :=
  { w with signals }.updateInstance here fun c =>
    { c with names := d.name :: c.names, declarations := c.declarations ++ [d] }

/-- A change of the workspace by the component of number `here`, which leaves the
    draft alone. -/
inductive Move (here : Nat) : Workspace → Workspace → Prop
  /-- take a name in the component -/
  | reserve {w : Workspace} (name : String) (h : name ∉ (w.instanceAt here).names) :
      Move here w (w.updateInstance here fun c => { c with names := name :: c.names })
  /-- take a name in the component and declare a bus under it -/
  | declare {w : Workspace} (h : here < w.instances.size) (role : Role) (name : String)
      (hname : name ∉ (w.instanceAt here).names) (dims : List Nat) (mark : Mark) {bus : Bus}
      {signals : Array Signal}
      (hbus : makeBus w.field role (w.instanceAt here).path dims mark
        s!"{(w.instanceAt here).path}.{name}" w.signals = (bus, signals)) :
      Move here w (w.withDeclared here signals ⟨name, role, bus⟩)
  /-- enter a child of some component -/
  | enter {w : Workspace} (parent : Nat) (name : String) (application : Application)
      (hparent : parent < w.instances.size) :
      Move here w { w with instances := w.instances.push (w.freshChild parent name application) }
  /-- note a row against the component that emitted it -/
  | record {w : Workspace} (row : Nat) (hrow : row < w.draft.rows.size) :
      Move here w (Workspace.record here row w)
  /-- keep the books: arrays of places and what fills them, positions, reports -/
  | keep {w w' : Workspace} (field : w'.field = w.field) (policy : w'.policy = w.policy)
      (signals : w'.signals = w.signals) (draft : w'.draft = w.draft)
      (instances : w'.instances = w.instances) : Move here w w'

end Workspace

/-- What an executed statement does to the draft. -/
inductive Statement.Changes (w : Workspace) : Statement → Draft → Prop
  | assign {id row : Nat} {target : Signal} {e : Expr} {draft : Draft} (hid : id < w.instances.size)
      (hw : Workspace.writable (w.instanceAt id) target = .ok ())
      (h : w.draft.assign target e (w.instanceAt id).path = .ok (row, draft)) :
      Changes w (.assign (w.instanceAt id).path target e) draft
  | constrain {id : Nat} {row : Option Nat} {l r : Expr} {draft : Draft}
      (hid : id < w.instances.size)
      (h : w.draft.constrain l r (w.instanceAt id).path = .ok (row, draft)) :
      Changes w (.constrain (w.instanceAt id).path l r) draft
  | hint {id : Nat} {target : Signal} {h : Hint} {deps : List Expr} {draft : Draft}
      (hid : id < w.instances.size)
      (hw : Workspace.writable (w.instanceAt id) target = .ok ())
      (hd : w.draft.hint target h (.ok deps) (w.instanceAt id).path = .ok draft) :
      Changes w (.hint (w.instanceAt id).path target h deps) draft

namespace Workspace

/-- The component of number `child` was entered under a local name of another. -/
structure Entered (w : Workspace) (parent : Nat) (name : String) (child : Nat) : Prop where
  lt : child < w.instances.size
  parent : (w.instanceAt child).parent = some parent
  name : (w.instanceAt child).name = name

/-- A chain of moves by the components of `S`, of executed statements, and of
    finished children of `A` that are hung into the tree. -/
inductive Run (S A : Set Nat) : Workspace → List Statement → Workspace → Prop
  | done (w : Workspace) : Run S A w [] w
  | move {w w₁ w₂ : Workspace} {sts : List Statement} {here : Nat} (hh : here ∈ S) :
      Move here w w₁ → Run S A w₁ sts w₂ → Run S A w sts w₂
  | attach {w w₂ : Workspace} {sts : List Statement} (id : Nat) (name : String) {child : Nat}
      (hchild : child ∈ A) (hentered : w.Entered id name child) :
      Run S A (w.updateInstance id fun c =>
        { c with children := Instance.attach name child c.children }) sts w₂ →
      Run S A w sts w₂
  | state {w w₂ : Workspace} {st : Statement} {draft : Draft} {sts : List Statement} :
      st.Changes w draft → Run S A { w with draft } sts w₂ → Run S A w (st :: sts) w₂

variable {S A : Set Nat}

theorem Run.single {w w' : Workspace} {here : Nat} (hh : here ∈ S) (h : Move here w w') :
    Run S A w [] w' := .move hh h (.done w')

theorem Run.trans {w w₁ w₂ : Workspace} {xs ys : List Statement} (h : Run S A w xs w₁)
    (h' : Run S A w₁ ys w₂) : Run S A w (xs ++ ys) w₂ := by
  induction h with
  | done => exact h'
  | move hh hm _ ih => exact .move hh hm (ih h')
  | attach id name hchild he _ ih => exact .attach id name hchild he (ih h')
  | state hc _ ih => exact .state hc (ih h')

theorem Run.mono {S' A' : Set Nat} {w w' : Workspace} {sts : List Statement}
    (h : Run S A w sts w') (hS : S ⊆ S') (hA : A ⊆ A') : Run S' A' w sts w' := by
  induction h with
  | done w => exact .done w
  | move hh hm _ ih => exact .move (hS hh) hm ih
  | attach id name hchild he _ ih => exact .attach id name (hA hchild) he ih
  | state hc _ ih => exact .state hc ih

theorem Run.any {w w' : Workspace} {sts : List Statement} (h : Run S A w sts w') :
    Run Set.univ Set.univ w sts w' := h.mono (Set.subset_univ _) (Set.subset_univ _)

theorem Run.report {w : Workspace} {here : Nat} (level : Log.Level) (source : Log.Source)
    (text : String) : Run {here} A w [] (w.report level source text) :=
  .single rfl (.keep rfl rfl rfl rfl rfl)

theorem size_updateInstance (w : Workspace) (id : Nat) (g : Instance → Instance) :
    (w.updateInstance id g).instances.size = w.instances.size := by simp [updateInstance]

theorem instanceAt_updateInstance (w : Workspace) (id j : ℕ) (g : Instance → Instance) :
    (w.updateInstance id g).instanceAt j =
      if id = j ∧ j < w.instances.size then g (w.instanceAt j) else w.instanceAt j := by
  simp only [instanceAt, updateInstance, Array.getD_eq_getD_getElem?, Array.getElem?_modify]
  by_cases hj : j < w.instances.size
  · by_cases h : id = j <;> simp [h, hj]
  · simp [hj]

theorem instanceAt_of_le {w : Workspace} {id : ℕ} (h : w.instances.size ≤ id) :
    w.instanceAt id = default := by
  rw [instanceAt, Array.getD_eq_getD_getElem?, Array.getElem?_eq_none h]; rfl

theorem getElem?_instances {w : Workspace} {id : ℕ} (h : id < w.instances.size) :
    w.instances[id]? = some (w.instanceAt id) := by
  rw [instanceAt, Array.getD_eq_getD_getElem?, Array.getElem?_eq_getElem h]; rfl

theorem instanceAt_mem {w : Workspace} {id : ℕ} (h : id < w.instances.size) :
    w.instanceAt id ∈ w.instances :=
  Array.mem_of_getElem? (getElem?_instances h)

/-- Where something tells the components apart, a component is known by it. -/
theorem eq_of_instance_eq {β : Type} {w : Workspace} {g : Instance → β}
    (h : (w.instances.toList.map g).Nodup) {i j : ℕ} (hi : i < w.instances.size)
    (hj : j < w.instances.size) (hg : g (w.instanceAt i) = g (w.instanceAt j)) : i = j := by
  refine (List.getElem?_inj (by simpa using hi) h).1 ?_
  rw [List.getElem?_map, List.getElem?_map, Array.getElem?_toList, Array.getElem?_toList,
    getElem?_instances hi, getElem?_instances hj, Option.map_some, Option.map_some, hg]

theorem instanceAt_push (w : Workspace) (c : Instance) (j : ℕ) :
    instanceAt { w with instances := w.instances.push c } j =
      if j = w.instances.size then c else w.instanceAt j := by
  simp only [instanceAt, Array.getD_eq_getD_getElem?, Array.getElem?_push]
  split_ifs <;> rfl

/-- Two changes of one instance are one. -/
theorem updateInstance_updateInstance (w : Workspace) (id : Nat) (g h : Instance → Instance) :
    (w.updateInstance id g).updateInstance id h = w.updateInstance id (h ∘ g) := by
  simp only [updateInstance]
  congr 1
  refine Array.ext (by simp) fun i hi hi' => ?_
  simp only [Array.getElem_modify]
  split_ifs <;> rfl

theorem instanceAt_withDeclared (w : Workspace) (here j : Nat) (signals : Array Signal)
    (d : Declaration) : (w.withDeclared here signals d).instanceAt j =
      if here = j ∧ j < w.instances.size then
        { w.instanceAt j with
          names := d.name :: (w.instanceAt j).names
          declarations := (w.instanceAt j).declarations ++ [d] }
      else w.instanceAt j :=
  instanceAt_updateInstance { w with signals } here j _

/-- A declaration takes its name first. -/
theorem withDeclared_eq (w : Workspace) (here : Nat) (signals : Array Signal) (d : Declaration) :
    w.withDeclared here signals d = updateInstance
      { w.updateInstance here fun c => { c with names := d.name :: c.names } with signals }
      here fun c => { c with declarations := c.declarations ++ [d] } :=
  (updateInstance_updateInstance { w with signals } here
    (fun c => { c with names := d.name :: c.names })
    fun c => { c with declarations := c.declarations ++ [d] }).symm

theorem Move.size_le {w w' : Workspace} {here : Nat} (h : Move here w w') :
    w.instances.size ≤ w'.instances.size := by
  cases h with
  | reserve | declare | record => exact Nat.le_of_eq (size_updateInstance _ _ _).symm
  | enter => simp
  | keep _ _ _ _ hi => exact Nat.le_of_eq (by rw [hi])

/-- Instances are only added. -/
theorem Run.size_le {w w' : Workspace} {sts : List Statement} (h : Run S A w sts w') :
    w.instances.size ≤ w'.instances.size := by
  induction h with
  | done => exact Nat.le_refl _
  | move _ hm _ ih => exact Nat.le_trans hm.size_le ih
  | attach id name _ _ _ ih => rwa [size_updateInstance] at ih
  | state _ _ ih => exact ih

/-- Where a component stands in the tree: its path, its parent and its local name. -/
def seat (w : Workspace) (id : Nat) : String × Option Nat × String :=
  ((w.instanceAt id).path, (w.instanceAt id).parent, (w.instanceAt id).name)

theorem seat_updateInstance (w : Workspace) (id j : Nat) {g : Instance → Instance}
    (hg : ∀ c, (g c).path = c.path ∧ (g c).parent = c.parent ∧ (g c).name = c.name) :
    (w.updateInstance id g).seat j = w.seat j := by
  rw [seat, seat, instanceAt_updateInstance]
  split_ifs
  · rw [(hg _).1, (hg _).2.1, (hg _).2.2]
  · rfl

theorem Move.seat {w w' : Workspace} {here j : Nat} (h : Move here w w')
    (hj : j < w.instances.size) : w'.seat j = w.seat j := by
  cases h with
  | reserve | record => exact seat_updateInstance w here j fun _ => ⟨rfl, rfl, rfl⟩
  | declare => exact seat_updateInstance _ here j fun _ => ⟨rfl, rfl, rfl⟩
  | enter => rw [Workspace.seat, Workspace.seat, instanceAt_push, if_neg (by omega)]
  | keep _ _ _ _ hi => simp only [Workspace.seat, instanceAt, hi]

/-- **A component keeps its seat.** -/
theorem Run.seat {w w' : Workspace} {sts : List Statement} {j : Nat} (h : Run S A w sts w')
    (hj : j < w.instances.size) : w'.seat j = w.seat j := by
  induction h with
  | done => rfl
  | move _ hm _ ih => rw [ih (Nat.lt_of_lt_of_le hj hm.size_le), hm.seat hj]
  | attach id name _ _ _ ih =>
    rw [ih (by rwa [size_updateInstance])]
    exact seat_updateInstance _ id j fun _ => ⟨rfl, rfl, rfl⟩
  | state _ _ ih => exact ih hj

theorem Run.path {w w' : Workspace} {sts : List Statement} {j : Nat} (h : Run S A w sts w')
    (hj : j < w.instances.size) : (w'.instanceAt j).path = (w.instanceAt j).path :=
  congrArg Prod.fst (h.seat hj)

theorem Run.entered {w w' : Workspace} {sts : List Statement} {parent child : Nat} {name : String}
    (h : Run S A w sts w') (he : w.Entered parent name child) : w'.Entered parent name child := by
  obtain ⟨-, hparent, hname⟩ : _ ∧ _ ∧ _ := by simpa [Workspace.seat] using h.seat he.lt
  exact ⟨Nat.lt_of_lt_of_le he.lt h.size_le, hparent.trans he.parent, hname.trans he.name⟩

/-! ## Operations -/

section
variable {α β : Type} {w : Workspace} {here : Nat}

/-- Nothing happens to rows: the draft keeps its rows, no component is entered, and
    none notes a row. -/
structure Still (w w' : Workspace) : Prop where
  draft : w'.draft.rows = w.draft.rows
  size : w'.instances.size = w.instances.size
  notes : ∀ id, (w'.instanceAt id).notes = (w.instanceAt id).notes

theorem Still.refl (w : Workspace) : Still w w := ⟨rfl, rfl, fun _ => rfl⟩

theorem Still.trans {w₁ w₂ : Workspace} (h : Still w w₁) (h' : Still w₁ w₂) : Still w w₂ :=
  ⟨h'.draft.trans h.draft, h'.size.trans h.size, fun id => (h'.notes id).trans (h.notes id)⟩

theorem still_of_instances {w' : Workspace} (hd : w'.draft.rows = w.draft.rows)
    (hi : w'.instances = w.instances) : Still w w' :=
  ⟨hd, by rw [hi], fun id => by rw [instanceAt, instanceAt, hi]⟩

theorem still_updateInstance (w : Workspace) (id : Nat) {g : Instance → Instance}
    (hg : ∀ c, (g c).notes = c.notes) : Still w (w.updateInstance id g) := by
  refine ⟨rfl, size_updateInstance w id g, fun j => ?_⟩
  rw [instanceAt_updateInstance]
  split_ifs
  · exact hg _
  · rfl

theorem still_declared (w : Workspace) (here : Nat) (signals : Array Signal) (d : Declaration) :
    Still w (updateInstance { w with signals } here fun c =>
      { c with declarations := c.declarations ++ [d] }) := by
  obtain ⟨hdraft, hsize, hnotes⟩ := still_updateInstance { w with signals } here
    (g := fun c => { c with declarations := c.declarations ++ [d] }) fun _ => rfl
  exact ⟨hdraft, hsize, hnotes⟩

/-- The workspace after `x` is reached by moves of the component `here` only, and
    nothing happens to rows. -/
structure Quiet (here : Nat) (w : Workspace) (x : Work α) : Prop where
  run : Run {here} ∅ w [] (x.run.run w).2
  still : Still w (x.run.run w).2

theorem quiet_pure (a : α) : Quiet here w (pure a : Work α) := ⟨.done w, .refl w⟩

theorem quiet_throw (e : Error) : Quiet here w (throw e : Work α) := ⟨.done w, .refl w⟩

theorem quiet_liftM (x : Except Error α) : Quiet here w (liftM x : Work α) := by
  constructor <;> rw [Work.run_liftM]
  · exact .done w
  · exact .refl w

theorem quiet_get {g : Workspace → Work β} (h : Quiet here w (g w)) : Quiet here w (get >>= g) := by
  constructor <;> rw [Work.run_bind, Work.run_get]
  · exact h.run
  · exact h.still

theorem Quiet.bind {x : Work α} {g : α → Work β} (hx : Quiet here w x)
    (hg : ∀ a w', x.run.run w = (.ok a, w') → Quiet here w' (g a)) : Quiet here w (x >>= g) := by
  obtain ⟨hrun, hstill⟩ := hx
  rcases h : x.run.run w with ⟨e | a, w'⟩ <;> rw [h] at hrun hstill <;>
    constructor <;> rw [Work.run_bind, h]
  · exact hrun
  · exact hstill
  · exact hrun.trans (hg a w' h).run
  · exact hstill.trans (hg a w' h).still

theorem quiet_set {w' : Workspace} (h : Move here w w') (hs : Still w w') :
    Quiet here w (set w' : Work PUnit) := ⟨.single rfl h, hs⟩

theorem quiet_modify {g : Workspace → Workspace} (h : Move here w (g w)) (hs : Still w (g w)) :
    Quiet here w (modify g : Work PUnit) := ⟨.single rfl h, hs⟩

theorem quiet_reserve (here : Nat) (name : String) : Quiet here w (reserve here name) := by
  refine quiet_get ?_
  dsimp only
  split
  · exact quiet_throw _
  · next h =>
    exact quiet_modify (.reserve name (by simpa using h))
      (still_updateInstance w here fun _ => rfl)

theorem run_declare (hh : here < w.instances.size) (role : Role) (name : String)
    (dims : Except Error (List Int)) :
    Run {here} ∅ w [] ((declare here role name dims).run.run w).2 := by
  by_cases hname : name ∈ (w.instanceAt here).names
  · have hrun : (reserve here name).run.run w = (.error (.declaredTwice name
        (w.instanceAt here).path (w.instanceAt here).title.name), w) := by
      rw [reserve, Work.run_bind, Work.run_get]
      simp [hname]
      rfl
    rw [declare, Work.run_bind, hrun]
    exact .done w
  · -- the name stays taken when the sizes are refused
    have hreserve := @Move.reserve here w name hname
    have hrun : (reserve here name).run.run w =
        (.ok ⟨⟩, w.updateInstance here fun c => { c with names := name :: c.names }) := by
      rw [reserve, Work.run_bind, Work.run_get]
      simp [hname]
      rfl
    have hat : instanceAt (w.updateInstance here fun c => { c with names := name :: c.names }) here =
        { w.instanceAt here with names := name :: (w.instanceAt here).names } := by
      rw [instanceAt_updateInstance, if_pos ⟨rfl, hh⟩]
    rw [declare, Work.run_bind, hrun]
    dsimp only
    rw [Work.run_bind, Work.run_liftM]
    cases dims with
    | error e => exact .single rfl hreserve
    | ok dims =>
      dsimp only
      rw [Work.run_bind, Work.run_get]
      dsimp only
      rw [hat]
      split
      · exact .single rfl hreserve
      · have hmove := Move.declare hh role name hname (dims.map Int.toNat)
          [0, here, (w.instanceAt here).declarations.length] rfl
        rw [withDeclared_eq] at hmove
        exact .single rfl hmove

theorem still_declare (here : Nat) (role : Role) (name : String) (dims : Except Error (List Int)) :
    Still w ((declare here role name dims).run.run w).2 := by
  have hreserve := (quiet_reserve (w := w) here name).still
  rw [declare, Work.run_bind]
  rcases hr : (reserve here name).run.run w with ⟨e | u, w₁⟩ <;> rw [hr] at hreserve <;> dsimp only
  · exact hreserve
  · rw [Work.run_bind, Work.run_liftM]
    cases dims with
    | error e => exact hreserve
    | ok dims =>
      dsimp only
      rw [Work.run_bind, Work.run_get]
      dsimp only
      split
      · exact hreserve
      · exact hreserve.trans (still_declared w₁ here _ _)

theorem quiet_declare (hh : here < w.instances.size) (role : Role) (name : String)
    (dims : Except Error (List Int)) : Quiet here w (declare here role name dims) :=
  ⟨run_declare hh role name dims, still_declare here role name dims⟩

theorem quiet_declareSlots (here : Nat) (name : String) (dims : Except Error (List Int)) :
    Quiet here w (declareSlots here name dims) := by
  refine (quiet_reserve here name).bind fun _ _ _ => (quiet_liftM dims).bind fun dims _ _ => ?_
  split
  · exact quiet_throw _
  · refine quiet_get ((quiet_liftM _).bind fun _ _ _ => quiet_get ?_)
    refine Quiet.bind (quiet_set ?_ (still_of_instances rfl rfl)) fun _ _ _ => quiet_pure _
    exact .keep rfl rfl rfl rfl rfl

theorem quiet_readSlot (here : Nat) (a : SlotArray) (i : Int) (label : String) :
    Quiet here w (readSlot a i label) := by
  unfold readSlot
  split
  · exact quiet_throw _
  · split
    · exact quiet_pure _
    · refine quiet_get ?_
      split
      · exact quiet_pure _
      · exact quiet_throw _

theorem quiet_occupy (here : Nat) : ∀ place : Place, Quiet here w (occupy here place)
  | .named name => (quiet_reserve here name).bind fun _ _ _ => quiet_pure _
  | .slot a i => by
    rw [occupy]
    split
    · exact quiet_throw _
    · split
      · exact quiet_throw _
      · refine quiet_get ?_
        split
        · exact quiet_throw _
        · refine quiet_get ?_
          split
          · exact quiet_pure _
          · exact quiet_throw _

/-- A place belongs to its owner, a component that is there. -/
theorem occupy_eq_ok (hh : here < w.instances.size) {place : Place} {parent : Nat} {name : String}
    {w' : Workspace} (h : (occupy here place).run.run w = (.ok (parent, name), w')) :
    parent = place.owner here ∧ parent < w'.instances.size := by
  have hsize := (quiet_occupy (w := w) here place).still.size
  rw [h] at hsize
  cases place with
  | named n =>
    rw [occupy, Work.run_bind] at h
    split at h <;> cases h
    exact ⟨rfl, hh.trans_eq hsize.symm⟩
  | slot a i =>
    rw [occupy] at h
    split at h
    · cases h
    · split at h
      · cases h
      · rw [Work.run_bind, Work.run_get] at h
        dsimp only at h
        split at h
        · cases h
        · rw [Work.run_bind, Work.run_get] at h
          dsimp only at h
          split at h
          · next howner => cases h; exact ⟨rfl, howner⟩
          · cases h

theorem quiet_misplace (here : Nat) (place : Place) (got : Except Error String) :
    Quiet here w (misplace here place got) :=
  (quiet_occupy here place).bind fun _ _ _ => quiet_get
    ((quiet_liftM got).bind fun _ _ _ => quiet_throw _)

theorem run_openChild (hh : here < w.instances.size) (place : Place) (application : Application) :
    Run {here} ∅ w [] ((openChild here place application).run.run w).2 := by
  have hquiet := (quiet_occupy (w := w) here place).run
  rw [openChild, Work.run_bind]
  rcases hocc : (occupy here place).run.run w with ⟨e | ⟨parent, name⟩, w₁⟩ <;> rw [hocc] at hquiet
  · exact hquiet
  · exact hquiet.trans
      (.move rfl (.enter parent name application (occupy_eq_ok hh hocc).2) (.report _ _ _))

theorem quiet_checkDangling (here id : Nat) : Quiet here w (checkDangling id) := by
  refine quiet_get ?_
  dsimp only
  split
  · exact quiet_throw _
  · exact quiet_set (.keep rfl rfl rfl rfl rfl) (still_of_instances rfl rfl)

theorem quiet_bindPosition (here : Nat) (s : Signal) (p : Position) :
    Quiet here w (bindPosition s p) := by
  refine quiet_get ?_
  split
  · exact quiet_throw _
  · exact quiet_set (.keep rfl rfl rfl rfl rfl) (still_of_instances rfl rfl)

/-- A child that was entered is the last instance, and a fresh one; nothing else
    happens to rows. -/
theorem openChild_eq_ok {place : Place} {application : Application} {parent id : Nat}
    {name : String} {w' : Workspace}
    (h : (openChild here place application).run.run w = (.ok (parent, name, id), w')) :
    id = w.instances.size ∧ w'.instances.size = id + 1 ∧
      ∃ w₁ : Workspace, Still w w₁ ∧ w'.draft = w₁.draft ∧
        w'.instances = w₁.instances.push (w₁.freshChild parent name application) := by
  rw [openChild, Work.run_bind] at h
  have hstill := (quiet_occupy (w := w) here place).still
  rcases hocc : (occupy here place).run.run w with ⟨e | ⟨parent', name'⟩, w₁⟩
  · rw [hocc] at h; cases h
  · rw [hocc] at h hstill
    cases h
    exact ⟨hstill.size, by simp [report], w₁, hstill, rfl, rfl⟩

theorem openChild_owner (hh : here < w.instances.size) {place : Place} {application : Application}
    {parent id : Nat} {name : String} {w' : Workspace}
    (h : (openChild here place application).run.run w = (.ok (parent, name, id), w')) :
    parent = place.owner here := by
  rw [openChild, Work.run_bind] at h
  rcases hocc : (occupy here place).run.run w with ⟨e | ⟨parent', name'⟩, w₁⟩ <;> rw [hocc] at h <;>
    cases h
  exact (occupy_eq_ok hh hocc).1

/-- Entering a child does nothing to rows. -/
theorem notes_openChild (here : Nat) (place : Place) (application : Application) :
    ((openChild here place application).run.run w).2.draft.rows = w.draft.rows ∧ ∀ id,
      (((openChild here place application).run.run w).2.instanceAt id).notes =
        (w.instanceAt id).notes := by
  have hstill := (quiet_occupy (w := w) here place).still
  rw [openChild, Work.run_bind]
  rcases hocc : (occupy here place).run.run w with ⟨e | ⟨parent, name⟩, w₁⟩ <;>
    rw [hocc] at hstill
  · exact ⟨hstill.draft, hstill.notes⟩
  · refine ⟨hstill.draft, fun id => (Eq.trans ?_ (hstill.notes id))⟩
    change (instanceAt { w₁ with instances := w₁.instances.push _ } id).notes = _
    rw [instanceAt_push]
    split_ifs with hid
    · rw [hid, instanceAt_of_le le_rfl]
      rfl
    · rfl

/-- A child that was entered is a fresh one. -/
theorem instanceAt_openChild {place : Place} {application : Application} {parent id : Nat}
    {name : String} {w' : Workspace}
    (h : (openChild here place application).run.run w = (.ok (parent, name, id), w')) :
    ∃ w₁ : Workspace, w'.instanceAt id = w₁.freshChild parent name application := by
  obtain ⟨rfl, -, w₁, hstill, -, hi⟩ := openChild_eq_ok h
  refine ⟨w₁, ?_⟩
  rw [instanceAt, hi, ← hstill.size]
  simp

/-- A child that was entered is still there when its program has run. -/
theorem entered_of_openChild {place : Place} {application : Application} {parent id : Nat}
    {name : String} {w₁ w₂ : Workspace} {S A : Set Nat} {sts : List Statement}
    (h : (openChild here place application).run.run w = (.ok (parent, name, id), w₁))
    (hrun : Run S A w₁ sts w₂) : w₂.Entered parent name id := by
  obtain ⟨-, hsize, -⟩ := openChild_eq_ok h
  obtain ⟨w₀, hfresh⟩ := instanceAt_openChild h
  exact hrun.entered ⟨by omega, by rw [hfresh]; rfl, by rw [hfresh]; rfl⟩

/-- A finished child is hung into the tree, unless it is refused. -/
theorem run_closeChild {place : Place} {parent id : Nat} {name : String} {built : Except Error Unit}
    {r : Except Error Component} {w' : Workspace} (here : Nat) (he : w.Entered parent name id)
    (h : (closeChild place parent name id built).run.run w = (r, w')) :
    Run {here} {j | j = id ∧ ∃ c, r = .ok c} w [] w' := by
  cases built with
  | error e => cases h; exact .done w
  | ok u =>
    have hcheck := (quiet_checkDangling (w := w) here id).run
    rw [closeChild, Work.run_bind, Work.run_liftM] at h
    dsimp only at h
    rw [Work.run_bind] at h
    rcases hd : (checkDangling id).run.run w with ⟨e | u, w₁⟩ <;> rw [hd] at h hcheck
    · cases h; exact hcheck.mono subset_rfl (Set.empty_subset _)
    · simp only [Work.run_bind, Work.run_modify, Work.run_get] at h
      have he₁ := hcheck.entered he
      refine (hcheck.mono subset_rfl (Set.empty_subset _)).trans ?_
      cases place <;> cases h
      · exact .attach parent name ⟨rfl, _, rfl⟩ he₁ (.done _)
      · exact .attach parent name ⟨rfl, _, rfl⟩ he₁ (.single rfl (.keep rfl rfl rfl rfl rfl))

/-- Leaving a child does nothing to rows. -/
theorem still_closeChild (place : Place) (parent : Nat) (name : String) (id : Nat)
    (built : Except Error Unit) :
    Still w ((closeChild place parent name id built).run.run w).2 := by
  cases built with
  | error e => exact .refl w
  | ok u =>
    have hcheck := (quiet_checkDangling (w := w) id id).still
    rw [closeChild, Work.run_bind, Work.run_liftM]
    dsimp only
    rw [Work.run_bind]
    rcases hd : (checkDangling id).run.run w with ⟨e | u, w₁⟩ <;> rw [hd] at hcheck
    · exact hcheck
    · simp only [Work.run_bind, Work.run_modify, Work.run_get]
      have hattach := still_updateInstance w₁ parent
        (g := fun c => { c with children := Instance.attach name id c.children }) fun _ => rfl
      refine hcheck.trans ?_
      cases place
      · exact hattach
      · exact hattach.trans (still_of_instances rfl rfl)

end

end Workspace

/-! ## Requests and programs -/

open Workspace in
/-- What a request of a component does to a workspace: nothing to rows, or a statement,
    whose row, if it emits one, is noted against the component. -/
inductive Performed (here : Nat) (w : Workspace) : List Statement → Workspace → Prop
  | quiet {w' : Workspace} (hrun : Run {here} ∅ w [] w') (hstill : Still w w') :
      Performed here w [] w'
  | rowless {st : Statement} {draft : Draft} {w' : Workspace} (hc : st.Changes w draft)
      (hrows : draft.rows = w.draft.rows) (hrun : Run {here} ∅ { w with draft } [] w')
      (hstill : Still { w with draft } w') : Performed here w [st] w'
  | row {st : Statement} {draft : Draft} {row : Row} (hc : st.Changes w draft)
      (hrows : draft.rows = w.draft.rows.push row)
      (horigin : row.origin = (w.instanceAt here).path) (level : Log.Level) (source : Log.Source)
      (text : String) : Performed here w [st]
        (record here w.draft.rows.size ({ w with draft }.report level source text))

namespace Performed

open Workspace

variable {here : Nat} {w w' : Workspace} {sts : List Statement}

theorem run (h : Performed here w sts w') : Run {here} ∅ w sts w' := by
  cases h with
  | quiet hrun => exact hrun
  | rowless hc _ hrun => exact .state hc hrun
  | row hc hrows _ level source text =>
    refine .state hc ((Run.report level source text).trans (.single rfl (.record _ ?_)))
    simp [report, hrows]

/-- A refused request that changed nothing executes no statement. -/
theorem refused (here : Nat) (w : Workspace) (sts : List Statement) :
    Performed here w (if w.draft.rules.size < w.draft.rules.size then sts else []) w := by
  rw [if_neg (Nat.lt_irrefl _)]
  exact .quiet (.done w) (.refl w)

theorem size (h : Performed here w sts w') : w'.instances.size = w.instances.size := by
  cases h with
  | quiet _ hstill => exact hstill.size
  | rowless _ _ _ hstill => exact hstill.size
  | row => exact size_updateInstance _ _ _

end Performed

open Workspace in
/-- **What an answered request does.** -/
theorem perform_cases {here : Nat} {w : Workspace} (hh : here < w.instances.size) :
    ∀ c : Command, Performed here w (c.executed here w) ((c.perform here).run.run w).2
  | .path | .field | .inspect _ => .quiet (.done w) (.refl w)
  | .declare role name dims => by
    have h := quiet_declare hh role name dims
    rw [Command.executed_of_silent rfl]
    exact .quiet h.run h.still
  | .slots name dims => by
    have h := quiet_declareSlots (w := w) here name dims
    rw [Command.executed_of_silent rfl]
    exact .quiet h.run h.still
  | .misplace place got => by
    have h := quiet_misplace (w := w) here place got
    rw [Command.executed_of_silent rfl]
    exact .quiet h.run h.still
  | .slot a i label => by
    have h := quiet_readSlot (w := w) here a i label
    rw [Command.executed_of_silent rfl]
    exact .quiet h.run h.still
  | .log text => .quiet (.report _ _ _) (still_of_instances rfl rfl)
  | .bind s p => by
    have h := quiet_bindPosition (w := w) here s p
    rw [Command.executed_of_silent rfl]
    exact .quiet h.run h.still
  | .assign target value => by
    rw [Command.executed]
    simp only [Command.perform, assign, addAssignment, Work.run_bind, Work.run_get, Work.run_liftM,
      Work.run_set, Work.run_modify, Work.run_pure]
    have hrefused := Performed.refused here w
    rcases hw : writable (w.instanceAt here) target with e | _ <;> dsimp only
    · exact hrefused _
    rcases value with e | e <;> dsimp only
    · exact hrefused _
    rcases hd : w.draft.assign target e (w.instanceAt here).path with e' | ⟨row, draft⟩ <;>
      dsimp only
    · exact hrefused _
    rcases Clash.add e (Expr.ofSignal target).neg with e' | _ <;> dsimp only
    · exact hrefused _
    · obtain ⟨-, -, rfl, a, b, c, -, rfl⟩ := Draft.assign_eq_ok hd
      exact .row (.assign hh hw hd) rfl rfl _ _ _
  | .constrain l r => by
    rw [Command.executed]
    simp only [Command.perform, constrain, addEquality, Work.run_bind, Work.run_get, Work.run_liftM]
    have hrefused := Performed.refused here w
    rcases hd : w.draft.constrain l r (w.instanceAt here).path with e | ⟨row, draft⟩ <;> dsimp only
    · exact hrefused _
    rcases Clash.add l r.neg with e | _ <;> dsimp only
    · exact hrefused _
    have hc := Statement.Changes.constrain hh hd
    cases row with
    | none =>
      obtain ⟨-, -, -, ⟨-, -, -, rfl⟩ | ⟨-, h, -⟩⟩ := Draft.constrain_eq_ok hd
      · exact .rowless hc rfl (.done w) (.refl w)
      · cases h
    | some row =>
      obtain ⟨-, -, -, ⟨-, -, h, -⟩ | ⟨-, h, a, b, c, -, rfl⟩⟩ := Draft.constrain_eq_ok hd
      · cases h
      · cases h
        exact .row hc rfl rfl _ _ _
  | .hint target h deps => by
    rw [Command.executed]
    simp only [Command.perform, hint, addHint, Work.run_bind, Work.run_get, Work.run_liftM,
      Work.run_set, Work.run_modify]
    have hrefused := Performed.refused here w
    rcases hw : writable (w.instanceAt here) target with e | _ <;> dsimp only
    · exact hrefused _
    rcases hd : w.draft.hint target h deps (w.instanceAt here).path with e | draft <;> dsimp only
    · exact hrefused _
    obtain ⟨-, deps, rfl, rfl⟩ := Draft.hint_eq_ok hd
    have hc := Statement.Changes.hint hh hw hd
    -- the rule stays, whether its dependencies can be written or not
    rcases (Except.ok deps).bind (·.mapM Expr.written) with e | args <;> dsimp only
    · rw [if_pos (by simp)]
      exact .rowless hc rfl (.done _) (.refl _)
    · exact .rowless hc rfl (.report _ _ _) (still_of_instances rfl rfl)

/-- **An answered request is a chain of moves with the statement it executes.** -/
theorem perform_spec {here : Nat} {w : Workspace} (hh : here < w.instances.size) (c : Command) :
    Workspace.Run {here} ∅ w (c.executed here w) ((c.perform here).run.run w).2 :=
  (perform_cases hh c).run

namespace Program

variable {σ : Type}

/-- The components that a run builds and hangs into the tree, by number, with the
    programs that built them; those of children come before them. -/
def components {α : Type} :
    Program σ α → Nat → Workspace × σ → List (Nat × Program σ (Except Error Unit))
  | .pure _, _, _ => []
  | .request c next, here, (w, h) =>
    let (r, w') := (c.perform here).run.run w
    (next r).components here (w', h)
  | .child place application body next, here, (w, h) =>
    match (Workspace.openChild here place application).run.run w with
    | (.error e, w) => (next (.error e)).components here (w, h)
    | (.ok (parent, name, id), w) =>
      let (built, (w', h')) := body.run id (w, h)
      let (r, w'') := (Workspace.closeChild place parent name id built).run.run w'
      let own := if r.toOption.isSome then [(id, body)] else []
      body.components id (w, h) ++ own ++ (next r).components here (w'', h')
  | .getHost next, here, (w, h) => (next h).components here (w, h)
  | .setHost h next, here, (w, _) => next.components here (w, h)

/-- The numbers of the components of a run. -/
def parts {α : Type} (p : Program σ α) (here : Nat) (s : Workspace × σ) : Set Nat :=
  {id | ∃ body, (id, body) ∈ p.components here s}

/-- Those who act in a run of a component: the component itself and those that are
    entered meanwhile. -/
def actors (here : Nat) (w : Workspace) : Set Nat := {j | j = here ∨ w.instances.size ≤ j}

theorem actors_subset {here : Nat} {w w' : Workspace} (h : w.instances.size ≤ w'.instances.size) :
    actors here w' ⊆ actors here w := fun _ hj => hj.imp id fun hj => Nat.le_trans h hj

theorem singleton_subset_actors {here : Nat} {w : Workspace} : {here} ⊆ actors here w :=
  Set.singleton_subset_iff.2 (Or.inl rfl)

/-- Those who act in a child that was entered in the meantime. -/
theorem actors_child_subset {here id : Nat} {w w' : Workspace} (hid : w.instances.size ≤ id)
    (h : w.instances.size ≤ w'.instances.size) : actors id w' ⊆ actors here w := by
  rintro j (rfl | hj)
  · exact Or.inr hid
  · exact Or.inr (Nat.le_trans h hj)

/-- **A run of a program is a chain with the statements it executes**, by those who
    act in it, and what it hangs into the tree are its components. -/
theorem run_spec {α : Type} : ∀ (p : Program σ α) {here : Nat} {w : Workspace} (h : σ),
    here < w.instances.size → Workspace.Run (actors here w) (p.parts here (w, h)) w
      (p.statements here (w, h)) (p.run here (w, h)).2.1
  | .pure _, _, w, _, _ => .done w
  | .request c next, here, w, h, hh => by
    have hc := perform_spec hh c
    have hrest := run_spec (next ((c.perform here).run.run w).1) h
      (Nat.lt_of_lt_of_le hh hc.size_le)
    exact (hc.mono singleton_subset_actors (Set.empty_subset _)).trans
      (hrest.mono (actors_subset hc.size_le) subset_rfl)
  | .child place application body next, here, w, h, hh => by
    have hopen := Workspace.run_openChild hh place application
    rcases ho : (Workspace.openChild here place application).run.run w with
      ⟨e | ⟨parent, name, id⟩, w₁⟩ <;> rw [ho] at hopen <;>
      simp only [run, statements, parts, components, ho]
    · have hrest := run_spec (next (.error e)) h (Nat.lt_of_lt_of_le hh hopen.size_le)
      exact (hopen.mono singleton_subset_actors (Set.empty_subset _)).trans
        (hrest.mono (actors_subset hopen.size_le) subset_rfl)
    · obtain ⟨hid, hsize, -⟩ := Workspace.openChild_eq_ok ho
      have hid : w.instances.size ≤ id := hid.ge
      have hbody := @run_spec _ body id w₁ h (by omega)
      rcases hb : body.run id (w₁, h) with ⟨built, w₂, h₂⟩
      rw [hb] at hbody
      rcases hc : (Workspace.closeChild place parent name id built).run.run w₂ with ⟨r, w₃⟩
      have hclose := Workspace.run_closeChild here (Workspace.entered_of_openChild ho hbody) hc
      have hle := hopen.size_le
      have hle' : w.instances.size ≤ w₃.instances.size :=
        hle.trans (hbody.size_le.trans hclose.size_le)
      have hrest := @run_spec _ (next r) here w₃ h₂ (by omega)
      refine (hopen.mono singleton_subset_actors (Set.empty_subset _)).trans ?_
      refine (hbody.mono (actors_child_subset hid hle) ?_).trans ?_
      · rintro j ⟨b, hj⟩
        exact ⟨b, by simp [hj]⟩
      refine (hclose.mono singleton_subset_actors ?_).trans
        (hrest.mono (actors_subset hle') ?_)
      · rintro j ⟨rfl, c, rfl⟩
        exact ⟨body, by simp [Except.toOption]⟩
      · rintro j ⟨b, hj⟩
        exact ⟨b, by simp [hj]⟩
  | .getHost next, _, _, h, hh => run_spec (next h) h hh
  | .setHost h next, _, _, _, hh => run_spec next h hh

/-- A child is placed: it is entered, its program runs, and it is left. -/
structure Placing (body : Program σ (Except Error Unit)) (here parent : Nat) (name : String)
    (id : Nat) (h : σ) (w w₁ w₂ w₃ : Workspace) : Prop where
  enter : Workspace.Run {here} ∅ w [] w₁
  fresh : w.instances.size ≤ id
  lt : id < w₁.instances.size
  build : Workspace.Run (actors id w₁) (body.parts id (w₁, h)) w₁ (body.statements id (w₁, h)) w₂
  entered : w₂.Entered parent name id
  leave : Workspace.Run {here} Set.univ w₂ [] w₃

section
variable {body : Program σ (Except Error Unit)} {here parent id : Nat} {name : String} {h h₂ : σ}
  {w w₁ w₂ w₃ : Workspace}

theorem placing {place : Place} {application : Application} {built : Except Error Unit}
    {r : Except Error Component} (hh : here < w.instances.size)
    (ho : (Workspace.openChild here place application).run.run w = (.ok (parent, name, id), w₁))
    (hb : body.run id (w₁, h) = (built, (w₂, h₂)))
    (hc : (Workspace.closeChild place parent name id built).run.run w₂ = (r, w₃)) :
    Placing body here parent name id h w w₁ w₂ w₃ := by
  obtain ⟨hid, hsize, -⟩ := Workspace.openChild_eq_ok ho
  have hopen := Workspace.run_openChild hh place application
  rw [ho] at hopen
  have hid₁ : id < w₁.instances.size := by omega
  have hbody := run_spec body h hid₁
  rw [hb] at hbody
  have he := Workspace.entered_of_openChild ho hbody
  exact ⟨hopen, hid.ge, hid₁, hbody, he,
    (Workspace.run_closeChild here he hc).mono subset_rfl (Set.subset_univ _)⟩

theorem Placing.run (hp : Placing body here parent name id h w w₁ w₂ w₃) :
    Workspace.Run Set.univ Set.univ w (body.statements id (w₁, h)) w₃ := by
  simpa using (hp.enter.any.trans hp.build.any).trans hp.leave.any

/-- After a child, its parent and the components that are entered later act. -/
theorem Placing.idle (hp : Placing body here parent name id h w w₁ w₂ w₃)
    (hh : here < w.instances.size) {i n : Nat} (hi : id ≤ i) (hn : n ≤ w₂.instances.size) :
    ∀ j ∈ actors here w₃, j < i ∨ n ≤ j := by
  have hfresh := hp.fresh
  have hle := hp.leave.size_le
  rintro j (rfl | hj)
  · exact Or.inl (by omega)
  · exact Or.inr (by omega)

end

end Program

/-- The workspace in which the main component is built. -/
def Template.opened {σ : Type} (t : Template σ) (field : PrimeField) (policy : DanglingPolicy) :
    Workspace :=
  ((Workspace.enter "main" "main" t.application none).run (.start field policy)).2

/-- The components of a compilation, by number, with the programs that built them;
    the main one has number zero. -/
def components {σ : Type} (settings : Settings) (t : Template σ) (host : σ) :
    List (Nat × Program σ (Except Error Unit)) :=
  match settings.field with
  | .error _ => []
  | .ok field =>
    (0, t.body.run) :: Program.components t.body.run 0 (t.opened field settings.dangling, host)

/-- An expansion that succeeds is a run of the main component, which has number
    zero. -/
theorem Template.expand_eq_ok {σ : Type} {t : Template σ} {field : PrimeField}
    {policy : DanglingPolicy} {host host' : σ} {id : Nat} {w : Workspace}
    (h : t.expand (.start field policy, host) = (.ok id, (w, host'))) :
    id = 0 ∧ ∃ w₁ : Workspace, Program.run t.body.run 0 (t.opened field policy, host) =
        (.ok (), (w₁, host')) ∧ Workspace.Still w₁ w ∧
        ∀ here, Workspace.Run {here} ∅ w₁ [] w := by
  have henter : (Workspace.enter "main" "main" t.application none).run (.start field policy) =
      (0, t.opened field policy) := rfl
  rw [Template.expand, henter] at h
  dsimp only at h
  rcases hr : Program.run t.body.run 0 (t.opened field policy, host) with ⟨e | u, w₁, host₁⟩ <;>
    rw [hr] at h <;> dsimp only at h
  · cases h
  · have hclose (here : Nat) := (Workspace.quiet_checkDangling (w := w₁) here 0).run
    have hstill := (Workspace.quiet_checkDangling (w := w₁) 0 0).still
    rcases hd : (Workspace.checkDangling 0).run.run w₁ with ⟨e | _, w₂⟩ <;>
      rw [hd] at h hclose hstill <;> cases h
    exact ⟨rfl, w₁, rfl, hstill, hclose⟩

section
variable {σ : Type} {settings : Settings} {t : Template σ} {host : σ} {public_ : List String}
  {c : Circuit}

/-- **A circuit is made of the workspace that the expansion of its template leaves.** -/
theorem compile_eq_ok (h : (compile settings t host public_).result = .ok c) :
    ∃ field w host', settings.field = .ok field ∧
      t.expand (.start field settings.dangling, host) = (.ok 0, (w, host')) ∧
      Circuit.ofWorkspace settings w 0 public_ = .ok c := by
  unfold compile at h
  cases hf : settings.field with
  | error e => rw [hf] at h; cases h
  | ok field =>
    rw [hf] at h
    dsimp only at h
    rcases hx : t.expand (.start field settings.dangling, host) with ⟨expanded, w, host'⟩
    rw [hx] at h
    obtain ⟨id, rfl, hc⟩ := bind_eq_ok.1 h
    obtain ⟨rfl, -⟩ := Template.expand_eq_ok hx
    exact ⟨field, w, host', rfl, hx, hc⟩

/-- A circuit is made of the workspace that a run of the main component leaves. -/
theorem compile_run (h : (compile settings t host public_).result = .ok c) :
    ∃ field w₁ host₁ w, settings.field = .ok field ∧
      Program.run t.body.run 0 (t.opened field settings.dangling, host) = (.ok (), (w₁, host₁)) ∧
      Workspace.Still w₁ w ∧ (∀ here, Workspace.Run {here} ∅ w₁ [] w) ∧
      Circuit.ofWorkspace settings w 0 public_ = .ok c := by
  obtain ⟨field, w, host', hf, hx, hc⟩ := compile_eq_ok h
  obtain ⟨-, w₁, hrun, hstill, hclose⟩ := Template.expand_eq_ok hx
  exact ⟨field, w₁, host', w, hf, hrun, hstill, hclose, hc⟩

/-- **An expansion that succeeds leads to its workspace by the statements it
    executes**, and attaches its components. -/
theorem expand_spec {field : PrimeField} {w : Workspace} {host' : σ} {id : Nat}
    (hf : settings.field = .ok field)
    (hx : t.expand (.start field settings.dangling, host) = (.ok id, (w, host'))) :
    Workspace.Run Set.univ {id | ∃ body, (id, body) ∈ components settings t host}
      (t.opened field settings.dangling) (executed settings t host) w := by
  obtain ⟨-, w₁, hrun, -, hclose⟩ := Template.expand_eq_ok hx
  have hbody := @Program.run_spec σ _ t.body.run 0 (t.opened field settings.dangling) host
    Nat.zero_lt_one
  rw [hrun] at hbody
  have hchain := (hbody.mono (Set.subset_univ _) subset_rfl).trans
    ((hclose 0).mono (Set.subset_univ _) (Set.empty_subset _))
  rw [List.append_nil] at hchain
  unfold executed components
  rw [hf]
  refine hchain.mono subset_rfl ?_
  rintro id ⟨body, hid⟩
  exact ⟨body, List.mem_cons_of_mem _ hid⟩

/-- **A circuit is made of a workspace that the executed statements lead to**, and
    its tree of components. -/
theorem compile_spec (h : (compile settings t host public_).result = .ok c) :
    ∃ field w, settings.field = .ok field ∧
      Workspace.Run Set.univ {id | ∃ body, (id, body) ∈ components settings t host}
        (t.opened field settings.dangling) (executed settings t host) w ∧
      Circuit.ofWorkspace settings w 0 public_ = .ok c := by
  obtain ⟨field, w, _, hf, hx, hc⟩ := compile_eq_ok h
  exact ⟨field, w, hf, expand_spec hf hx, hc⟩

end

end RankOne
