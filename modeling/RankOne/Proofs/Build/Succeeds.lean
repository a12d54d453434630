/-
  RankOne — builds that succeed, and builds that fail.

  * `Program.bind_assoc`: programs are a lawful monad;
  * `Build.Succeeds`: from a scene, a build runs to its end with such a result, such
    statements and such a scene;
  * `Build.Yields`: the same with one result, one list of statements and one scene;
  * `Build.Fails`: from a scene, a build ends with such an error;
  * `Succeeds.bind`, `Yields.skip`, `Yields.emit`: sequences;
  * `yields_signal`, `yields_assign`, `succeeds_component`, …: one rule for each request;
  * `Fails.bind`, `Succeeds.fails`, `fails_component`: how a failure is passed on.
-/
import RankOne.Proofs.Build.Policy
import RankOne.Proofs.Build.Scene
import RankOne.Proofs.Build.Trace

namespace RankOne

/-! ## Sequences -/

namespace Program

variable {σ α β γ : Type}

theorem bind_pure (x : Program σ α) : x.bind .pure = x := by
  induction x with
  | pure a => rfl
  | request c next ih => exact congrArg _ (funext ih)
  | child place application body next _ ih => exact congrArg _ (funext ih)
  | getHost next ih => exact congrArg _ (funext ih)
  | setHost s next ih => exact congrArg _ ih

theorem bind_assoc (x : Program σ α) (g : α → Program σ β) (h : β → Program σ γ) :
    (x.bind g).bind h = x.bind fun a => (g a).bind h := by
  induction x with
  | pure a => rfl
  | request c next ih => exact congrArg _ (funext fun r => ih r g)
  | child place application body next _ ih => exact congrArg _ (funext fun r => ih r g)
  | getHost next ih => exact congrArg _ (funext fun s => ih s g)
  | setHost s next ih => exact congrArg _ (ih g)

instance : LawfulMonad (Program σ) := .mk' _ bind_pure (fun _ _ => rfl) bind_assoc

end Program

/-! ## Outcomes -/

namespace Build

variable {σ α β : Type}

/-- **From a scene, a build runs to its end** with such a result, such statements and
    such a scene. -/
def Succeeds (b : Build σ α) (sc : Scene) (Q : α → List Statement → Scene → Prop) : Prop :=
  ∀ (w : Workspace) (h : σ), w.Shows sc → ∃ a sts w' sc', b.Runs sc.here (w, h) sts a (w', h) ∧
    w'.Shows sc' ∧ w.Frame sc.here w' ∧ sc.Grows sc' ∧
    (∀ st ∈ sts, st.Proper sc'.field {s | s ∈ sc'.signals}) ∧ Q a sts sc'

/-- **From a scene, a build ends with such an error.** -/
def Fails (b : Build σ α) (sc : Scene) (P : Error → Prop) : Prop :=
  ∀ (w : Workspace) (h : σ), w.Shows sc → ∃ e s', Program.run b.run sc.here (w, h) = (.error e, s') ∧
    P e

variable {sc : Scene} {Q : α → List Statement → Scene → Prop} {P : Error → Prop}

/-- What is known of a scene may be used. -/
theorem Succeeds.fit {b : Build σ α} (h : sc.Fit → b.Succeeds sc Q) : b.Succeeds sc Q :=
  fun w host hw => h hw.fit w host hw

theorem Succeeds.mono {b : Build σ α} {R : α → List Statement → Scene → Prop}
    (h : b.Succeeds sc R) (hQ : ∀ a sts sc', sc.Grows sc' → sc'.Fit → R a sts sc' → Q a sts sc') :
    b.Succeeds sc Q := by
  intro w host hw
  obtain ⟨a, sts, w', sc', hrun, hw', hframe, hgrows, hproper, hR⟩ := h w host hw
  exact ⟨a, sts, w', sc', hrun, hw', hframe, hgrows, hproper, hQ a sts sc' hgrows hw'.fit hR⟩

/-- What all runs of a build share is true of its success. -/
theorem Succeeds.of_runs {b : Build σ α} {R : List Statement → Prop} (h : b.Succeeds sc Q)
    (hruns : ∀ {here s sts a s'}, b.Runs here s sts a s' → R sts) :
    b.Succeeds sc fun a sts sc' => Q a sts sc' ∧ R sts := by
  intro w host hw
  obtain ⟨a, sts, w', sc', hrun, hw', hframe, hgrows, hproper, hQ⟩ := h w host hw
  exact ⟨a, sts, w', sc', hrun, hw', hframe, hgrows, hproper, hQ, hruns hrun⟩

/-- **A sequence succeeds if its parts do**, one after the other. -/
theorem Succeeds.bind {x : Build σ α} {g : α → Build σ β}
    {R : α → List Statement → Scene → Prop} {Q : β → List Statement → Scene → Prop}
    (hx : x.Succeeds sc R)
    (hg : ∀ a sts sc', sc.Grows sc' → sc'.Fit → R a sts sc' →
      (g a).Succeeds sc' fun b sts' => Q b (sts ++ sts')) :
    (x >>= g).Succeeds sc Q := by
  intro w host hw
  obtain ⟨a, xs, w₁, sc₁, hrun, hw₁, hframe, hgrows, hproper, hR⟩ := hx w host hw
  obtain ⟨b, ys, w₂, sc₂, hrun', hw₂, hframe', hgrows', hproper', hQ⟩ :=
    hg a xs sc₁ hgrows hw₁.fit hR w₁ host hw₁
  rw [hgrows.here] at hrun' hframe'
  refine ⟨b, xs ++ ys, w₂, sc₂, ⟨hw.lt, ?_, ?_⟩, hw₂, hframe.trans hrun.size_le hframe',
    hgrows.trans hgrows', fun st hst => ?_, hQ⟩
  · have hdef : (x >>= g).run = x.run.bind (ExceptT.bindCont g) := rfl
    rw [hdef, Program.run_bind, hrun.run]
    exact hrun'.run
  · have hdef : (x >>= g).run = x.run.bind (ExceptT.bindCont g) := rfl
    rw [hdef, Program.statements_bind, hrun.run, hrun.statements]
    exact congrArg (xs ++ ·) hrun'.statements
  · rcases List.mem_append.1 hst with hst | hst
    · rw [hgrows'.field]
      exact (hproper st hst).mono fun s hs => hgrows'.mem hs
    · exact hproper' st hst

/-- From a scene, a build gives this result, makes these statements and leaves this
    scene. -/
def Yields (b : Build σ α) (sc : Scene) (a : α) (sts : List Statement) (sc' : Scene) : Prop :=
  b.Succeeds sc fun a' sts' sc'' => a' = a ∧ sts' = sts ∧ sc'' = sc'

section
variable {x : Build σ α} {g : α → Build σ β} {a : α} {st : Statement} {sts : List Statement}
  {sc' : Scene} {R : β → List Statement → Scene → Prop}

theorem Yields.succeeds (hx : x.Yields sc a sts sc')
    (hQ : sc.Grows sc' → sc'.Fit → Q a sts sc') : x.Succeeds sc Q := by
  refine hx.mono ?_
  rintro _ _ _ hgrows hfit ⟨rfl, rfl, rfl⟩
  exact hQ hgrows hfit

theorem Yields.next (hx : x.Yields sc a sts sc')
    (hg : sc.Grows sc' → sc'.Fit → (g a).Succeeds sc' fun b sts' => R b (sts ++ sts')) :
    (x >>= g).Succeeds sc R := by
  refine Succeeds.bind hx ?_
  rintro _ _ _ hgrows hfit ⟨rfl, rfl, rfl⟩
  exact hg hgrows hfit

/-- A first part without statements. -/
theorem Yields.skip (hx : x.Yields sc a [] sc')
    (hg : sc.Grows sc' → sc'.Fit → (g a).Succeeds sc' R) : (x >>= g).Succeeds sc R := hx.next hg

/-- A first part with one statement. -/
theorem Yields.emit (hx : x.Yields sc a [st] sc')
    (hg : sc.Grows sc' → sc'.Fit → (g a).Succeeds sc' fun b sts => R b (st :: sts)) :
    (x >>= g).Succeeds sc R := hx.next hg

theorem yields_pure (a : α) : (pure a : Build σ α).Yields sc a [] sc := fun w _ hw =>
  ⟨a, [], w, sc, ⟨hw.lt, rfl, rfl⟩, hw, .refl _ w, .refl sc, by simp, rfl, rfl, rfl⟩

theorem yields_demand {r : Except Error α} (hr : r = .ok a) :
    (demand r : Build σ α).Yields sc a [] sc := by
  subst hr
  exact yields_pure a

theorem Yields.map (hx : x.Yields sc a [] sc') {b : β} (hg : g a = pure b) :
    (x >>= g).Yields sc b [] sc' := by
  refine hx.skip fun _ _ => ?_
  rw [hg]
  exact yields_pure b

end

/-! ## Requests -/

theorem runs_of_perform {here : ℕ} {w w' : Workspace} {h : σ} {c : Command} {a : c.Reply}
    (hlt : here < w.instances.size) (hp : (c.perform here).run.run w = (.ok a, w')) :
    (request c : Build σ c.Reply).Runs here (w, h)
      (c.statement? (w.instanceAt here).path).toList a (w', h) where
  lt := hlt
  run := by
    change (((c.perform here).run.run w).1, ((c.perform here).run.run w).2, h) = _
    rw [hp]
  statements := by
    change c.executed here w ++ [] = _
    rw [List.append_nil, Command.executed_of_answered hp]

/-- A request without a statement. -/
theorem yields_request {c : Command} {a : c.Reply} {sc' : Scene}
    (hst : ∀ origin, c.statement? origin = none) (hgrows : sc.Grows sc')
    (hp : ∀ w : Workspace, w.Shows sc → ∃ w', (c.perform sc.here).run.run w = (.ok a, w') ∧
      w'.Shows sc' ∧ w.Frame sc.here w') :
    (request c : Build σ c.Reply).Yields sc a [] sc' := by
  intro w h hw
  obtain ⟨w', hrun, hw', hframe⟩ := hp w hw
  have hruns := runs_of_perform (h := h) hw.lt hrun
  rw [hst] at hruns
  exact ⟨a, [], w', sc', hruns, hw', hframe, hgrows, by simp, rfl, rfl, rfl⟩

theorem yields_path : (path : Build σ String).Yields sc sc.path [] sc := by
  refine yields_request (fun _ => rfl) (.refl sc) fun w hw => ⟨w, ?_, hw, .refl _ w⟩
  rw [← hw.own.path]
  rfl

theorem yields_field : (field : Build σ PrimeField).Yields sc sc.field [] sc := by
  refine yields_request (fun _ => rfl) (.refl sc) fun w hw => ⟨w, ?_, hw, .refl _ w⟩
  rw [← hw.field]
  rfl

theorem yields_const (n : Int) : (const n : Build σ Expr).Yields sc (.ofInt sc.field n) [] sc :=
  yields_field.map rfl

theorem yields_times {a b e : Expr} (h : a.mul b = .ok e) :
    (times a b : Build σ Expr).Yields sc e [] sc := yields_demand h

theorem yields_log (text : String) : (log text : Build σ Unit).Yields sc () [] sc := by
  refine yields_path.skip fun _ _ => ?_
  refine yields_request (fun _ => rfl) (.refl sc) fun w hw => ⟨_, rfl, ?_, fun _ _ _ => rfl⟩
  exact { hw with }

/-! ## Declarations -/

end Build

namespace Workspace

variable {w : Workspace} {here : ℕ}

theorem reserve_of_free {name : String} (h : name ∉ (w.instanceAt here).names) :
    (reserve here name).run.run w =
      (.ok (), w.updateInstance here fun c => { c with names := name :: c.names }) := by
  rw [reserve, Work.run_bind, Work.run_get]
  dsimp only
  rw [if_neg (by simpa using h)]
  rfl

theorem declare_of_free {role : Role} {name : String} {dims : List Int} {bus : Bus}
    {signals : Array Signal} (hh : here < w.instances.size)
    (h : name ∉ (w.instanceAt here).names) (hdims : ∀ d ∈ dims, 0 ≤ d)
    (hbus : makeBus w.field role (w.instanceAt here).path (dims.map Int.toNat)
      [0, here, (w.instanceAt here).declarations.length]
      s!"{(w.instanceAt here).path}.{name}" w.signals = (bus, signals)) :
    (declare here role name (.ok dims)).run.run w =
      (.ok bus, w.withDeclared here signals ⟨name, role, bus⟩) := by
  have hneg : ¬ dims.any (· < 0) = true := by simpa using hdims
  rw [declare, Work.run_bind, reserve_of_free h]
  dsimp only
  rw [Work.run_bind, Work.run_liftM]
  dsimp only
  rw [Work.run_bind, Work.run_get]
  dsimp only
  rw [if_neg hneg, instanceAt_updateInstance, if_pos ⟨rfl, hh⟩, withDeclared_eq]
  dsimp only [updateInstance] at hbus ⊢
  rw [hbus]
  rfl

/-- As many places as there are signals can be held. -/
theorem checkPlaces_of_le {held n : ℕ} (h : n ≤ held) : checkPlaces held [(n : Int)] = .ok () := by
  rw [checkPlaces, if_neg, if_neg, checkPlaces, ite_self]
  · have := le_max_right (Nat.pow 2 32) held.succ
    omega
  · have := le_max_right (Nat.pow 2 63) held.succ
    simp only [Bool.or_eq_true, decide_eq_true_eq, not_or]
    omega

theorem declareSlots_of_free {name : String} {n : ℕ} (hh : here < w.instances.size)
    (h : name ∉ (w.instanceAt here).names) (hn : n ≤ w.signals.size) :
    (declareSlots here name (.ok [(n : Int)])).run.run w =
      (.ok { id := w.arrays, owner := here, ownerPath := (w.instanceAt here).path, name,
             taken := [], shape := [(n : Int)] },
        { w.updateInstance here fun c => { c with names := name :: c.names } with
          arrays := w.arrays + 1 }) := by
  rw [declareSlots, Work.run_bind, reserve_of_free h]
  dsimp only
  rw [Work.run_bind, Work.run_liftM]
  dsimp only
  rw [if_neg (by simp), Work.run_bind, Work.run_get]
  dsimp only
  rw [Work.run_bind, Work.run_liftM, show (updateInstance w here fun c =>
    { c with names := name :: c.names }).signals = w.signals from rfl, checkPlaces_of_le hn]
  dsimp only
  rw [Work.run_bind, Work.run_get]
  dsimp only
  rw [instanceAt_updateInstance, if_pos ⟨rfl, hh⟩]
  rfl

/-- A name is taken. -/
theorem Shows.take {sc : Scene} (hw : w.Shows sc) (name : String) :
    (w.updateInstance sc.here fun c => { c with names := name :: c.names }).Shows
      (sc.take name) where
  lt := (size_updateInstance _ _ _).symm ▸ hw.lt
  own := by
    change (instanceAt (w.updateInstance sc.here _) sc.here).Shows _
    rw [instanceAt_updateInstance, if_pos ⟨rfl, hw.lt⟩]
    constructor
    · exact hw.own.path
    · intro n
      simp [Scene.take, hw.own.names]
    · exact hw.own.declarations
    · exact hw.own.children
  policy := hw.policy
  positions := hw.positions
  field := hw.field
  signals := hw.signals
  assigned := hw.assigned
  arrays := hw.arrays
  filled := hw.filled
  fit := ⟨hw.fit.field, hw.fit.own, hw.fit.numbers, hw.fit.below, hw.fit.older⟩

theorem Shows.declare {sc : Scene} (hw : w.Shows sc) {name : String} {role : Role} {bus : Bus}
    {signals : Array Signal} (hs : signals.toList = sc.signals ++ bus.flat)
    (hnew : sc.New role bus) :
    (w.withDeclared sc.here signals ⟨name, role, bus⟩).Shows (sc.declare ⟨name, role, bus⟩) where
  lt := (size_updateInstance _ _ _).symm ▸ hw.lt
  own := by
    change ((w.withDeclared sc.here signals ⟨name, role, bus⟩).instanceAt sc.here).Shows _
    rw [instanceAt_withDeclared, if_pos ⟨rfl, hw.lt⟩]
    constructor
    · exact hw.own.path
    · intro n
      simp [Scene.declare, Scene.take, hw.own.names]
    · simp [Scene.declare, hw.own.declarations]
    · exact hw.own.children
  policy := hw.policy
  positions := hw.positions
  field := hw.field
  signals := hs
  assigned := hw.assigned
  arrays := hw.arrays
  filled := hw.filled
  fit := hw.fit.declare hnew

end Workspace

namespace Build

variable {σ : Type} {sc : Scene}

/-- A declaration of a free name. -/
theorem yields_declare {role : Role} {name : String} {dims : List Value} (ds : List Int)
    {bus : Bus} (hname : name ∉ sc.names) (hdims : sizes dims = .ok ds) (hpos : ∀ d ∈ ds, 0 ≤ d)
    (hnew : sc.New role bus)
    (hbus : ∀ ss : Array Signal, ss.toList = sc.signals → ∃ ss', Workspace.makeBus sc.field role
      sc.path (ds.map Int.toNat) sc.mark s!"{sc.path}.{name}" ss = (bus, ss') ∧
        ss'.toList = sc.signals ++ bus.flat) :
    (declare role name dims : Build σ Bus).Yields sc bus [] (sc.declare ⟨name, role, bus⟩) := by
  refine yields_request (fun _ => rfl) (Scene.grows_declare sc _) fun w hw => ?_
  obtain ⟨ss', hmake, hss'⟩ := hbus w.signals hw.signals
  have hfree : name ∉ (w.instanceAt sc.here).names := fun h => hname ((hw.own.names name).1 h)
  refine ⟨w.withDeclared sc.here ss' ⟨name, role, bus⟩, ?_, hw.declare hss' hnew,
    Workspace.frame_updateInstance _ _ _⟩
  rw [Command.perform, hdims]
  refine Workspace.declare_of_free hw.lt hfree hpos ?_
  rw [hw.field, hw.own.path, hw.own.declarations]
  exact hmake

theorem yields_signal {role : Role} {name : String} (hname : name ∉ sc.names) :
    (signal role name : Build σ Signal).Yields sc (sc.single role name) []
      (sc.declare ⟨name, role, .single (sc.single role name)⟩) := by
  have hbus : (declare role name [] : Build σ Bus).Yields sc (.single (sc.single role name)) []
      (sc.declare ⟨name, role, .single (sc.single role name)⟩) := by
    refine yields_declare [] hname rfl (by simp) (sc.new_single role name) fun ss hss => ?_
    have hlen : ss.size = sc.signals.length := by rw [← hss, Array.length_toList]
    refine ⟨ss.push (sc.single role name), ?_, by rw [Array.toList_push, hss]; rfl⟩
    rw [List.map_nil, Workspace.makeBus, hlen]
    rfl
  exact hbus.map rfl

theorem yields_signals {role : Role} {name : String} (n : ℕ) (hname : name ∉ sc.names) :
    (signals role name (.int n) : Build σ (List Signal)).Yields sc (sc.row role name n) []
      (sc.declare ⟨name, role, .row (sc.row role name n) sc.mark⟩) := by
  have hbus : (declare role name [.int n] : Build σ Bus).Yields sc
      (.row (sc.row role name n) sc.mark) []
      (sc.declare ⟨name, role, .row (sc.row role name n) sc.mark⟩) := by
    refine yields_declare [(n : Int)] hname rfl (by simp) (sc.new_row role name n sc.mark)
      fun ss hss => ?_
    have hlen : ss.size = sc.signals.length := by rw [← hss, Array.length_toList]
    have hmake := Workspace.makeBus_row sc.field role sc.path n sc.mark
      s!"{sc.path}.{name}" ss
    rw [hlen] at hmake
    refine ⟨_, hmake, ?_⟩
    rw [Bus.flat_row, Array.toList_append, hss]
    rfl
  refine hbus.map ?_
  rw [Bus.flat_row]

/-- A row is declared, by what is known of its signals. -/
theorem succeeds_row {α : Type} {Q : α → List Statement → Scene → Prop} {role : Role}
    {name : String} {g : List Signal → Build σ α} (n : ℕ) (hname : name ∉ sc.names)
    (hg : ∀ ss, ss.length = n → sc.New role (.row ss sc.mark) →
      (sc.declare ⟨name, role, .row ss sc.mark⟩).Fit →
      (g ss).Succeeds (sc.declare ⟨name, role, .row ss sc.mark⟩) Q) :
    (signals role name (.int n) >>= g).Succeeds sc Q :=
  (yields_signals n hname).skip fun _ hfit => hg _ (sc.length_row role name n)
    (sc.new_row role name n sc.mark) hfit

theorem yields_matrix (role : Role) {name : String} (m n : ℕ) (hname : name ∉ sc.names) :
    ∃ rows bus, sc.New role bus ∧ bus.Grid rows m n ∧
      (matrix role name (.int m) (.int n) : Build σ (List (List Signal))).Yields sc rows []
        (sc.declare ⟨name, role, bus⟩) := by
  have hmake (dims : List ℕ) := Workspace.makeBus_spec sc.field role sc.path dims sc.mark
    s!"{sc.path}.{name}" sc.signals.toArray
  have hnumbers := Workspace.consecutive_makeBus sc.field role sc.path [m, n] sc.mark
    s!"{sc.path}.{name}" sc.signals.toArray
  have hcons := Workspace.makeBus_cons sc.field role sc.path m [n] sc.mark
    s!"{sc.path}.{name}" sc.signals.toArray
  obtain ⟨hlist, hmade, hown, -, -⟩ := hmake [m, n]
  rw [hcons] at hlist hmade hown hnumbers
  set made := Workspace.makeItems sc.field role sc.path [n] sc.mark s!"{sc.path}.{name}"
    (List.range m) sc.signals.toArray with hmadeItems
  have hnew : sc.New role (.array made.1 [m, n] sc.mark) :=
    ⟨hnumbers, fun s hs => ⟨(hmade s hs).1, (hmade s hs).2.2, (hmade s hs).2.1, hown s hs⟩⟩
  refine ⟨made.1.map Bus.flat, .array made.1 [m, n] sc.mark, hnew, ⟨rfl, ?_, ?_, ?_⟩, ?_⟩
  · rw [Bus.flat, Bus.flatItems_eq]
  · rw [List.length_map, hmadeItems, Workspace.length_makeItems, List.length_range]
  · intro row hrow
    obtain ⟨item, hitem, rfl⟩ := List.mem_map.1 hrow
    obtain ⟨mark, path, ss, rfl⟩ := Workspace.mem_makeItems _ _ _ hitem
    rw [Workspace.makeBus_row, Bus.flat_row, Signal.length_row]
  · have hbus : (declare role name [.int m, .int n] : Build σ Bus).Yields sc
        (.array made.1 [m, n] sc.mark) []
        (sc.declare ⟨name, role, .array made.1 [m, n] sc.mark⟩) := by
      refine yields_declare [(m : Int), (n : Int)] hname rfl (by simp) hnew
        fun ss hss => ⟨made.2, ?_, by simpa using hlist⟩
      obtain rfl : ss = sc.signals.toArray := by rw [← hss, Array.toArray_toList]
      exact hcons
    exact hbus.map rfl

theorem yields_slots {name : String} {n : ℕ} (hname : name ∉ sc.names)
    (hn : n ≤ sc.signals.length) :
    (slots name (.int n) : Build σ SlotArray).Yields sc (sc.slots name n) [] (sc.array name) := by
  refine yields_request (fun _ => rfl) (Scene.grows_array sc name) fun w hw => ?_
  have hfree : name ∉ (w.instanceAt sc.here).names := fun h => hname ((hw.own.names name).1 h)
  have hlen : n ≤ w.signals.size := by rwa [← Array.length_toList, hw.signals]
  have hrun := Workspace.declareSlots_of_free hw.lt hfree hlen
  rw [hw.own.path, hw.arrays] at hrun
  have htake := hw.take name
  exact ⟨_, hrun,
    { htake with
      own := ⟨htake.own.path, htake.own.names, htake.own.declarations, htake.own.children⟩
      arrays := rfl
      fit := hw.fit.array name },
    Workspace.frame_updateInstance _ _ _⟩

end Build

/-! ## Statements -/

namespace Workspace

variable {w w' : Workspace} {sc : Scene}

theorem child_path_ne (a b : String) : s!"{a}.{b}" ≠ a := by
  intro h
  have := congrArg String.length (show a ++ "." ++ b = a from h)
  rw [String.length_append, String.length_append] at this
  have : ".".length = 1 := rfl
  omega

/-- A signal that may be assigned is writable. -/
theorem Shows.writable (hw : w.Shows sc) {s : Signal} (hs : sc.Open s) :
    writable (w.instanceAt sc.here) s = .ok () := by
  rw [Workspace.writable, hw.own.path]
  rcases hs.own with ⟨hc, hk⟩ | ⟨hk, name, hname, hc⟩
  · rw [if_pos hc]
    rcases hk with hk | hk <;> rw [hk]
  · obtain ⟨id, hid⟩ := (hw.own.children name).2 hname
    have hne : s.component ≠ sc.path := by
      rw [hc]
      exact child_path_ne _ _
    have howns : (w.instanceAt sc.here).ownsChildSignal s = true := by
      rw [Instance.ownsChildSignal, List.any_eq_true]
      refine ⟨(name, id), hid, ?_⟩
      rw [beq_iff_eq, hc, hw.own.path]
      rfl
    rw [if_neg hne, if_pos ⟨hk, howns⟩]

/-- A signal that may be assigned has no rule. -/
theorem Shows.rule? (hw : w.Shows sc) {s : Signal} (hs : s.uid ∉ sc.assigned) :
    w.draft.rule? s = none := by
  rw [Draft.rule?, Array.find?_eq_none]
  intro r hr hsame
  refine hs ((hw.assigned s.uid).1 ⟨r, Array.mem_toList_iff.2 hr, ?_⟩)
  exact Signal.same_iff.1 hsame

/-- What is noted of a row does not show. -/
theorem Shows.record (hw : w.Shows sc) (row : ℕ) : (record sc.here row w).Shows sc where
  lt := (size_updateInstance _ _ _).symm ▸ hw.lt
  own := by
    rw [Workspace.record, instanceAt_updateInstance, if_pos ⟨rfl, hw.lt⟩]
    exact ⟨hw.own.path, hw.own.names, hw.own.declarations, hw.own.children⟩
  policy := hw.policy
  positions := hw.positions
  field := hw.field
  signals := hw.signals
  assigned := hw.assigned
  arrays := hw.arrays
  filled := hw.filled
  fit := hw.fit

/-- A draft with one more rule. -/
theorem Shows.push (hw : w.Shows sc) {s : Signal} (hs : s ∈ sc.signals) {draft : Draft} {r : Rule}
    (hr : draft.rules = w.draft.rules.push r) (ht : r.target = s) (level : Log.Level)
    (source : Log.Source) (text : String) :
    ({ w with draft }.report level source text).Shows (sc.assign s) where
  lt := hw.lt
  own := ⟨hw.own.path, hw.own.names, hw.own.declarations, hw.own.children⟩
  policy := hw.policy
  positions := hw.positions
  field := hw.field
  signals := hw.signals
  assigned := by
    intro u
    have hold := hw.assigned u
    simp only [Workspace.report, hr, Array.toList_push, List.mem_append, List.mem_singleton,
      Scene.assign, Set.mem_insert_iff, ← hold]
    constructor
    · rintro ⟨q, hq | rfl, rfl⟩
      · exact Or.inr ⟨q, hq, rfl⟩
      · exact Or.inl (by rw [ht])
    · rintro (rfl | ⟨q, hq, rfl⟩)
      · exact ⟨r, Or.inr rfl, by rw [ht]⟩
      · exact ⟨q, Or.inl hq, rfl⟩
  arrays := hw.arrays
  filled := hw.filled
  fit := hw.fit.assign hs

section
variable {here row : ℕ} {draft : Draft} {s : Signal} {e l r : Expr} {h : Hint} {deps : List Expr}

theorem assign_of_draft {x : Expr} (hw : writable (w.instanceAt here) s = .ok ())
    (hd : w.draft.assign s e (w.instanceAt here).path = .ok (row, draft))
    (hx : Clash.add e (Expr.ofSignal s).neg = .ok x) :
    (assign here s (.ok e)).run.run w = (.ok (), Workspace.record here row
      ({ w with draft }.report .debug .rows s!"row {row}: {s.path} <== {e.text}")) := by
  simp only [assign, addAssignment, Work.run_bind, Work.run_get, Work.run_liftM, Work.run_set,
    Work.run_modify, Work.run_pure, hw, hd, hx]

theorem constrain_of_draft {x : Expr}
    (hd : w.draft.constrain l r (w.instanceAt here).path = .ok (some row, draft))
    (hx : Clash.add l r.neg = .ok x) :
    (constrain here l r).run.run w = (.ok (), Workspace.record here row
      ({ w with draft }.report .debug .rows s!"row {row}: {l.text} === {r.text}")) := by
  simp only [constrain, addEquality, Work.run_bind, Work.run_get, Work.run_liftM, hd, hx]
  rfl

theorem hint_of_draft (hw : writable (w.instanceAt here) s = .ok ())
    (hd : w.draft.hint s h (.ok deps) (w.instanceAt here).path = .ok draft)
    (hdeps : ∀ e ∈ deps, e.hasStray = false) :
    (hint here s h (.ok deps)).run.run w = (.ok (), { w with draft }.report .debug .rows
      s!"hint: {s.path} <-- {h.name}({Text.commas (deps.map Expr.text)})") := by
  simp only [hint, addHint, Work.run_bind, Work.run_get, Work.run_liftM, hw, hd, Except.bind,
    Expr.mapM_written hdeps]
  rfl

end

end Workspace

namespace Build

variable {σ : Type} {sc : Scene} {f : PrimeField} {T U : Set Signal} {e l r : Expr}
  {d d' : (Signal → ZMod f.p) → ZMod f.p} {s : Signal}

/-- A request with a statement. -/
theorem yields_statement {c : Command} {a : c.Reply} {st : Statement} {sc' : Scene}
    (hst : c.statement? sc.path = some st) (hgrows : sc.Grows sc')
    (hproper : st.Proper sc'.field {s | s ∈ sc'.signals})
    (hp : ∀ w : Workspace, w.Shows sc → ∃ w', (c.perform sc.here).run.run w = (.ok a, w') ∧
      w'.Shows sc' ∧ w.Frame sc.here w') :
    (request c : Build σ c.Reply).Yields sc a [st] sc' := by
  intro w h hw
  obtain ⟨w', hrun, hw', hframe⟩ := hp w hw
  have hruns := runs_of_perform (h := h) hw.lt hrun
  rw [hw.own.path, hst] at hruns
  refine ⟨a, [st], w', sc', hruns, hw', hframe, hgrows, ?_, rfl, rfl, rfl⟩
  intro x hx
  rw [List.mem_singleton.1 hx]
  exact hproper

/-- **An assignment of a form to an open signal.** -/
theorem yields_assign (hf : sc.field = f) (hs : sc.Open s)
    (he : e.Form f {s | s ∈ sc.signals} d) :
    (assign s e : Build σ Unit).Yields sc () [.assign sc.path s e] (sc.assign s) := by
  refine yields_statement rfl (Scene.grows_assign sc s) ⟨?_, ?_, ?_⟩ fun w hw => ?_
  · intro x hx
    rw [List.mem_singleton.1 hx]
    exact hf ▸ he.proper
  · rintro x ⟨⟩
    exact hs.mem
  · rintro _ _ _ _ ⟨⟩
  · obtain ⟨row, draft, hdraft⟩ := Draft.assign_of_form w.draft he
      ((hw.fit.field s hs.mem).trans hf) (hw.rule? hs.free) (w.instanceAt sc.here).path
    have hrun := Workspace.assign_of_draft (hw.writable hs) hdraft
      (he.proper.clash_add hw.fit.injOn
        (.scale (.ofSignal hs.mem ((hw.fit.field s hs.mem).trans hf)) _))
    obtain ⟨-, -, -, a, b, c, -, rfl⟩ := Draft.assign_eq_ok hdraft
    exact ⟨_, hrun, (hw.push hs.mem rfl rfl _ _ _).record row,
      Workspace.frame_updateInstance _ _ _⟩

/-- **An equality of a form and a linear form**, not both constants. -/
theorem yields_constrain (hf : sc.field = f) (hl : l.Form f {s | s ∈ sc.signals} d)
    (hr : r.Line f {s | s ∈ sc.signals} d') (hd : max l.degree r.degree ≠ 0) :
    (constrain l r : Build σ Unit).Yields sc () [.constrain sc.path l r] sc := by
  refine yields_statement rfl (.refl sc) ⟨?_, ?_, ?_⟩ fun w hw => ?_
  · intro x hx
    rcases List.mem_pair.1 hx with rfl | rfl
    · exact hf ▸ hl.proper
    · exact hf ▸ hr.proper
  · rintro x ⟨⟩
  · rintro _ _ _ _ ⟨⟩
  · obtain ⟨row, draft, hdraft⟩ := Draft.constrain_of_form w.draft hl hr hd
      (w.instanceAt sc.here).path
    obtain ⟨-, -, -, ⟨h, -⟩ | ⟨-, rfl, a, b, c, -, rfl⟩⟩ := Draft.constrain_eq_ok hdraft
    · exact absurd h hd
    · have hsum := hl.proper.clash_add hw.fit.injOn (hr.proper.scale (-1))
      refine ⟨_, Workspace.constrain_of_draft hdraft hsum, Workspace.Shows.record ?_ _,
        Workspace.frame_updateInstance _ _ _⟩
      exact { hw with }

/-- **A hint for an open signal.** -/
theorem yields_hint {h : Hint} (hf : sc.field = f) (hs : sc.Open s)
    (he : e.Form f {s | s ∈ sc.signals} d)
    (hh : ∀ n, ∃ m, h.run f [n] = .ok (.value m)) :
    (hint s h e : Build σ Unit).Yields sc () [.hint sc.path s h [e]] (sc.assign s) := by
  refine yields_statement rfl (Scene.grows_assign sc s) ⟨?_, ?_, ?_⟩ fun w hw => ?_
  · intro x hx
    rw [List.mem_singleton.1 hx]
    exact hf ▸ he.proper
  · rintro x ⟨⟩
    exact hs.mem
  · rintro _ _ _ _ ⟨⟩ args hlen
    obtain ⟨n, rfl⟩ := List.length_eq_one_iff.1 hlen
    exact hf ▸ hh n
  · obtain ⟨draft, hdraft⟩ := Draft.hint_of_none w.draft (hw.rule? hs.free) h [e]
      (w.instanceAt sc.here).path
    have hrun := Workspace.hint_of_draft (hw.writable hs) hdraft fun x hx => by
      rw [List.mem_singleton.1 hx]
      exact he.proper.isOver.hasStray hw.fit.own
    obtain ⟨-, es, -, rfl⟩ := Draft.hint_eq_ok hdraft
    exact ⟨_, hrun, hw.push hs.mem rfl rfl _ _ _, fun _ _ _ => rfl⟩

end Build

/-! ## Children -/

namespace Workspace

variable {w : Workspace} {here id : ℕ} {sc sc' : Scene} {name : String}

/-- The workspace in which a child is built. -/
def entered (w : Workspace) (parent : ℕ) (name : String) (application : Application) : Workspace :=
  { w with instances := w.instances.push (w.freshChild parent name application) }.report .debug
    .template s!"instantiating {application.title.text} as {(w.freshChild parent name application).path}"

theorem openChild_named (application : Application)
    (h : name ∉ (w.instanceAt here).names) :
    (openChild here (.named name) application).run.run w =
      (.ok (here, name, w.instances.size),
        (w.updateInstance here fun c => { c with names := name :: c.names }).entered here name
          application) := by
  rw [openChild, Work.run_bind, occupy, Work.run_bind, reserve_of_free h]
  dsimp only
  rw [Work.run_pure]
  dsimp only
  rw [Work.run_bind, Work.run_get]
  dsimp only
  rw [← size_updateInstance w here fun c => { c with names := name :: c.names }]
  rfl

theorem openChild_slot (here : ℕ) (application : Application) {a : SlotArray} {i : Int} {j : ℕ}
    (hnested : a.isNested = false) (hj : RankOne.position? a.width i = some j)
    (hfree : w.content? a.id (a.taken ++ [j]) = none) (hlt : a.owner < w.instances.size) :
    (openChild here (.slot a i) application).run.run w =
      (.ok (a.owner, s!"{a.name}[{i}]", w.instances.size),
        w.entered a.owner s!"{a.name}[{i}]" application) := by
  rw [openChild, Work.run_bind, occupy, hnested, if_neg Bool.false_ne_true, hj]
  dsimp only
  rw [Work.run_bind, Work.run_get]
  dsimp only
  rw [hfree]
  dsimp only
  rw [Work.run_bind, Work.run_get]
  dsimp only
  rw [if_pos hlt]
  rfl

/-- A child that was entered meets its own scene. -/
theorem Shows.enter (hw : w.Shows sc) (name : String) (application : Application) :
    (w.entered sc.here name application).Shows (sc.enter w.instances.size name) where
  lt := by simp [Workspace.entered, Workspace.report, Scene.enter]
  own := by
    change (instanceAt { w with instances := w.instances.push _ } w.instances.size).Shows _
    rw [instanceAt_push, if_pos rfl]
    refine ⟨?_, ?_, rfl, ?_⟩
    · rw [freshChild, hw.own.path]
      rfl
    · exact fun n => ⟨fun h => absurd h List.not_mem_nil, fun h => h.elim⟩
    · exact fun n => ⟨fun h => absurd h.choose_spec List.not_mem_nil, fun h => h.elim⟩
  policy := hw.policy
  positions := hw.positions
  field := hw.field
  signals := hw.signals
  assigned := hw.assigned
  arrays := hw.arrays
  filled := hw.filled
  fit := hw.fit.enter _ _

/-- The check of a component that only warns, or has nothing to report. -/
theorem checkDangling_of_warn (h : w.policy = .warn ∨ w.danglingOutputs id = []) :
    ∃ dangling warnings log, (checkDangling id).run.run w =
      (.ok (), { w with dangling, warnings, log }) := by
  rw [checkDangling, Work.run_bind, Work.run_get]
  dsimp only
  rcases h with h | h
  · rw [h]
    exact ⟨_, _, _, rfl⟩
  · rw [h]
    cases w.policy <;> exact ⟨_, _, _, rfl⟩

theorem danglingOutputs_of_childless (h : (w.instanceAt id).children = []) :
    w.danglingOutputs id = [] := by
  rw [danglingOutputs, h]
  rfl

theorem exists_mem_attach {n : String} : ∀ cs : List (String × ℕ),
    (∃ i, (n, i) ∈ Instance.attach name id cs) ↔ n = name ∨ ∃ i, (n, i) ∈ cs
  | [] => by simp [Instance.attach]
  | (m, i) :: cs => by
    have ih := exists_mem_attach (n := n) cs
    rw [Instance.attach]
    split_ifs with h
    · subst h
      simp only [List.mem_cons, Prod.mk.injEq]
      constructor
      · rintro ⟨j, ⟨rfl, -⟩ | hj⟩
        · exact Or.inl rfl
        · exact Or.inr ⟨j, Or.inr hj⟩
      · rintro (rfl | ⟨j, ⟨rfl, -⟩ | hj⟩)
        · exact ⟨id, Or.inl ⟨rfl, rfl⟩⟩
        · exact ⟨id, Or.inl ⟨rfl, rfl⟩⟩
        · exact ⟨j, Or.inr hj⟩
    · simp only [List.mem_cons, Prod.mk.injEq, exists_or] at ih ⊢
      rw [ih]
      exact or_left_comm

/-- The parent after a child has been hung into the tree. -/
theorem Shows.leave (hw : w.Shows sc') (hlt : sc.here < w.instances.size)
    (hown : (w.instanceAt sc.here).Shows sc) (hp : sc'.policy = sc.policy)
    (hf : sc'.field = sc.field) (name : String) (id : ℕ) :
    (w.updateInstance sc.here fun c =>
      { c with children := Instance.attach name id c.children }).Shows (sc.leave name sc') where
  lt := (size_updateInstance _ _ _).symm ▸ hlt
  own := by
    change (instanceAt (w.updateInstance sc.here _) sc.here).Shows _
    rw [instanceAt_updateInstance, if_pos ⟨rfl, hlt⟩]
    refine ⟨hown.path, hown.names, hown.declarations, fun n => ?_⟩
    rw [exists_mem_attach, hown.children]
    rfl
  policy := hw.policy.trans hp
  positions := hw.positions
  field := hw.field.trans hf
  signals := hw.signals
  assigned := hw.assigned
  arrays := hw.arrays
  filled := hw.filled
  fit := hw.fit.leave hf name

end Workspace

namespace Build

variable {σ : Type} {sc sc₀ : Scene} {t : Template σ} {name : String}
  {Q : Component → List Statement → Scene → Prop} {P : Error → Prop}

theorem runs_of_child {here parent id : ℕ} {place : Place} {w w₁ w₂ w₃ : Workspace} {h : σ}
    {sts : List Statement} {c : Component} (hlt : here < w.instances.size)
    (hopen : (Workspace.openChild here place t.application).run.run w =
      (.ok (parent, name, id), w₁))
    (hbody : t.body.Runs id (w₁, h) sts () (w₂, h))
    (hclose : (Workspace.closeChild place parent name id (.ok ())).run.run w₂ = (.ok c, w₃)) :
    (Build.place place t).Runs here (w, h) sts c (w₃, h) where
  lt := hlt
  run := by
    change Program.run (.child place t.application t.body.run .pure) here (w, h) = _
    simp only [Program.run, hopen, hbody.run, hclose]
  statements := by
    change Program.statements (.child place t.application t.body.run .pure) here (w, h) = _
    simp only [Program.statements, hopen, hbody.run, hclose, hbody.statements, List.append_nil]

/-- A child that was entered in a scene of its parent is built, checked, and hung into
    the tree. -/
theorem Succeeds.child {R : Unit → List Statement → Scene → Prop} {w : Workspace} (host : σ)
    (hw : w.Shows sc) (hbody : t.body.Succeeds (sc.enter w.instances.size name) R)
    (hquiet : ∀ a sts sc', R a sts sc' → sc.policy = .warn ∨ sc'.children = ∅) :
    ∃ sts w₂ w₃ w₄ sc', t.body.Runs w.instances.size
        (w.entered sc.here name t.application, host) sts () (w₂, host) ∧
      (Workspace.checkDangling w.instances.size).run.run w₂ = (.ok (), w₃) ∧
      w₄ = (w₃.updateInstance sc.here fun c =>
        { c with children := Instance.attach name w.instances.size c.children }) ∧
      w₄.Shows (sc.leave name sc') ∧ w.Frame sc.here w₄ ∧
      (w₄.component w.instances.size).declarations = sc'.declarations ∧
      (sc.enter w.instances.size name).Grows sc' ∧
      (∀ st ∈ sts, st.Proper sc.field {s | s ∈ sc'.signals}) ∧ R () sts sc' := by
  have henter := hw.enter name t.application
  obtain ⟨⟨⟩, sts, w₂, sc', hruns, hw₂, hframe, hgrows, hproper, hR⟩ := hbody _ host henter
  rw [hgrows.field] at hproper
  have hlt := hw.lt
  have hid : sc'.here = w.instances.size := hgrows.here
  have hsize : w.instances.size < w₂.instances.size := hid ▸ hw₂.lt
  have hquiet' : w₂.policy = .warn ∨ w₂.danglingOutputs w.instances.size = [] := by
    rcases hquiet _ _ _ hR with h | h
    · exact Or.inl (hw₂.policy.trans (hgrows.policy.trans h))
    · refine Or.inr (Workspace.danglingOutputs_of_childless ?_)
      rw [← hid]
      refine List.eq_nil_iff_forall_not_mem.2 fun q hq => ?_
      have := (hw₂.own.children q.1).1 ⟨q.2, hq⟩
      rw [h] at this
      exact this
  obtain ⟨dangling, warnings, log, hcheck⟩ := Workspace.checkDangling_of_warn hquiet'
  -- the parent and the other components are those that the child found
  have hother {j : ℕ} (hj : j < w.instances.size) : w₂.instanceAt j = w.instanceAt j := by
    have hpush : (w.entered sc.here name t.application).instanceAt j = w.instanceAt j :=
      (Workspace.instanceAt_push w _ j).trans (if_neg (by omega))
    refine (hframe j ?_ (by simp only [Scene.enter]; omega)).trans hpush
    simp only [Workspace.entered, Workspace.report, Array.size_push]
    omega
  refine ⟨sts, w₂, _, _, sc', hruns, hcheck, rfl, ?_, ?_, ?_, hgrows, hproper, hR⟩
  · have hw₃ : Workspace.Shows { w₂ with dangling, warnings, log } sc' := { hw₂ with }
    refine hw₃.leave (hlt.trans hsize) ?_ hgrows.policy hgrows.field name w.instances.size
    change (w₂.instanceAt sc.here).Shows sc
    rw [hother hlt]
    exact hw.own
  · intro j hj hne
    rw [Workspace.frame_updateInstance _ _ _ j (by simp only; omega) hne]
    exact hother hj
  · rw [Workspace.component, Workspace.instanceAt_updateInstance, if_neg (by omega)]
    exact hid ▸ hw₂.own.declarations

/-- **A named child.** -/
theorem succeeds_component (hname : name ∉ sc.names)
    (hbody : ∀ id, t.body.Succeeds (sc.enter id name) fun _ sts sc' =>
      (sc.policy = .warn ∨ sc'.children = ∅) ∧
        ∀ c : Component, c.declarations = sc'.declarations →
          Q c sts ((sc.take name).leave name sc')) :
    (component name t).Succeeds sc Q := by
  intro w host hw
  have hfree : name ∉ (w.instanceAt sc.here).names := fun h => hname ((hw.own.names name).1 h)
  have htake := hw.take name
  have hsize := Workspace.size_updateInstance w sc.here fun c =>
    { c with names := name :: c.names }
  obtain ⟨sts, w₂, w₃, w₄, sc', hruns, hcheck, hw₄, hleave, hframe, hdecl, hgrows, hproper, -,
    hQ⟩ := Succeeds.child host htake (hbody _) fun _ _ _ h => h.1
  rw [hsize] at hruns hcheck hw₄ hdecl
  refine ⟨_, sts, w₄, _, runs_of_child hw.lt (Workspace.openChild_named t.application hfree) hruns ?_,
    hleave, ?_, ?_, hproper, hQ _ hdecl⟩
  · rw [Workspace.closeChild_ok, Work.run_bind, hcheck, hw₄]
    rfl
  · exact (Workspace.frame_updateInstance w sc.here _).trans hsize.ge hframe
  · exact ⟨rfl, rfl, rfl, rfl, List.prefix_rfl, Set.subset_insert _ _, hgrows.signals, hgrows.arrays⟩

/-- **A child in a place of an array of the component.** -/
theorem succeeds_fill {a : SlotArray} {i n : ℕ} (howner : a.owner = sc.here) (htaken : a.taken = [])
    (hshape : a.shape = [(n : Int)]) (hi : i < n) (hid : a.id < sc.arrays)
    (hfree : (a.id, [i]) ∉ sc.filled)
    (hbody : ∀ id, t.body.Succeeds (sc.enter id s!"{a.name}[{(i : Int)}]") fun _ sts sc' =>
      (sc.policy = .warn ∨ sc'.children = ∅) ∧
        ∀ c : Component, c.declarations = sc'.declarations →
          Q c sts ((sc.leave s!"{a.name}[{(i : Int)}]" sc').put (a.id, [i]))) :
    (fill a i t).Succeeds sc Q := by
  intro w host hw
  have hj : RankOne.position? a.width (i : Int) = some i := by
    rw [SlotArray.width, hshape, RankOne.position?, if_pos (Int.natCast_nonneg i),
      if_pos (by simpa using hi), Int.toNat_natCast]
  have hempty : w.content? a.id (a.taken ++ [i]) = none := by
    rw [htaken, Workspace.content?, Option.map_eq_none_iff, List.find?_eq_none]
    intro q hq heq
    refine hfree ((hw.filled _).1 ⟨q.2, ?_⟩)
    rw [List.nil_append, beq_iff_eq] at heq
    rw [← heq]
    exact hq
  obtain ⟨sts, w₂, w₃, w₄, sc', hruns, hcheck, hw₄, hleave, hframe, hdecl, hgrows, hproper, -,
    hQ⟩ := Succeeds.child host hw (hbody _) fun _ _ _ h => h.1
  have hopen := Workspace.openChild_slot (w := w) sc.here t.application (a := a)
    (by rw [SlotArray.isNested, hshape]; rfl) hj hempty (howner ▸ hw.lt)
  rw [howner] at hopen
  refine ⟨_, sts, { w₄ with
      filled := ((a.id, [i]), w₄.component w.instances.size) :: w₄.filled }, _,
    runs_of_child hw.lt hopen hruns ?_, ?_, hframe, ?_, hproper, hQ _ hdecl⟩
  · rw [Workspace.closeChild_ok, Work.run_bind, hcheck, hw₄]
    simp only [Workspace.hang, Work.run_bind, Work.run_modify, Work.run_get, Work.run_pure, hj,
      htaken, Option.getD_some, List.nil_append]
  · refine { hleave with
      own := ⟨hleave.own.path, hleave.own.names, hleave.own.declarations, hleave.own.children⟩
      filled := fun k => ?_
      fit := hleave.fit.put (hid.trans_le hgrows.arrays) }
    have hold := hleave.filled k
    simp only [Scene.put, Set.mem_insert_iff, ← hold, List.mem_cons, Prod.mk.injEq]
    constructor
    · rintro ⟨c, ⟨rfl, -⟩ | hc⟩
      · exact Or.inl rfl
      · exact Or.inr ⟨c, hc⟩
    · rintro (rfl | ⟨c, hc⟩)
      · exact ⟨_, Or.inl ⟨rfl, rfl⟩⟩
      · exact ⟨c, Or.inr hc⟩
  · exact ⟨rfl, rfl, rfl, rfl, List.prefix_rfl, Set.subset_insert _ _, hgrows.signals, hgrows.arrays⟩

/-! ## Terminals -/

theorem yields_terminalSignal {c : Component} {name : String} {s : Signal}
    (h : c.terminal? name = some (.single s)) :
    (terminalSignal c name : Build σ Signal).Yields sc s [] sc := by
  refine (yields_demand (a := .single s) ?_).map rfl
  rw [Component.terminal, h]

theorem yields_terminalSignals {c : Component} {name : String} {bus : Bus}
    (h : c.terminal? name = some bus) :
    (terminalSignals c name : Build σ (List Signal)).Yields sc bus.flat [] sc := by
  refine (yields_demand (a := bus) ?_).map rfl
  rw [Component.terminal, h]

/-! ## Failures -/

section
variable {α β : Type} {x : Build σ α} {g : α → Build σ β}

theorem fails_throw {e : Error} (h : P e) : (throw e : Build σ α).Fails sc P :=
  fun w host _ => ⟨e, (w, host), rfl, h⟩

theorem fails_demand {r : Except Error α} {e : Error} (hr : r = .error e) (h : P e) :
    (demand r : Build σ α).Fails sc P := by
  subst hr
  exact fun w host _ => ⟨e, (w, host), rfl, h⟩

/-- A sequence fails where its first part does. -/
theorem Fails.bind (h : x.Fails sc P) : (x >>= g).Fails sc P := by
  intro w host hw
  obtain ⟨e, s', hrun, he⟩ := h w host hw
  refine ⟨e, s', ?_, he⟩
  have hdef : (x >>= g).run = x.run.bind (ExceptT.bindCont g) := rfl
  rw [hdef, Program.run_bind, hrun]
  rfl

/-- A sequence fails where what follows does. -/
theorem Succeeds.fails {R : α → List Statement → Scene → Prop} (hx : x.Succeeds sc R)
    (hg : ∀ a sts sc', sc.Grows sc' → sc'.Fit → R a sts sc' → (g a).Fails sc' P) :
    (x >>= g).Fails sc P := by
  intro w host hw
  obtain ⟨a, xs, w₁, sc₁, hrun, hw₁, hframe, hgrows, hproper, hR⟩ := hx w host hw
  obtain ⟨e, s', hrun', he⟩ := hg a xs sc₁ hgrows hw₁.fit hR w₁ host hw₁
  rw [hgrows.here] at hrun'
  refine ⟨e, s', ?_, he⟩
  have hdef : (x >>= g).run = x.run.bind (ExceptT.bindCont g) := rfl
  rw [hdef, Program.run_bind, hrun.run]
  exact hrun'

theorem Yields.fails {a : α} {sts : List Statement} {sc' : Scene} (hx : x.Yields sc a sts sc')
    (hg : (g a).Fails sc' P) : (x >>= g).Fails sc P := by
  refine Succeeds.fails hx ?_
  rintro _ _ _ - - ⟨rfl, rfl, rfl⟩
  exact hg

/-- A named child that fails. -/
theorem fails_component (hname : name ∉ sc.names)
    (hbody : ∀ id, t.body.Fails (sc.enter id name) P) : (component name t).Fails sc P := by
  intro w host hw
  have hfree : name ∉ (w.instanceAt sc.here).names := fun h => hname ((hw.own.names name).1 h)
  have henter := (hw.take name).enter name t.application
  rw [Workspace.size_updateInstance] at henter
  obtain ⟨e, ⟨w₂, host₂⟩, hrun, he⟩ := hbody _ _ host henter
  have hopen := Workspace.openChild_named t.application hfree
  refine ⟨e, (w₂, host₂), ?_, he⟩
  change Program.run (.child (.named name) t.application t.body.run .pure) sc.here (w, host) = _
  have hrun' : Program.run t.body.run w.instances.size _ = _ := hrun
  simp only [Program.run, hopen]
  erw [hrun']
  rfl

end

end Build

end RankOne
