/-
  RankOne — what decides whether a build is refused.

  A build is refused when a name is taken, a signal is assigned twice or is not its
  own, or a place is filled.  This is little, and each request changes little of it.

  * `Signal.row`, `makeBus_row`: the signals of an array of one dimension;
  * `Bus.Grid`: an array of two dimensions;
  * `Signal.Consecutive`: signals numbered one after the other;
  * `Scene`: what a build can meet in its component;
  * `Scene.declare`, `Scene.assign`, `Scene.enter`, `Scene.leave`, …: what requests
    change of it;
  * `Scene.Fit`, `Scene.Grows`: what holds of every scene, and what every build leaves
    of one;
  * `Scene.Open`: the signals that may be assigned;
  * `Workspace.Shows`: the workspaces in which a build meets a scene;
  * `Statement.Proper`: the statements that such builds make.
-/
import Mathlib.Data.Int.ConditionallyCompleteOrder
import RankOne.Proofs.Build.Components
import RankOne.Proofs.Build.Declared
import RankOne.Proofs.Expr.Form

namespace RankOne

/-! ## Signals of a declaration -/

/-- The signal of number `k` that a component declares under a path. -/
def Signal.declared (f : PrimeField) (role : Role) (component path : String) (k : ℕ) : Signal :=
  { uid := k, path, kind := .declared role, field := f, component }

/-- The signals of an array of `n` entries, numbered from `k` on. -/
def Signal.row (f : PrimeField) (role : Role) (component path : String) (k n : ℕ) : List Signal :=
  (List.range n).map fun i => Signal.declared f role component s!"{path}[{i}]" (k + i)

/-- A row of signals as a bus. -/
def Bus.row (ss : List Signal) (mark : Mark) : Bus := .array (ss.map .single) [ss.length] mark

@[simp] theorem Bus.flat_single (s : Signal) : (Bus.single s).flat = [s] := rfl

@[simp] theorem Bus.flat_row (ss : List Signal) (mark : Mark) : (Bus.row ss mark).flat = ss := by
  rw [Bus.row, Bus.flat]
  induction ss with
  | nil => rfl
  | cons s ss ih => rw [List.map_cons, Bus.flatItems, ih]; rfl

theorem Signal.length_row (f : PrimeField) (role : Role) (component path : String) (k n : ℕ) :
    (Signal.row f role component path k n).length = n := by
  rw [Signal.row, List.length_map, List.length_range]

/-- The declaration numbers of some signals. -/
def Signal.numbers (ss : List Signal) : Set ℤ := {u | ∃ s ∈ ss, s.uid = u}

namespace Signal

theorem mem_numbers {ss : List Signal} {s : Signal} (hs : s ∈ ss) : s.uid ∈ numbers ss :=
  ⟨s, hs, rfl⟩

@[simp] theorem numbers_nil : numbers [] = ∅ := by simp [numbers]

theorem numbers_cons (s : Signal) (ss : List Signal) :
    numbers (s :: ss) = {s.uid} ∪ numbers ss := by
  ext u
  simp [numbers, eq_comm]

theorem numbers_singleton (s : Signal) : numbers [s] = {s.uid} := by
  simp [numbers]

theorem numbers_append (ss ts : List Signal) : numbers (ss ++ ts) = numbers ss ∪ numbers ts := by
  ext u
  simp [numbers, or_and_right, exists_or]

theorem numbers_perm {ss ts : List Signal} (h : ss.Perm ts) : numbers ss = numbers ts := by
  ext u
  simp only [numbers, Set.mem_ofPred_eq, h.mem_iff]

/-- Signals are numbered from `k` on. -/
def Consecutive (k : ℕ) (ss : List Signal) : Prop :=
  ss.map (·.uid) = (List.range ss.length).map fun i => ((k + i : ℕ) : ℤ)

theorem Consecutive.numbers {k : ℕ} {ss : List Signal} (h : Consecutive k ss) :
    numbers ss = Set.Ico (k : ℤ) (k + ss.length) := by
  ext u
  have hmem : u ∈ Signal.numbers ss ↔ u ∈ ss.map (·.uid) := by simp [Signal.numbers]
  rw [hmem, h, List.mem_map, Set.mem_Ico]
  constructor
  · rintro ⟨i, hi, rfl⟩
    have := List.mem_range.1 hi
    omega
  · rintro ⟨hle, hlt⟩
    exact ⟨(u - k).toNat, List.mem_range.2 (by omega), by omega⟩

theorem Consecutive.nodup {k : ℕ} {ss : List Signal} (h : Consecutive k ss) :
    (ss.map (·.uid)).Nodup := by
  rw [h]
  exact List.nodup_range.map fun i j hij => by simpa using hij

theorem consecutive_row (f : PrimeField) (role : Role) (component path : String) (k n : ℕ) :
    Consecutive k (row f role component path k n) := by
  rw [Consecutive, length_row, row, List.map_map]
  rfl

theorem Consecutive.append {k : ℕ} {xs ys : List Signal} (hx : Consecutive k xs)
    (hy : Consecutive (k + xs.length) ys) : Consecutive k (xs ++ ys) := by
  rw [Consecutive, List.map_append, hx, hy, List.length_append, List.range_add, List.map_append,
    List.map_map]
  simp only [Function.comp_def, Nat.add_assoc]

@[simp] theorem consecutive_nil (k : ℕ) : Consecutive k [] := rfl

theorem consecutive_singleton (s : Signal) (k : ℕ) (h : s.uid = k) : Consecutive k [s] := by
  rw [Consecutive, List.map_singleton, h]
  rfl

end Signal

namespace Workspace

variable (f : PrimeField) (role : Role) (component : String)

theorem makeItems_row (mark : Mark) (path : String) (k : ℕ) : ∀ (m i : ℕ) (ss : Array Signal),
    ss.size = k + i → makeItems f role component [] mark path (List.range' i m) ss =
      ((List.range' i m).map fun j =>
          .single (Signal.declared f role component s!"{path}[{j}]" (k + j)),
        ss ++ ((List.range' i m).map fun j =>
          Signal.declared f role component s!"{path}[{j}]" (k + j)).toArray)
  | 0, i, ss, _ => by simp [makeItems]
  | m + 1, i, ss, h => by
    have ih := makeItems_row mark path k m (i + 1)
      (ss.push (Signal.declared f role component s!"{path}[{i}]" (k + i))) (by simp [h]; omega)
    rw [List.range'_succ, makeItems, makeBus]
    simp only [h]
    change (_ :: (makeItems f role component [] mark path (List.range' (i + 1) m)
      (ss.push (Signal.declared f role component s!"{path}[{i}]" (k + i)))).1,
      (makeItems f role component [] mark path (List.range' (i + 1) m)
      (ss.push (Signal.declared f role component s!"{path}[{i}]" (k + i)))).2) = _
    rw [ih]
    simp [Signal.declared]

/-- An array of one dimension is a row of signals. -/
theorem makeBus_row (n : ℕ) (mark : Mark) (path : String) (ss : Array Signal) :
    makeBus f role component [n] mark path ss =
      (Bus.row (Signal.row f role component path ss.size n) mark,
        ss ++ (Signal.row f role component path ss.size n).toArray) := by
  rw [makeBus_cons, List.range_eq_range', makeItems_row f role component mark path ss.size n 0 ss
    (by simp), ← List.range_eq_range']
  simp only [Bus.row, Signal.length_row]
  simp [Signal.row, List.map_map, Function.comp_def]

theorem consecutive_makeItems {ds : List ℕ} (hds : ∀ (mark : Mark) (path : String)
      (ss : Array Signal), Signal.Consecutive ss.size
        (makeBus f role component ds mark path ss).1.flat) (mark : Mark) (path : String) :
    ∀ (is : List ℕ) (ss : Array Signal), Signal.Consecutive ss.size
      (Bus.flatItems (makeItems f role component ds mark path is ss).1)
  | [], ss => Signal.consecutive_nil ss.size
  | i :: is, ss => by
    have hsize := congrArg List.length
      (makeBus_spec f role component ds (mark ++ [i]) s!"{path}[{i}]" ss).list
    rw [List.length_append, Array.length_toList, Array.length_toList] at hsize
    have hrest := consecutive_makeItems hds mark path is
      (makeBus f role component ds (mark ++ [i]) s!"{path}[{i}]" ss).2
    rw [hsize] at hrest
    exact (hds (mark ++ [i]) s!"{path}[{i}]" ss).append hrest

/-- The signals of a bus are numbered one after the other. -/
theorem consecutive_makeBus : ∀ (dims : List ℕ) (mark : Mark) (path : String) (ss : Array Signal),
    Signal.Consecutive ss.size (makeBus f role component dims mark path ss).1.flat
  | [], _, _, ss => Signal.consecutive_singleton _ ss.size rfl
  | d :: ds, mark, path, ss => by
    rw [makeBus_cons, Bus.flat]
    exact consecutive_makeItems f role component (consecutive_makeBus ds) mark path _ ss

end Workspace

/-- A bus of `m` rows of `n` signals. -/
structure Bus.Grid (bus : Bus) (rows : List (List Signal)) (m n : ℕ) : Prop where
  shape : bus.shape = [m, n]
  flat : bus.flat = rows.flatten
  length : rows.length = m
  width : ∀ row ∈ rows, row.length = n

theorem Bus.flatItems_eq (items : List Bus) :
    Bus.flatItems items = (items.map Bus.flat).flatten := by
  induction items with
  | nil => rfl
  | cons item items ih => rw [Bus.flatItems, ih, List.map_cons, List.flatten_cons]

/-! ## Scenes -/

/-- What a build can meet in its component. -/
structure Scene where
  /-- number of the component -/
  here : ℕ
  policy : DanglingPolicy
  field : PrimeField
  path : String
  /-- names taken in the component -/
  names : Set String
  declarations : List Declaration
  /-- local names of the children -/
  children : Set String
  /-- all signals, by declaration number -/
  signals : List Signal
  /-- numbers of the signals that have a rule -/
  assigned : Set ℤ
  /-- number of arrays of places declared so far -/
  arrays : ℕ
  /-- filled places, by array number and positions -/
  filled : Set (ℕ × List ℕ)

namespace Scene

/-- A name is taken. -/
@[simps] def take (sc : Scene) (name : String) : Scene := { sc with names := insert name sc.names }

/-- Something is declared. -/
@[simps] def declare (sc : Scene) (d : Declaration) : Scene :=
  { sc.take d.name with
    declarations := sc.declarations ++ [d], signals := sc.signals ++ d.bus.flat }

/-- A signal gets its rule. -/
@[simps] def assign (sc : Scene) (s : Signal) : Scene := { sc with assigned := insert s.uid sc.assigned }

/-- An array of places is declared. -/
@[simps] def array (sc : Scene) (name : String) : Scene := { sc.take name with arrays := sc.arrays + 1 }

/-- A place is filled. -/
@[simps] def put (sc : Scene) (key : ℕ × List ℕ) : Scene := { sc with filled := insert key sc.filled }

/-- The scene of a new child. -/
@[simps] def enter (sc : Scene) (id : ℕ) (name : String) : Scene :=
  { sc with
    here := id, path := s!"{sc.path}.{name}", names := ∅, declarations := [], children := ∅ }

/-- The scene of the parent after a child, which ended in the scene `sc'`. -/
@[simps] def leave (sc : Scene) (name : String) (sc' : Scene) : Scene :=
  { sc with
    children := insert name sc.children, signals := sc'.signals, assigned := sc'.assigned
    arrays := sc'.arrays, filled := sc'.filled }

/-- The signal that a declaration of this name would make. -/
def single (sc : Scene) (role : Role) (name : String) : Signal :=
  .declared sc.field role sc.path s!"{sc.path}.{name}" sc.signals.length

/-- The signals that a declaration of an array of this name would make. -/
def row (sc : Scene) (role : Role) (name : String) (n : ℕ) : List Signal :=
  Signal.row sc.field role sc.path s!"{sc.path}.{name}" sc.signals.length n

/-- The array of places that a declaration of this name would make. -/
def slots (sc : Scene) (name : String) (n : ℕ) : SlotArray :=
  { id := sc.arrays, owner := sc.here, ownerPath := sc.path, name, taken := [], shape := [n] }

/-- A bus that a declaration of this role would make. -/
structure New (sc : Scene) (role : Role) (bus : Bus) : Prop where
  numbers : Signal.Consecutive sc.signals.length bus.flat
  own : ∀ s ∈ bus.flat, s.kind = .declared role ∧ s.component = sc.path ∧ s.field = sc.field ∧
    s.source = .own

theorem new_single (sc : Scene) (role : Role) (name : String) :
    sc.New role (.single (sc.single role name)) where
  numbers := rfl
  own := fun s hs => by
    obtain rfl := List.mem_singleton.1 hs
    exact ⟨rfl, rfl, rfl, rfl⟩

theorem new_row (sc : Scene) (role : Role) (name : String) (n : ℕ) (mark : Mark) :
    sc.New role (.row (sc.row role name n) mark) where
  numbers := by
    rw [Bus.flat_row]
    exact Signal.consecutive_row _ _ _ _ _ _
  own := fun s hs => by
    rw [Bus.flat_row] at hs
    obtain ⟨i, -, rfl⟩ := List.mem_map.1 hs
    exact ⟨rfl, rfl, rfl, rfl⟩

@[simp] theorem uid_single (sc : Scene) (role : Role) (name : String) :
    (sc.single role name).uid = sc.signals.length := rfl

@[simp] theorem length_row (sc : Scene) (role : Role) (name : String) (n : ℕ) :
    (sc.row role name n).length = n := Signal.length_row _ _ _ _ _ _

/-- The mark of the next declaration. -/
def mark (sc : Scene) : Mark := [0, sc.here, sc.declarations.length]

/-- The signals are numbered and of one field, only signals have rules, and only places
    of arrays are filled. -/
structure Fit (sc : Scene) : Prop where
  field : ∀ s ∈ sc.signals, s.field = sc.field
  own : ∀ s ∈ sc.signals, s.source = .own
  numbers : Signal.Consecutive 0 sc.signals
  below : ∀ u ∈ sc.assigned, u < sc.signals.length
  older : ∀ k ∈ sc.filled, k.1 < sc.arrays

/-- What every build leaves of a scene. -/
structure Grows (sc sc' : Scene) : Prop where
  here : sc'.here = sc.here
  policy : sc'.policy = sc.policy
  field : sc'.field = sc.field
  path : sc'.path = sc.path
  declarations : sc.declarations <+: sc'.declarations
  children : sc.children ⊆ sc'.children
  signals : sc.signals <+: sc'.signals
  arrays : sc.arrays ≤ sc'.arrays

theorem Grows.refl (sc : Scene) : sc.Grows sc :=
  ⟨rfl, rfl, rfl, rfl, List.prefix_rfl, subset_rfl, List.prefix_rfl, le_rfl⟩

theorem Grows.trans {sc sc₁ sc₂ : Scene} (h : sc.Grows sc₁) (h' : sc₁.Grows sc₂) :
    sc.Grows sc₂ where
  here := h'.here.trans h.here
  policy := h'.policy.trans h.policy
  field := h'.field.trans h.field
  path := h'.path.trans h.path
  declarations := h.declarations.trans h'.declarations
  children := h.children.trans h'.children
  signals := h.signals.trans h'.signals
  arrays := h.arrays.trans h'.arrays

theorem Grows.mem {sc sc' : Scene} (h : sc.Grows sc') {s : Signal} (hs : s ∈ sc.signals) :
    s ∈ sc'.signals := h.signals.subset hs

theorem Grows.length_le {sc sc' : Scene} (h : sc.Grows sc') :
    sc.signals.length ≤ sc'.signals.length := h.signals.length_le

theorem grows_declare (sc : Scene) (d : Declaration) : sc.Grows (sc.declare d) :=
  ⟨rfl, rfl, rfl, rfl, List.prefix_append _ _, subset_rfl, List.prefix_append _ _, le_rfl⟩

theorem grows_assign (sc : Scene) (s : Signal) : sc.Grows (sc.assign s) :=
  ⟨rfl, rfl, rfl, rfl, List.prefix_rfl, subset_rfl, List.prefix_rfl, le_rfl⟩

theorem grows_array (sc : Scene) (name : String) : sc.Grows (sc.array name) :=
  ⟨rfl, rfl, rfl, rfl, List.prefix_rfl, subset_rfl, List.prefix_rfl, Nat.le_succ _⟩

/-- Until a signal is declared, it has no rule. -/
theorem Fit.not_mem {sc : Scene} (h : sc.Fit) {u : ℤ} (hu : sc.signals.length ≤ u) :
    u ∉ sc.assigned := fun hmem => by have := h.below u hmem; omega

theorem Fit.numbered {sc : Scene} (h : sc.Fit) : ∀ s ∈ sc.signals, s.uid < sc.signals.length := by
  intro s hs
  have hmem := h.numbers.numbers ▸ Signal.mem_numbers hs
  simpa using hmem.2

/-- The number of a signal tells which one it is. -/
theorem Fit.injOn {sc : Scene} (h : sc.Fit) : Set.InjOn Signal.uid {s | s ∈ sc.signals} :=
  List.inj_on_of_nodup_map h.numbers.nodup

theorem Fit.declare {sc : Scene} (h : sc.Fit) {d : Declaration} {role : Role}
    (hd : sc.New role d.bus) : (sc.declare d).Fit where
  field := fun s hs => (List.mem_append.1 hs).elim (h.field s) fun hs => (hd.own s hs).2.2.1
  own := fun s hs => (List.mem_append.1 hs).elim (h.own s) fun hs => (hd.own s hs).2.2.2
  numbers := h.numbers.append (by rw [Nat.zero_add]; exact hd.numbers)
  below := fun u hu => by
    have := h.below u hu
    simp only [Scene.declare, List.length_append]
    omega
  older := h.older

theorem Fit.assign {sc : Scene} (h : sc.Fit) {s : Signal} (hs : s ∈ sc.signals) :
    (sc.assign s).Fit where
  field := h.field
  own := h.own
  numbers := h.numbers
  below := fun u hu => by
    rcases hu with rfl | hu
    · exact h.numbered s hs
    · exact h.below u hu
  older := h.older

theorem Fit.array {sc : Scene} (h : sc.Fit) (name : String) : (sc.array name).Fit :=
  ⟨h.field, h.own, h.numbers, h.below, fun k hk => Nat.lt_succ_of_lt (h.older k hk)⟩

theorem Fit.put {sc : Scene} (h : sc.Fit) {key : ℕ × List ℕ} (hk : key.1 < sc.arrays) :
    (sc.put key).Fit :=
  ⟨h.field, h.own, h.numbers, h.below, fun k hmem => by
    rcases hmem with rfl | hmem
    · exact hk
    · exact h.older k hmem⟩

theorem Fit.enter {sc : Scene} (h : sc.Fit) (id : ℕ) (name : String) : (sc.enter id name).Fit :=
  ⟨h.field, h.own, h.numbers, h.below, h.older⟩

theorem Fit.leave {sc sc' : Scene} (h : sc'.Fit) (hf : sc'.field = sc.field) (name : String) :
    (sc.leave name sc').Fit :=
  ⟨fun s hs => (h.field s hs).trans hf, h.own, h.numbers, h.below, h.older⟩

/-- A signal may be assigned: it is an output or an intermediate of the component, or
    an input of a child, and has no rule yet. -/
structure Open (sc : Scene) (s : Signal) : Prop where
  mem : s ∈ sc.signals
  own : (s.component = sc.path ∧
      (s.kind = .declared .output ∨ s.kind = .declared .intermediate)) ∨
    (s.kind = .declared .input ∧ ∃ name ∈ sc.children, s.component = s!"{sc.path}.{name}")
  free : s.uid ∉ sc.assigned

section
variable {sc : Scene} {s : Signal} {role : Role} {name : String}

theorem Open.declare (h : sc.Open s) (d : Declaration) : (sc.declare d).Open s :=
  ⟨List.mem_append_left _ h.mem, h.own, h.free⟩

theorem Open.array (h : sc.Open s) (name : String) : (sc.array name).Open s :=
  ⟨h.mem, h.own, h.free⟩

/-- A new output or intermediate may be assigned. -/
theorem New.isOpen {bus : Bus} (h : sc.New role bus) (hfit : sc.Fit)
    (hrole : role = .output ∨ role = .intermediate) (hs : s ∈ bus.flat) :
    (sc.declare ⟨name, role, bus⟩).Open s where
  mem := List.mem_append_right _ hs
  own := by
    obtain ⟨hkind, hcomp, -⟩ := h.own s hs
    refine Or.inl ⟨hcomp, ?_⟩
    rw [hkind]
    exact hrole.imp (congrArg _) (congrArg _)
  free := hfit.not_mem (h.numbers.numbers ▸ Signal.mem_numbers hs).1

theorem New.isOpen_single (h : sc.New role (.single s)) (hfit : sc.Fit)
    (hrole : role = .output ∨ role = .intermediate) :
    (sc.declare ⟨name, role, .single s⟩).Open s :=
  h.isOpen hfit hrole (List.mem_singleton_self s)

variable {ss : List Signal} {mark : Mark}

theorem New.consecutive (h : sc.New role (.row ss mark)) :
    Signal.Consecutive sc.signals.length ss := by
  rw [← Bus.flat_row ss mark]
  exact h.numbers

theorem New.isOpen_row (h : sc.New role (.row ss mark)) (hfit : sc.Fit)
    (hrole : role = .output ∨ role = .intermediate) :
    ∀ s ∈ ss, (sc.declare ⟨name, role, .row ss mark⟩).Open s :=
  fun _ hs => h.isOpen hfit hrole (by rwa [Bus.flat_row])

end

end Scene

/-- A component that looks like that of the scene. -/
structure Instance.Shows (c : Instance) (sc : Scene) : Prop where
  path : c.path = sc.path
  names : ∀ n, n ∈ c.names ↔ n ∈ sc.names
  declarations : c.declarations = sc.declarations
  children : ∀ n, (∃ id, (n, id) ∈ c.children) ↔ n ∈ sc.children

namespace Workspace

/-- A workspace in which a build meets the scene. -/
structure Shows (w : Workspace) (sc : Scene) : Prop where
  lt : sc.here < w.instances.size
  own : (w.instanceAt sc.here).Shows sc
  policy : w.policy = sc.policy
  positions : w.positions = []
  field : w.field = sc.field
  signals : w.signals.toList = sc.signals
  assigned : ∀ u, (∃ r ∈ w.draft.rules.toList, r.target.uid = u) ↔ u ∈ sc.assigned
  arrays : w.arrays = sc.arrays
  filled : ∀ k, (∃ c, (k, c) ∈ w.filled) ↔ k ∈ sc.filled
  fit : sc.Fit

/-- The other components stay as they are. -/
def Frame (here : ℕ) (w w' : Workspace) : Prop :=
  ∀ id, id < w.instances.size → id ≠ here → w'.instanceAt id = w.instanceAt id

section
variable {w w₁ w₂ : Workspace} {here : ℕ}

theorem Frame.refl (here : ℕ) (w : Workspace) : Frame here w w := fun _ _ _ => rfl

theorem Frame.trans (h : Frame here w w₁) (hle : w.instances.size ≤ w₁.instances.size)
    (h' : Frame here w₁ w₂) : Frame here w w₂ :=
  fun id hlt hne => (h' id (by omega) hne).trans (h id hlt hne)

theorem frame_updateInstance (w : Workspace) (here : ℕ) (g : Instance → Instance) :
    Frame here w (w.updateInstance here g) :=
  fun id _ hne => by rw [instanceAt_updateInstance, if_neg fun h => hne h.1.symm]

end

end Workspace

/-- A statement over some signals, in canonical form, with a hint that always
    answers. -/
structure Statement.Proper (f : PrimeField) (S : Set Signal) (st : Statement) : Prop where
  exprs : ∀ e ∈ st.exprs, e.Proper f S
  target : ∀ s ∈ st.target?, s ∈ S
  answers : ∀ origin target h deps, st = .hint origin target h deps →
    ∀ args : List ℕ, args.length = deps.length → ∃ m, h.run f args = .ok (.value m)

theorem Statement.Proper.mono {f : PrimeField} {S S' : Set Signal} {st : Statement}
    (h : st.Proper f S) (hsub : S ⊆ S') : st.Proper f S' :=
  ⟨fun e he => (h.exprs e he).mono hsub, fun s hs => hsub (h.target s hs), h.answers⟩

end RankOne
