/-
  RankOne — how declared arrays are nested.

  * `Bus.Spans dims path bus`: the bus is nested as the sizes say, and each signal has the
    path of the array with its indices;
  * `spans_makeBus`: so is every bus that is made;
  * `Run.spanned`: so are all declarations throughout.
-/
import RankOne.Proofs.Build.Declared

namespace RankOne

/-- A bus of the given sizes at a path. -/
def Bus.Spans : List ℕ → String → Bus → Prop
  | [], path, bus => ∃ s, bus = .single s ∧ s.path = path
  | d :: ds, path, bus => ∃ items mark, bus = .array items (d :: ds) mark ∧
      List.Forall₂ (fun (i : ℕ) item => Bus.Spans ds s!"{path}[{i}]" item) (List.range d) items

namespace Workspace

section
variable (f : PrimeField) (role : Role) (component : String)

theorem spans_makeItems {ds : List ℕ}
    (hds : ∀ (mark : Mark) (path : String) (ss : Array Signal),
      Bus.Spans ds path (makeBus f role component ds mark path ss).1)
    (mark : Mark) (path : String) (is : List ℕ) : ∀ ss : Array Signal,
      List.Forall₂ (fun i item => Bus.Spans ds s!"{path}[{i}]" item) is
        (makeItems f role component ds mark path is ss).1 := by
  induction is with
  | nil => exact fun _ => .nil
  | cons i is ih => exact fun ss => .cons (hds _ _ _) (ih _)

/-- **The buses that are made are nested as their sizes say.** -/
theorem spans_makeBus (dims : List ℕ) : ∀ (mark : Mark) (path : String) (ss : Array Signal),
    Bus.Spans dims path (makeBus f role component dims mark path ss).1 := by
  induction dims with
  | nil => exact fun _ _ _ => ⟨_, rfl, rfl⟩
  | cons d ds ih =>
    intro mark path ss
    rw [makeBus_cons]
    exact ⟨_, mark, rfl, spans_makeItems f role component ih mark path (List.range d) ss⟩

end

/-- The declarations of all components are nested as their sizes say. -/
def Spanned (w : Workspace) : Prop := ∀ id, ∀ d ∈ (w.instanceAt id).declarations,
  d.bus.Spans d.bus.shape s!"{(w.instanceAt id).path}.{d.name}"

section
variable {w w' : Workspace}

theorem Spanned.declare (hw : w.Spanned) {here : ℕ} {role : Role} {name : String} (dims : List ℕ)
    (mark : Mark) {bus : Bus} {signals : Array Signal}
    (hbus : makeBus w.field role (w.instanceAt here).path dims mark
      s!"{(w.instanceAt here).path}.{name}" w.signals = (bus, signals)) :
    Spanned (w.withDeclared here signals ⟨name, role, bus⟩) := by
  intro id d hd
  rw [instanceAt_withDeclared] at hd ⊢
  split_ifs at hd ⊢ with hid
  · obtain ⟨rfl, -⟩ := hid
    rcases List.mem_append.1 hd with hd | hd
    · exact hw here d hd
    · obtain rfl := List.mem_singleton.1 hd
      have hspans := spans_makeBus w.field role (w.instanceAt here).path dims mark
        s!"{(w.instanceAt here).path}.{name}" w.signals
      have hshape := shape_makeBus w.field role (w.instanceAt here).path dims mark
        s!"{(w.instanceAt here).path}.{name}" w.signals
      rw [hbus] at hspans hshape
      rw [hshape]
      exact hspans
  · exact hw id d hd

/-- Only a declaration changes the declarations of a component. -/
theorem Move.spanned {here : ℕ} (h : Move here w w') (hw : w.Spanned) : w'.Spanned := by
  cases h with
  | reserve name _ =>
    intro id
    rw [instanceAt_updateInstance]
    split_ifs <;> exact hw id
  | declare _ role name hname dims mark hbus => exact hw.declare dims mark hbus
  | enter parent name application =>
    intro id
    rw [instanceAt_push]
    split_ifs
    · exact fun d hd => by cases hd
    · exact hw id
  | record row =>
    intro id
    rw [Workspace.record, instanceAt_updateInstance]
    split_ifs <;> exact hw id
  | keep _ _ _ _ hi =>
    intro id
    rw [instanceAt, hi]
    exact hw id

/-- **Every chain of moves and statements keeps declarations nested as their sizes say.** -/
theorem Run.spanned {S A : Set ℕ} {sts : List Statement} (h : Run S A w sts w')
    (hw : w.Spanned) : w'.Spanned := by
  induction h with
  | done => exact hw
  | move _ hm _ ih => exact ih (hm.spanned hw)
  | attach id name _ _ _ ih =>
    refine ih fun j => ?_
    rw [instanceAt_updateInstance]
    split_ifs <;> exact hw j
  | state _ _ ih => exact ih hw

theorem opened_spanned {σ : Type} (t : Template σ) (field : PrimeField) (policy : DanglingPolicy) :
    (t.opened field policy).Spanned := by
  rintro (_ | id) d hd <;> cases hd

end

end Workspace

end RankOne
