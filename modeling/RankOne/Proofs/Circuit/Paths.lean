/-
  RankOne — where the paths of signals come from.

  * `Workspace.Placed`: every signal but the constant has a path below that of its
    component, and no component goes without a path;
  * `Run.placed`: it holds throughout;
  * `compile_placed`: what follows for the signals of a compiled circuit.
-/
import RankOne.Proofs.Build.Declared
import RankOne.Proofs.Circuit.Coherent

namespace RankOne

/-- A path below that of a component. -/
def Below (component path : String) : Prop := ∃ rest, path = component ++ "." ++ rest

theorem Below.ne_empty {component path : String} (h : Below component path) : path ≠ "" := by
  obtain ⟨rest, rfl⟩ := h
  intro h
  have hdot : '.' ∈ (component ++ "." ++ rest).toList := by simp
  rw [h] at hdot
  cases hdot

namespace Workspace

/-- Signals stand below their components. -/
structure Placed (w : Workspace) : Prop where
  named : ∀ id < w.instances.size, (w.instanceAt id).path ≠ ""
  below : ∀ s ∈ w.signals, s.kind ≠ .one → s.component ≠ "" ∧ Below s.component s.path

section
variable {w w' : Workspace}

theorem Keeps.placed (h : Keeps w w') (hp : w.Placed) : w'.Placed where
  named id hid := by rw [h.path]; exact hp.named id (h.size ▸ hid)
  below := by rw [h.signals]; exact hp.below

theorem Placed.enter (hp : w.Placed) (parent : ℕ) (name : String) (application : Application) :
    Placed { w with instances := w.instances.push (w.freshChild parent name application) } := by
  have hat (j : ℕ) := instanceAt_push w (w.freshChild parent name application) j
  refine { hp with named := fun id hid => ?_ }
  rw [hat]
  split_ifs with h
  · exact Below.ne_empty ⟨name, rfl⟩
  · exact hp.named id (by simp at hid; omega)

theorem Placed.declare (hp : w.Placed) {id : ℕ} (hid : id < w.instances.size)
    {role : Role} {name : String} {bus : Bus} {signals : Array Signal}
    (hm : Made w.field role (w.instanceAt id).path s!"{(w.instanceAt id).path}.{name}" w.signals
      bus.flat signals) :
    Placed (w.withDeclared id signals ⟨name, role, bus⟩) where
  named j hj := by
    have hj : j < w.instances.size := by simpa [withDeclared, updateInstance] using hj
    rw [instanceAt_withDeclared]
    split_ifs <;> exact hp.named j hj
  below s hs hk := by
    rcases hm.mem_iff.1 hs with hs | hs
    · exact hp.below s hs hk
    · obtain ⟨rest, hr⟩ := hm.path s hs
      rw [(hm.made s hs).2.2]
      exact ⟨hp.named id hid, name ++ rest, by rw [hr, ← String.append_assoc]; rfl⟩

theorem Move.placed {here : ℕ} (h : Move here w w') (hp : w.Placed) : w'.Placed := by
  rcases h.cases with hk | ⟨role, name, bus, signals, hh, hm, rfl⟩ |
    ⟨parent, name, application, rfl⟩
  · exact hk.placed hp
  · exact hp.declare hh hm
  · exact hp.enter parent name application

/-- **Every chain of moves and statements keeps signals in their places.** -/
theorem Run.placed {S A : Set ℕ} {sts : List Statement} (h : Run S A w sts w') (hp : w.Placed) :
    w'.Placed := by
  induction h with
  | done => exact hp
  | move _ hm _ ih => exact ih (hm.placed hp)
  | attach id name _ _ _ ih => exact ih ((keeps_attach id name _).placed hp)
  | state _ _ ih => exact ih { hp with }

theorem opened_placed {σ : Type} (t : Template σ) (field : PrimeField) (policy : DanglingPolicy) :
    (t.opened field policy).Placed where
  named id hid := by
    obtain rfl : id = 0 := Nat.lt_one_iff.1 hid
    rw [(opened_sound t field policy).main]
    decide
  below s hs hk := by
    have hs : s ∈ #[one field] := hs
    exact absurd (by rw [show s = one field by simpa using hs]; rfl) hk

end

end Workspace

/-- **In a compiled circuit every signal but the constant stands below its
    component, and no main input is listed twice.** -/
theorem compile_placed {σ : Type} {settings : Settings} {t : Template σ} {host : σ}
    {public_ : List String} {c : Circuit} (h : (compile settings t host public_).result = .ok c) :
    (∀ s ∈ c.signals, s.kind ≠ .one → s.component ≠ "" ∧ Below s.component s.path) ∧
      (Witness.inputSignals c).Nodup := by
  obtain ⟨field, w, -, hrun, hc⟩ := compile_spec h
  have hopen := Workspace.opened_sound t field settings.dangling
  have hw := hrun.sound hopen
  have hp := hrun.placed (Workspace.opened_placed t field settings.dangling)
  have hl := hrun.listed hopen (Workspace.opened_listed t field settings.dangling)
  obtain ⟨-, -, w', hb, -, -, -, -, -, hs, -, hi, hm⟩ := Circuit.ofWorkspace_eq_ok hc
  obtain ⟨-, ⟨ps, rfl⟩, -, -⟩ := Circuit.bindFrom_spec hb
  constructor
  · intro s hmem
    rw [hs, List.mem_toArray, Circuit.mem_layout hw] at hmem
    exact hp.below s hmem
  · have hmain : c.mainInstance = w.instanceAt 0 := by rw [Circuit.mainInstance, hi, hm]; rfl
    rw [Witness.inputSignals, hmain]
    exact (nodup_of_ascending (hl 0).ascending).sublist (List.filter_sublist.flatMap _)

end RankOne
