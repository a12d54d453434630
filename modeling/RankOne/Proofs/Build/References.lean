/-
  RankOne — the signals of components, and those they refer to.

  * `Workspace.Declares`, `Workspace.Apart`, `Run.apart`: no two components declare one
    signal;
  * `Run.row?`: a row stays where it is;
  * `Workspace.Referenced`, `Run.referenced`: a component refers to the signals of the
    rows it emitted, up to the declaration number.
-/
import RankOne.Proofs.Build.Declared
import RankOne.Proofs.Expr.Row

namespace RankOne

/-! ## Sets of signals -/

namespace Signal

theorem uid_mem_insert {u : ℤ} {s : Signal} {ss : List Signal} :
    u ∈ (s.insert ss).map uid ↔ u = s.uid ∨ u ∈ ss.map uid := by
  simp only [List.mem_map]
  constructor
  · rintro ⟨t, ht, rfl⟩
    rcases mem_of_mem_insert ht with rfl | ht
    · exact Or.inl rfl
    · exact Or.inr ⟨t, ht, rfl⟩
  · rintro (rfl | ⟨t, ht, rfl⟩)
    · exact exists_mem_insert_self s ss
    · exact ⟨t, mem_insert_of_mem ht, rfl⟩

theorem uid_mem_insertAll {u : ℤ} {ss : List Signal} : ∀ {acc : List Signal},
    u ∈ (ss.foldl (fun acc s => s.insert acc) acc).map uid ↔ u ∈ acc.map uid ∨ u ∈ ss.map uid := by
  induction ss with
  | nil => simp
  | cons s ss ih =>
    intro acc
    rw [List.foldl_cons, ih, uid_mem_insert, List.map_cons, List.mem_cons]
    tauto

/-- A set of signals has their declaration numbers. -/
theorem uid_mem_sorted {u : ℤ} {ss : List Signal} :
    u ∈ (Signal.sorted ss).map uid ↔ u ∈ ss.map uid := by
  rw [Signal.sorted, uid_mem_insertAll]
  simp

end Signal

namespace Workspace

/-! ## Declarations -/

/-- The component of a number declares a signal. -/
def Declares (w : Workspace) (id : ℕ) (s : Signal) : Prop :=
  ∃ d ∈ (w.instanceAt id).declarations, s ∈ d.bus.flat

instance (w : Workspace) (id : ℕ) (s : Signal) : Decidable (w.Declares id s) :=
  inferInstanceAs (Decidable (∃ d ∈ (w.instanceAt id).declarations, s ∈ d.bus.flat))

/-- No two components declare one signal. -/
def Apart (w : Workspace) : Prop := ∀ i j s, w.Declares i s → w.Declares j s → i = j

section
variable {S A : Set ℕ} {w w' : Workspace} {sts : List Statement}

theorem Apart.of_declarations (hw : w.Apart)
    (h : ∀ id, (w'.instanceAt id).declarations = (w.instanceAt id).declarations) : w'.Apart := by
  intro i j s hi hj
  rw [Declares, h] at hi hj
  exact hw i j s hi hj

/-- The signals of a new declaration are declared by no one else. -/
theorem Apart.declare (hs : w.Sound) (hw : w.Apart) {here : ℕ} {role : Role} {name : String}
    (dims : List ℕ) (mark : Mark) {bus : Bus} {signals : Array Signal}
    (hbus : makeBus w.field role (w.instanceAt here).path dims mark
      s!"{(w.instanceAt here).path}.{name}" w.signals = (bus, signals)) :
    Apart (w.withDeclared here signals ⟨name, role, bus⟩) := by
  have hm := makeBus_spec w.field role (w.instanceAt here).path dims mark
    s!"{(w.instanceAt here).path}.{name}" w.signals
  rw [hbus] at hm
  have hsorted := (hm.numbered hs.numbered).pairwise
  rw [hm.list, List.pairwise_append] at hsorted
  have hnew {id : ℕ} {s : Signal} (hold : w.Declares id s) : s ∉ bus.flat := fun hmem => by
    obtain ⟨d, hd, hsd⟩ := hold
    have hlt := hsorted.2.2 s (Array.mem_toList_iff.2 (hs.declared id d hd s hsd).1) s hmem
    exact lt_irrefl _ hlt
  have hcases {id : ℕ} {s : Signal}
      (h : (w.withDeclared here signals ⟨name, role, bus⟩).Declares id s) :
      w.Declares id s ∨ id = here ∧ s ∈ bus.flat := by
    obtain ⟨d, hd, hsd⟩ := h
    rw [instanceAt_withDeclared] at hd
    split_ifs at hd with hid
    · rcases List.mem_append.1 hd with hd | hd
      · exact Or.inl ⟨d, hd, hsd⟩
      · rw [List.mem_singleton.1 hd] at hsd
        exact Or.inr ⟨hid.1.symm, hsd⟩
    · exact Or.inl ⟨d, hd, hsd⟩
  intro i j s hi hj
  rcases hcases hi with hi | ⟨hi, hsi⟩ <;> rcases hcases hj with hj | ⟨hj, hsj⟩
  · exact hw i j s hi hj
  · exact absurd hsj (hnew hi)
  · exact absurd hsi (hnew hj)
  · rw [hi, hj]

theorem Move.apart {here : ℕ} (h : Move here w w') (hs : w.Sound) (hw : w.Apart) : w'.Apart := by
  cases h with
  | declare _ _ _ _ dims mark hbus => exact hw.declare hs dims mark hbus
  | reserve =>
    refine hw.of_declarations fun id => ?_
    rw [instanceAt_updateInstance]
    split_ifs <;> rfl
  | record =>
    refine hw.of_declarations fun id => ?_
    rw [Workspace.record, instanceAt_updateInstance]
    split_ifs <;> rfl
  | enter =>
    refine hw.of_declarations fun id => ?_
    rw [instanceAt_push]
    split_ifs with hid
    · rw [hid, instanceAt_of_le le_rfl]; rfl
    · rfl
  | keep _ _ _ _ hi => exact hw.of_declarations fun id => by rw [instanceAt, hi]; rfl

/-- **In every chain of moves and statements, no two components declare one signal.** -/
theorem Run.apart (h : Run S A w sts w') (hs : w.Sound) (hw : w.Apart) : w'.Apart := by
  induction h with
  | done => exact hw
  | move _ hm _ ih => exact ih (hm.sound hs) (hm.apart hs hw)
  | attach id name _ _ _ ih =>
    refine ih ((keeps_attach id name _).sound hs) (hw.of_declarations fun j => ?_)
    rw [instanceAt_updateInstance]
    split_ifs <;> rfl
  | state hc _ ih => exact ih (hs.change hc) hw

theorem opened_apart {σ : Type} (t : Template σ) (field : PrimeField) (policy : DanglingPolicy) :
    (t.opened field policy).Apart := by
  rintro i j s ⟨d, hd, -⟩ -
  have hnil : ((t.opened field policy).instanceAt i).declarations = [] := by
    rcases i with _ | i <;> rfl
  rw [hnil] at hd
  cases hd

/-! ## Rows -/

/-- A row stays where it is. -/
theorem Run.row? (h : Run S A w sts w') {k : ℕ} (hk : k < w.draft.rows.size) :
    w'.draft.rows[k]? = w.draft.rows[k]? := by
  obtain ⟨rows, hrows, -⟩ := h.rows
  rw [← Array.getElem?_toList, ← Array.getElem?_toList, hrows,
    List.getElem?_append_left (by simpa using hk)]

/-- The rows of the components are there, and a component refers to the signals of its
    rows, up to the declaration number. -/
def Referenced (w : Workspace) : Prop := ∀ id,
  (∀ k ∈ (w.instanceAt id).rows, k < w.draft.rows.size) ∧
  ∀ u : ℤ, u ∈ (w.instanceAt id).referenced.map (·.uid) ↔
    ∃ k ∈ (w.instanceAt id).rows, ∃ row, w.draft.rows[k]? = some row ∧
      u ∈ row.signals.map (·.uid)

/-- What components refer to stays, as the draft only grows. -/
theorem Referenced.mono (hw : w.Referenced)
    (hat : ∀ id, (w'.instanceAt id).rows = (w.instanceAt id).rows ∧
      (w'.instanceAt id).referenced = (w.instanceAt id).referenced)
    (hsize : w.draft.rows.size ≤ w'.draft.rows.size)
    (hdraft : ∀ k < w.draft.rows.size, w'.draft.rows[k]? = w.draft.rows[k]?) :
    w'.Referenced := by
  intro id
  obtain ⟨hlt, hiff⟩ := hw id
  rw [(hat id).1, (hat id).2]
  refine ⟨fun k hk => (hlt k hk).trans_le hsize, fun u => (hiff u).trans ?_⟩
  refine exists_congr fun k => and_congr_right fun hk => ?_
  rw [hdraft k (hlt k hk)]

/-- A row that is noted brings its signals. -/
theorem Referenced.record (hw : w.Referenced) (here : ℕ) {row : ℕ}
    (hrow : row < w.draft.rows.size) : (Workspace.record here row w).Referenced := by
  intro id
  obtain ⟨hlt, hiff⟩ := hw id
  rw [Workspace.record, instanceAt_updateInstance]
  split_ifs with hid
  · have hget : w.draft.rows[row]? = some w.draft.rows[row] := Array.getElem?_eq_getElem hrow
    refine ⟨fun k hk => ?_, fun u => ?_⟩
    · rcases List.mem_append.1 hk with hk | hk
      · exact hlt k hk
      · rw [List.mem_singleton.1 hk]; exact hrow
    · dsimp only [updateInstance]
      rw [hget, Option.map_some, Option.getD_some, Signal.uid_mem_insertAll, hiff]
      constructor
      · rintro (⟨k, hk, r, hr, hu⟩ | hu)
        · exact ⟨k, List.mem_append_left _ hk, r, hr, hu⟩
        · exact ⟨row, List.mem_append_right _ (List.mem_singleton_self _), _, hget, hu⟩
      · rintro ⟨k, hk, r, hr, hu⟩
        rcases List.mem_append.1 hk with hk | hk
        · exact Or.inl ⟨k, hk, r, hr, hu⟩
        · rw [List.mem_singleton.1 hk, hget, Option.some.injEq] at hr
          exact Or.inr (hr ▸ hu)
  · exact ⟨hlt, hiff⟩

theorem Move.referenced {here : ℕ} (h : Move here w w') (hw : w.Referenced) : w'.Referenced := by
  cases h with
  | record row hrow => exact hw.record here hrow
  | reserve =>
    refine hw.mono (fun id => ?_) le_rfl fun _ _ => rfl
    rw [instanceAt_updateInstance]
    split_ifs <;> exact ⟨rfl, rfl⟩
  | declare =>
    refine hw.mono (fun id => ?_) le_rfl fun _ _ => rfl
    rw [instanceAt_withDeclared]
    split_ifs <;> exact ⟨rfl, rfl⟩
  | enter =>
    refine hw.mono (fun id => ?_) le_rfl fun _ _ => rfl
    rw [instanceAt_push]
    split_ifs with hid
    · rw [hid, instanceAt_of_le le_rfl]; exact ⟨rfl, rfl⟩
    · exact ⟨rfl, rfl⟩
  | keep _ _ _ hd hi =>
    refine hw.mono (fun id => ?_) (by rw [hd]) fun _ _ => by rw [hd]
    rw [instanceAt, hi]
    exact ⟨rfl, rfl⟩

/-- **In every chain of moves and statements, a component refers to the signals of its
    rows.** -/
theorem Run.referenced (h : Run S A w sts w') (hw : w.Referenced) : w'.Referenced := by
  induction h with
  | done => exact hw
  | move _ hm _ ih => exact ih (hm.referenced hw)
  | attach id name _ _ _ ih =>
    refine ih (hw.mono (fun j => ?_) le_rfl fun _ _ => rfl)
    rw [instanceAt_updateInstance]
    split_ifs <;> exact ⟨rfl, rfl⟩
  | @state w w₂ st draft sts hc _ ih =>
    have hstep : Run Set.univ Set.univ w [st] { w with draft } := .state hc (.done _)
    obtain ⟨rows, hrows, -⟩ := hc.rows
    refine ih (hw.mono (fun _ => ⟨rfl, rfl⟩) ?_ fun k hk => hstep.row? hk)
    have hlen := congrArg List.length hrows
    rw [List.length_append, Array.length_toList, Array.length_toList] at hlen
    change w.draft.rows.size ≤ draft.rows.size
    omega

theorem opened_referenced {σ : Type} (t : Template σ) (field : PrimeField)
    (policy : DanglingPolicy) : (t.opened field policy).Referenced := by
  intro id
  obtain ⟨hrows, hreferenced⟩ : ((t.opened field policy).instanceAt id).rows = [] ∧
      ((t.opened field policy).instanceAt id).referenced = [] := by
    rcases id with _ | id <;> exact ⟨rfl, rfl⟩
  rw [hrows, hreferenced]
  simp

end

end Workspace

end RankOne
