/-
  RankOne — where the signals of a circuit stand.

  * `bindFrom_spec`: binding a list of signals gives each its place in the list,
    and succeeds only for distinct ones;
  * `mem_layout`: the layout holds the signals of the workspace.
-/
import RankOne.Proofs.Build.Sound
import RankOne.Witness.Input

namespace RankOne

namespace Circuit

/-! ## Positions -/

section
variable {s t : Signal} {p q : Position} {w : Workspace}

theorem position?_placed (h : w.position? s = none) (p : Position) :
    Workspace.position? { w with positions := (s, p) :: w.positions } s = some p := by
  unfold Workspace.position? at h ⊢
  split at h
  · cases h
  · simp

theorem position?_placed_of_ne (h : t ≠ s) :
    Workspace.position? { w with positions := (s, p) :: w.positions } t = w.position? t := by
  unfold Workspace.position?
  split
  · rfl
  · simp [List.lookup_cons, beq_false_of_ne h]

theorem bindPosition_of_none (h : w.position? s = none) :
    (Workspace.bindPosition s p).run.run w =
      (.ok (), { w with positions := (s, p) :: w.positions }) := by
  rw [Workspace.bindPosition, Work.run_bind, Work.run_get]
  dsimp only
  rw [h]
  rfl

theorem bindPosition_of_some (h : w.position? s = some q) :
    (Workspace.bindPosition s p).run.run w = (.error (.placedTwice s.path q.text), w) := by
  rw [Workspace.bindPosition, Work.run_bind, Work.run_get]
  dsimp only
  rw [h]
  rfl

end

theorem bindPosition_run {s : Signal} {p : Position} {w w' : Workspace}
    (h : (Workspace.bindPosition s p).run.run w = (.ok (), w')) :
    w.position? s = none ∧ w' = { w with positions := (s, p) :: w.positions } := by
  rw [Workspace.bindPosition, Work.run_bind, Work.run_get] at h
  dsimp only at h
  split at h
  · cases h
  · next hp => cases h; exact ⟨hp, rfl⟩

/-- **Binding gives every signal of a list its place in the list.** -/
theorem bindFrom_spec : ∀ {ss : List Signal} {i : ℕ} {w w' : Workspace},
    bindFrom i ss w = .ok w' → ss.Nodup ∧ (∃ ps, w' = { w with positions := ps }) ∧
      (∀ s, (s ∈ ss → w.position? s = none) ∧ (s ∉ ss → w'.position? s = w.position? s)) ∧
      ∀ k s, ss[k]? = some s → w'.position? s = some (.of (i + k : ℕ))
  | [], i, w, w', h => by
    cases h
    exact ⟨List.nodup_nil, ⟨_, rfl⟩, fun s => ⟨by simp, fun _ => rfl⟩, by simp⟩
  | t :: ss, i, w, w', h => by
    rw [bindFrom] at h
    split at h
    · next w₁ hb =>
      obtain ⟨ht, rfl⟩ := bindPosition_run hb
      obtain ⟨hnodup, ⟨ps, hps⟩, hrest, hplace⟩ := bindFrom_spec h
      have hself := position?_placed ht (.of i)
      -- a signal bound once cannot be bound again
      have hfresh : t ∉ ss := fun hm => by
        have := (hrest t).1 hm
        rw [hself] at this; cases this
      refine ⟨List.nodup_cons.2 ⟨hfresh, hnodup⟩, ⟨ps, hps⟩, fun s => ⟨fun hs => ?_, fun hs => ?_⟩,
        fun k s hs => ?_⟩
      · rcases List.mem_cons.1 hs with rfl | hs
        · exact ht
        · have hne : s ≠ t := fun he => hfresh (he ▸ hs)
          exact (position?_placed_of_ne hne).symm.trans ((hrest s).1 hs)
      · rw [(hrest s).2 (List.not_mem_of_not_mem_cons hs),
          position?_placed_of_ne (List.ne_of_not_mem_cons hs)]
      · rcases k with _ | k
        · cases hs; rw [(hrest t).2 hfresh]; exact hself
        · rw [List.getElem?_cons_succ] at hs
          rw [hplace k s hs, Nat.add_assoc, Nat.add_comm 1 k]
    · cases h

/-! ## The layout -/

section
variable {w : Workspace} {public_ : List String}

theorem mem_of_withRole (hw : w.Sound) {id : ℕ} {role : Role} {s : Signal}
    (h : s ∈ ((w.instanceAt id).withRole role).flatMap (·.bus.flat)) :
    s ∈ w.signals ∧ s.kind = .declared role ∧ s.component = (w.instanceAt id).path := by
  obtain ⟨d, hd, hs⟩ := List.mem_flatMap.1 h
  obtain ⟨hd, hr⟩ := List.mem_filter.1 hd
  obtain ⟨hm, hk, hc⟩ := hw.declared id d hd s hs
  exact ⟨hm, by rw [hk, show d.role = role by simpa using hr], hc⟩

/-- A signal that the main component declares in a role. -/
def isMain (role : Role) (s : Signal) : Bool := s.kind == .declared role && s.component == "main"

/-- The signals of the main component in a role. -/
theorem mem_withRole_main (hw : w.Sound) {role : Role} {s : Signal} :
    s ∈ ((w.instanceAt 0).withRole role).flatMap (·.bus.flat) ↔
      s ∈ w.signals ∧ isMain role s = true := by
  rw [isMain, Bool.and_eq_true, beq_iff_eq, beq_iff_eq]
  constructor
  · intro hs
    obtain ⟨hmem, hk, hc⟩ := mem_of_withRole hw hs
    exact ⟨hmem, hk, by rw [hc, hw.main]⟩
  · rintro ⟨hmem, hk, hc⟩
    obtain ⟨id, d, hd, hs⟩ := hw.covered s hmem (by rw [hk]; simp)
    obtain ⟨-, hkind, hcomp⟩ := hw.declared id d hd s hs
    -- the component of the declaration is the main one by its path
    obtain rfl : id = 0 := by
      by_contra hid
      exact hw.paths id hid (hcomp.symm.trans hc)
    have hrole : d.role = role := by rw [hk] at hkind; exact (Kind.declared.inj hkind).symm
    exact List.mem_flatMap.2 ⟨d, List.mem_filter.2 ⟨hd, by simp [hrole]⟩, hs⟩

/-- What stands before all other signals: the constant and the blocks of the main
    component. -/
def head (w : Workspace) (public_ : List String) : List Signal :=
  Workspace.one w.field :: ((blocks (w.instanceAt 0) public_).1 ++
    (blocks (w.instanceAt 0) public_).2.1 ++ (blocks (w.instanceAt 0) public_).2.2)

theorem layout_eq_append (w : Workspace) (public_ : List String) :
    layout w (w.instanceAt 0) public_ = head w public_ ++
      w.signals.toList.filter fun s => !(head w public_).any (·.same s) := rfl

/-- The constant and the signals of the main component are signals. -/
theorem mem_signals_of_head (hw : w.Sound) {s : Signal} (h : s ∈ head w public_) :
    s ∈ w.signals := by
  rcases List.mem_cons.1 h with rfl | h
  · exact Array.mem_iff_getElem?.2 ⟨0, hw.first⟩
  rcases List.mem_append.1 h with h | h
  · rcases List.mem_append.1 h with h | h
    · exact (mem_of_withRole hw h).1
    · obtain ⟨name, -, hs⟩ := List.mem_flatMap.1 h
      unfold inputSignals at hs
      split at hs
      · next d hd =>
        exact (mem_of_withRole hw (List.mem_flatMap.2 ⟨d, List.mem_of_find?_eq_some hd, hs⟩)).1
      · cases hs
  · obtain ⟨d, hd, hs⟩ := List.mem_flatMap.1 h
    exact (mem_of_withRole hw (List.mem_flatMap.2 ⟨d, List.mem_of_mem_filter hd, hs⟩)).1

/-- **The layout holds the signals of the workspace.** -/
theorem mem_layout (hw : w.Sound) {s : Signal} :
    s ∈ layout w (w.instanceAt 0) public_ ↔ s ∈ w.signals := by
  rw [layout_eq_append, List.mem_append]
  constructor
  · rintro (h | h)
    · exact mem_signals_of_head hw h
    · exact Array.mem_toList_iff.1 (List.mem_of_mem_filter h)
  · intro hs
    by_cases hh : ∃ t ∈ head w public_, t.same s
    · obtain ⟨t, ht, hsame⟩ := hh
      rw [hw.numbered.eq_of_uid hs (mem_signals_of_head hw ht) (Signal.same_iff.1 hsame).symm]
      exact Or.inl ht
    · refine Or.inr (List.mem_filter.2 ⟨Array.mem_toList_iff.2 hs, ?_⟩)
      rw [← List.any_eq_true, Bool.not_eq_true] at hh
      simpa using hh

end

end Circuit

end RankOne
