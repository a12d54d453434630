/-
  RankOne — the rows of a workspace belong to the components that emitted them.

  * `Workspace.Attributed`: each row is noted by one component, whose path it bears, in
    the order of emission;
  * `Workspace.Emitted`: a component emits a row;
  * `Performed.attributed`: what a request preserves;
  * `Program.run_attributed`: what a whole run preserves, children included.
-/
import RankOne.Proofs.Build.References

namespace RankOne

namespace Workspace

/-- Every row is noted by exactly one component, under its path and in the order of
    emission, and what a component refers to stands in its rows. -/
structure Attributed (w : Workspace) : Prop where
  ascending : ∀ id, (w.instanceAt id).rows.Pairwise (· < ·)
  origin : ∀ id, ∀ k ∈ (w.instanceAt id).rows,
    ∃ row, w.draft.rows[k]? = some row ∧ row.origin = (w.instanceAt id).path
  unique : ∀ i j k, k ∈ (w.instanceAt i).rows → k ∈ (w.instanceAt j).rows → i = j
  noted : ∀ k < w.draft.rows.size, ∃ id < w.instances.size, k ∈ (w.instanceAt id).rows
  source : ∀ id, ∀ s ∈ (w.instanceAt id).referenced,
    ∃ k ∈ (w.instanceAt id).rows, ∃ row, w.draft.rows[k]? = some row ∧ s ∈ row.signals

section
variable {S A : Set ℕ} {w w' : Workspace} {sts : List Statement} {here : ℕ}

theorem Attributed.lt (hw : w.Attributed) {id k : ℕ} (hk : k ∈ (w.instanceAt id).rows) :
    k < w.draft.rows.size := by
  obtain ⟨row, hrow, -⟩ := hw.origin id k hk
  exact (Array.getElem?_eq_some_iff.1 hrow).1

/-- A component that notes rows is there. -/
theorem lt_of_mem_rows {id k : ℕ} (hk : k ∈ (w.instanceAt id).rows) : id < w.instances.size := by
  by_contra hle
  rw [instanceAt_of_le (not_lt.1 hle)] at hk
  cases hk

/-- Where the rows and the notes stay, the attribution stays. -/
theorem Attributed.of_notes (hw : w.Attributed) (hrun : Run S A w sts w')
    (hdraft : w'.draft.rows = w.draft.rows)
    (hnotes : ∀ id, (w'.instanceAt id).notes = (w.instanceAt id).notes) : w'.Attributed := by
  have hrows (id : ℕ) : (w'.instanceAt id).rows = (w.instanceAt id).rows :=
    congrArg Prod.fst (hnotes id)
  have hreferenced (id : ℕ) : (w'.instanceAt id).referenced = (w.instanceAt id).referenced :=
    congrArg Prod.snd (hnotes id)
  constructor
  · intro id
    rw [hrows]
    exact hw.ascending id
  · intro id k hk
    rw [hrows] at hk
    rw [hdraft, hrun.path (lt_of_mem_rows hk)]
    exact hw.origin id k hk
  · intro i j k hi hj
    rw [hrows] at hi hj
    exact hw.unique i j k hi hj
  · intro k hk
    rw [hdraft] at hk
    obtain ⟨id, hid, hmem⟩ := hw.noted k hk
    exact ⟨id, hid.trans_le hrun.size_le, by rwa [hrows]⟩
  · intro id s hs
    rw [hreferenced] at hs
    rw [hrows, hdraft]
    exact hw.source id s hs

theorem Attributed.still (hw : w.Attributed) (hrun : Run S A w sts w') (h : Still w w') :
    w'.Attributed := hw.of_notes hrun h.draft h.notes

/-- A component emits a row: it is added to the draft, and the component notes it
    together with its signals. -/
structure Emitted (here : ℕ) (row : Row) (w w' : Workspace) : Prop where
  draft : w'.draft.rows = w.draft.rows.push row
  size : w'.instances.size = w.instances.size
  path : ∀ id, (w'.instanceAt id).path = (w.instanceAt id).path
  own : (w'.instanceAt here).notes = ((w.instanceAt here).rows ++ [w.draft.rows.size],
    row.signals.foldl (fun acc s => s.insert acc) (w.instanceAt here).referenced)
  others : ∀ id ≠ here, (w'.instanceAt id).notes = (w.instanceAt id).notes

theorem emitted_record (hh : here < w.instances.size) {row : Row}
    (hdraft : w'.draft.rows = w.draft.rows.push row) (hi : w'.instances = w.instances) :
    Emitted here row w (Workspace.record here w.draft.rows.size w') := by
  have hat (id : ℕ) : w'.instanceAt id = w.instanceAt id := by rw [instanceAt, hi]; rfl
  have hnew : w'.draft.rows[w.draft.rows.size]? = some row := by rw [hdraft]; simp
  constructor
  · exact hdraft
  · rw [Workspace.record, size_updateInstance, hi]
  · intro id
    rw [Workspace.record, instanceAt_updateInstance, hat]
    split_ifs <;> rfl
  · rw [Workspace.record, instanceAt_updateInstance, hi, if_pos ⟨rfl, hh⟩, hnew, hat]
    rfl
  · intro id hid
    rw [Workspace.record, instanceAt_updateInstance, if_neg (fun h => hid h.1.symm), hat]

namespace Emitted

variable {row : Row} (he : Emitted here row w w')
include he

theorem rows : (w'.instanceAt here).rows = (w.instanceAt here).rows ++ [w.draft.rows.size] :=
  congrArg Prod.fst he.own

theorem mem_rows {id k : ℕ} : k ∈ (w'.instanceAt id).rows ↔
    k ∈ (w.instanceAt id).rows ∨ id = here ∧ k = w.draft.rows.size := by
  by_cases hid : id = here
  · subst hid
    simp [he.rows]
  · have hrows : (w'.instanceAt id).rows = (w.instanceAt id).rows :=
      congrArg Prod.fst (he.others id hid)
    simp [hrows, hid]

theorem mem_referenced {id : ℕ} {s : Signal} (hs : s ∈ (w'.instanceAt id).referenced) :
    s ∈ (w.instanceAt id).referenced ∨ id = here ∧ s ∈ row.signals := by
  by_cases hid : id = here
  · subst hid
    have hreferenced : (w'.instanceAt id).referenced =
      row.signals.foldl (fun acc s => s.insert acc) (w.instanceAt id).referenced :=
      congrArg Prod.snd he.own
    rw [hreferenced] at hs
    exact (Signal.mem_of_mem_insertAll hs).imp_right fun hs => ⟨rfl, hs⟩
  · have hreferenced : (w'.instanceAt id).referenced = (w.instanceAt id).referenced :=
      congrArg Prod.snd (he.others id hid)
    rw [hreferenced] at hs
    exact Or.inl hs

theorem getElem?_new : w'.draft.rows[w.draft.rows.size]? = some row := by
  rw [he.draft]
  simp

theorem getElem?_old {k : ℕ} {r : Row} (hk : w.draft.rows[k]? = some r) :
    w'.draft.rows[k]? = some r := by
  rw [he.draft, Array.getElem?_push, if_neg (Array.getElem?_eq_some_iff.1 hk).1.ne, hk]

/-- **A component that emits a row under its path keeps the attribution.** -/
theorem attributed (hh : here < w.instances.size) (horigin : row.origin = (w.instanceAt here).path)
    (hw : w.Attributed) : w'.Attributed := by
  constructor
  · intro id
    by_cases hid : id = here
    · subst hid
      rw [he.rows]
      refine List.pairwise_append.2 ⟨hw.ascending id, List.pairwise_singleton _ _, ?_⟩
      intro k hk k' hk'
      rw [List.mem_singleton.1 hk']
      exact hw.lt hk
    · have hrows : (w'.instanceAt id).rows = (w.instanceAt id).rows :=
        congrArg Prod.fst (he.others id hid)
      rw [hrows]
      exact hw.ascending id
  · intro id k hk
    rw [he.path]
    rcases he.mem_rows.1 hk with hk | ⟨rfl, rfl⟩
    · obtain ⟨r, hr, hro⟩ := hw.origin id k hk
      exact ⟨r, he.getElem?_old hr, hro⟩
    · exact ⟨row, he.getElem?_new, horigin⟩
  · intro i j k hi hj
    rcases he.mem_rows.1 hi with hi | ⟨rfl, rfl⟩ <;> rcases he.mem_rows.1 hj with hj | ⟨hj, hk⟩
    · exact hw.unique i j k hi hj
    · exact absurd (hw.lt hi) (by omega)
    · exact absurd (hw.lt hj) (lt_irrefl _)
    · exact hj.symm
  · intro k hk
    rw [he.draft, Array.size_push] at hk
    rw [he.size]
    rcases Nat.lt_succ_iff_lt_or_eq.1 hk with hk | rfl
    · obtain ⟨id, hid, hkid⟩ := hw.noted k hk
      exact ⟨id, hid, he.mem_rows.2 (Or.inl hkid)⟩
    · exact ⟨here, hh, he.mem_rows.2 (Or.inr ⟨rfl, rfl⟩)⟩
  · intro id s hs
    rcases he.mem_referenced hs with hs | ⟨rfl, hs⟩
    · obtain ⟨k, hk, r, hr, hsr⟩ := hw.source id s hs
      exact ⟨k, he.mem_rows.2 (Or.inl hk), r, he.getElem?_old hr, hsr⟩
    · exact ⟨_, he.mem_rows.2 (Or.inr ⟨rfl, rfl⟩), row, he.getElem?_new, hs⟩

end Emitted

theorem opened_attributed {σ : Type} (t : Template σ) (field : PrimeField)
    (policy : DanglingPolicy) : (t.opened field policy).Attributed := by
  have hnotes (id : ℕ) : ((t.opened field policy).instanceAt id).notes = ([], []) := by
    rcases id with _ | id <;> rfl
  have hrows (id : ℕ) : ((t.opened field policy).instanceAt id).rows = [] :=
    congrArg Prod.fst (hnotes id)
  have hreferenced (id : ℕ) : ((t.opened field policy).instanceAt id).referenced = [] :=
    congrArg Prod.snd (hnotes id)
  constructor
  · intro id
    rw [hrows]
    exact .nil
  · intro id k hk
    rw [hrows] at hk
    cases hk
  · intro i j k hi
    rw [hrows] at hi
    cases hi
  · intro k hk
    cases hk
  · intro id s hs
    rw [hreferenced] at hs
    cases hs

end

end Workspace

/-! ## Runs -/

section
variable {here : ℕ} {w w' : Workspace} {sts : List Statement}

/-- **A request keeps the attribution.** -/
theorem Performed.attributed (h : Performed here w sts w') (hh : here < w.instances.size)
    (hw : w.Attributed) : w'.Attributed := by
  have hrun := h.run
  cases h with
  | quiet _ hstill => exact hw.still hrun hstill
  | rowless _ hrows _ hstill =>
    exact hw.of_notes hrun (hstill.draft.trans hrows) hstill.notes
  | @row _ draft _ _ hrows horigin level source text =>
    have hemitted := @Workspace.emitted_record w ({ w with draft }.report level source text)
      here hh _ hrows rfl
    exact hemitted.attributed hh horigin hw

/-- A statement that emits a row is noted. -/
theorem Performed.emitted {st : Statement} (h : Performed here w [st] w')
    (hh : here < w.instances.size) (hst : st.emitsRow = true) :
    ∃ row, st.Emits row ∧ ∃ k ∈ (w'.instanceAt here).rows, w'.draft.rows[k]? = some row := by
  cases h with
  | rowless hc hrows =>
    obtain ⟨rows, hlist, hemits⟩ := hc.rows
    rw [List.filter_singleton, hst] at hemits
    have hlength := congrArg List.length hlist
    rw [hrows, List.length_append, hemits.length_eq.symm] at hlength
    simp at hlength
  | @row _ draft row hc hrows horigin level source text =>
    obtain ⟨rows, hlist, hemits⟩ := hc.rows
    rw [hrows, Array.toList_push] at hlist
    obtain rfl := List.append_cancel_left hlist
    rw [List.filter_singleton, hst] at hemits
    have hemitted := @Workspace.emitted_record w ({ w with draft }.report level source text)
      here hh _ hrows rfl
    refine ⟨row, (List.forall₂_cons.1 hemits).1, w.draft.rows.size, ?_, hemitted.getElem?_new⟩
    exact hemitted.mem_rows.2 (Or.inr ⟨rfl, rfl⟩)

/-- **A run of a program keeps the attribution**, the builds of its children
    included. -/
theorem Program.run_attributed {σ α : Type} : ∀ (p : Program σ α) {here : ℕ} {w : Workspace}
    (h : σ), here < w.instances.size → w.Attributed → (p.run here (w, h)).2.1.Attributed
  | .pure _, _, _, _, _, hw => hw
  | .request c next, here, w, h, hh, hw => by
    have hc := perform_cases hh c
    exact run_attributed (next _) h (hh.trans_eq hc.size.symm) (hc.attributed hh hw)
  | .child place application body next, here, w, h, hh, hw => by
    have hopen := Workspace.run_openChild hh place application
    obtain ⟨hdraft, hnotes⟩ := Workspace.notes_openChild (w := w) here place application
    rcases ho : (Workspace.openChild here place application).run.run w with
      ⟨e | ⟨parent, name, id⟩, w₁⟩ <;> rw [ho] at hopen hdraft hnotes <;>
      simp only [run, ho]
    · exact run_attributed (next _) h (hh.trans_le hopen.size_le) (hw.of_notes hopen hdraft hnotes)
    · rcases hb : body.run id (w₁, h) with ⟨built, w₂, h₂⟩
      rcases hc : (Workspace.closeChild place parent name id built).run.run w₂ with ⟨r, w₃⟩
      have hp := placing hh ho hb hc
      have hbody := run_attributed body h hp.lt (hw.of_notes hopen hdraft hnotes)
      have hclose := Workspace.still_closeChild (w := w₂) place parent name id built
      rw [hb] at hbody
      rw [hc] at hclose
      exact run_attributed (next r) h₂ (hh.trans_le hp.run.size_le)
        (Workspace.Attributed.still hbody hp.leave hclose)
  | .getHost next, _, _, h, hh, hw => run_attributed (next h) h hh hw
  | .setHost h next, _, _, _, hh, hw => run_attributed next h hh hw

end

/-- **The rows of a circuit's workspace belong to the components that emitted them.** -/
theorem expand_attributed {σ : Type} {t : Template σ} {field : PrimeField}
    {policy : DanglingPolicy} {host host' : σ} {id : ℕ} {w : Workspace}
    (h : t.expand (.start field policy, host) = (.ok id, (w, host'))) : w.Attributed := by
  obtain ⟨-, w₁, hrun, hstill, hclose⟩ := Template.expand_eq_ok h
  have hbody := @Program.run_attributed σ _ t.body.run 0 (t.opened field policy) host
    Nat.zero_lt_one (Workspace.opened_attributed t field policy)
  rw [hrun] at hbody
  exact hbody.still (hclose 0) hstill

end RankOne
