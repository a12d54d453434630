/-
  RankOne — the rows of a circuit are shared out among its components.

  * `Workspace.Above`: the ancestors of a component;
  * `mem_walkFrom`, `nodup_walkFrom`, `Tree.walk_perm`: the walk from the main component
    comes to every component once, where each hangs in its parent;
  * `Traced.mem_referenced`: a component refers to the signals that its rows read;
  * `rows_partitioned`: the rows of the components partition the system, each under the
    path of the component that lists it.
-/
import RankOne.Proofs.Circuit.Dangling

namespace RankOne

namespace Workspace

/-! ## The walk -/

/-- A component is an ancestor of another, or the same. -/
def Above (w : Workspace) (p id : ℕ) : Prop :=
  Relation.ReflTransGen (fun i j => (w.instanceAt i).parent = some j) id p

section
variable {w : Workspace}

/-- Two ancestors of a component stand one above the other. -/
theorem Above.total {p q id : ℕ} (hp : w.Above p id) (hq : w.Above q id) :
    w.Above q p ∨ w.Above p q := by
  refine Relation.ReflTransGen.total_of_right_unique ?_ hp hq
  intro i j k hj hk
  exact Option.some.inj (hj.symm.trans hk)

theorem Tree.parent_lt (hw : w.Tree) {p id : ℕ} (h : (w.instanceAt id).parent = some p) :
    p < id ∧ id < w.instances.size := by
  have hid : id < w.instances.size := by
    by_contra hle
    rw [instanceAt_of_le (not_lt.1 hle)] at h
    cases h
  exact ⟨(hw.of_entered ⟨hid, h, rfl⟩).1, hid⟩

theorem Tree.le_of_above (hw : w.Tree) {p id : ℕ} (h : w.Above p id) : p ≤ id := by
  induction h with
  | refl => exact le_rfl
  | tail _ hstep ih => exact (hw.parent_lt hstep).1.le.trans ih

/-- No child of a component is above another one. -/
theorem Tree.eq_of_above (hw : w.Tree) {p i j : ℕ} (hi : (w.instanceAt i).parent = some p)
    (hj : (w.instanceAt j).parent = some p) (h : w.Above i j) : i = j := by
  rcases Relation.ReflTransGen.cases_head h with heq | ⟨k, hk, hik⟩
  · exact heq.symm
  · obtain rfl : p = k := Option.some.inj (hj.symm.trans hk)
    have hle := hw.le_of_above hik
    have hlt := (hw.parent_lt hi).1
    omega

/-- The walk stays below its start. -/
theorem Tree.above_of_mem_walkFrom (hw : w.Tree) : ∀ {fuel id j : ℕ},
    j ∈ Circuit.walkFrom w.instances fuel id → w.Above id j
  | fuel + 1, id, j, hj => by
    rcases List.mem_cons.1 hj with rfl | hj
    · exact .refl
    · obtain ⟨q, hq, hj⟩ := List.mem_flatMap.1 hj
      exact (hw.above_of_mem_walkFrom hj).tail (hw.children id q hq).parent

/-- The walk comes to no component twice. -/
theorem Tree.nodup_walkFrom (hw : w.Tree) (hnames : ∀ j, (w.childNames j).Nodup) :
    ∀ fuel id, (Circuit.walkFrom w.instances fuel id).Nodup
  | 0, _ => List.nodup_nil
  | fuel + 1, id => by
    have hchild (q : String × ℕ) (hq : q ∈ (w.instanceAt id).children) := hw.children id q hq
    refine List.nodup_cons.2 ⟨?_, List.nodup_flatMap.2 ⟨?_, ?_⟩⟩
    · -- what the walk meets below a child comes after the child
      intro hmem
      obtain ⟨q, hq, hmem⟩ := List.mem_flatMap.1 hmem
      have hle := hw.le_of_above (hw.above_of_mem_walkFrom hmem)
      have hlt := (hw.of_entered (hchild q hq)).1
      omega
    · intro q _
      exact hw.nodup_walkFrom hnames fuel q.2
    · have hpair : (w.instanceAt id).children.Pairwise (fun q q' => q.1 ≠ q'.1) :=
        List.pairwise_map.1 (hnames id)
      refine hpair.imp_of_mem fun {q q'} hq hq' hne j hj hj' => hne ?_
      have he := hchild q hq
      have he' := hchild q' hq'
      have hsame : q.2 = q'.2 := by
        rcases (hw.above_of_mem_walkFrom hj).total (hw.above_of_mem_walkFrom hj') with h | h
        · exact (hw.eq_of_above he'.parent he.parent h).symm
        · exact hw.eq_of_above he.parent he'.parent h
      rw [← he.name, ← he'.name, hsame]

/-- The walk goes on to the children of what it meets. -/
theorem mem_walkFrom_child {p : ℕ} {q : String × ℕ} (hq : q ∈ (w.instanceAt p).children) :
    ∀ {fuel id : ℕ}, p ∈ Circuit.walkFrom w.instances fuel id →
      q.2 ∈ Circuit.walkFrom w.instances (fuel + 1) id
  | fuel + 1, id, hp => by
    rcases List.mem_cons.1 hp with rfl | hp
    · exact List.mem_cons_of_mem _ (List.mem_flatMap.2 ⟨q, hq, List.mem_cons_self⟩)
    · obtain ⟨q', hq', hp⟩ := List.mem_flatMap.1 hp
      exact List.mem_cons_of_mem _ (List.mem_flatMap.2 ⟨q', hq', mem_walkFrom_child hq hp⟩)

theorem mem_walkFrom_mono {j : ℕ} : ∀ {fuel fuel' id : ℕ}, fuel ≤ fuel' →
    j ∈ Circuit.walkFrom w.instances fuel id → j ∈ Circuit.walkFrom w.instances fuel' id
  | fuel + 1, fuel' + 1, id, hle, hj => by
    rcases List.mem_cons.1 hj with rfl | hj
    · exact List.mem_cons_self
    · obtain ⟨q, hq, hj⟩ := List.mem_flatMap.1 hj
      refine List.mem_cons_of_mem _ (List.mem_flatMap.2 ⟨q, hq, ?_⟩)
      exact mem_walkFrom_mono (Nat.le_of_succ_le_succ hle) hj

/-- Where each component hangs in its parent, the walk comes to it before its number of
    levels is used up. -/
theorem Tree.mem_walkFrom (hw : w.Tree)
    (hangs : ∀ id p, (w.instanceAt id).parent = some p →
      ∃ name, (name, id) ∈ (w.instanceAt p).children) (id : ℕ) :
    id < w.instances.size → id ∈ Circuit.walkFrom w.instances (id + 1) 0 := by
  induction id using Nat.strong_induction_on with
  | _ id ih =>
    intro hid
    by_cases h₀ : id = 0
    · rw [h₀]
      exact List.mem_cons_self
    · obtain ⟨p, hlt, hp, -⟩ := hw.parent id hid h₀
      obtain ⟨name, hchild⟩ := hangs id p hp
      exact mem_walkFrom_mono (by omega) (mem_walkFrom_child hchild (ih p hlt (hlt.trans hid)))

theorem Tree.lt_of_mem_walkFrom (hw : w.Tree) {fuel j : ℕ}
    (hj : j ∈ Circuit.walkFrom w.instances fuel 0) : j < w.instances.size := by
  rcases Relation.ReflTransGen.cases_head (hw.above_of_mem_walkFrom hj) with h | ⟨p, hp, -⟩
  · rw [h]
    exact hw.pos
  · exact (hw.parent_lt hp).2

/-- **Where each component hangs in its parent, the walk from the main one comes to
    every component once.** -/
theorem Tree.walk_perm (hw : w.Tree) (hnames : ∀ j, (w.childNames j).Nodup)
    (hangs : ∀ id p, (w.instanceAt id).parent = some p →
      ∃ name, (name, id) ∈ (w.instanceAt p).children) :
    (Circuit.walkFrom w.instances w.instances.size 0).Perm (List.range w.instances.size) := by
  refine (List.perm_ext_iff_of_nodup (hw.nodup_walkFrom hnames _ _) List.nodup_range).2 ?_
  intro id
  rw [List.mem_range]
  constructor
  · exact hw.lt_of_mem_walkFrom
  · intro hid
    exact mem_walkFrom_mono hid (hw.mem_walkFrom hangs id hid)

end

end Workspace

/-! ## Rows -/

section
variable {σ : Type} {settings : Settings} {t : Template σ} {host : σ} {public_ : List String}
  {c : Circuit} {w : Workspace} {id : ℕ} {s : Signal}

namespace Traced

variable (ht : Traced settings t host c w)
include ht

theorem length_constraints : c.system.constraints.length = w.draft.rows.size := by
  obtain ⟨index, -, hrows⟩ := ht.coherent.rows
  rw [← hrows.length_eq, ht.rows.length_eq, Array.length_toList]

/-- A row that a component lists bears its path. -/
theorem origin {k : ℕ} (hk : k ∈ (c.instanceAt id).rows) :
    ∃ r, c.system.constraints[k]? = some r ∧ r.origin = (c.instanceAt id).path := by
  rw [ht.instanceAt] at hk ⊢
  obtain ⟨row, hrow, horigin⟩ := ht.attributed.origin id k hk
  obtain ⟨index, -, hlower⟩ := ht.row
  obtain ⟨st, -, -, r, hr, hlow⟩ := hlower k row hrow
  exact ⟨r, hr, hlow.origin.trans horigin⟩

/-- Every row is listed by one component. -/
theorem listed_once {k : ℕ} (hk : k < c.system.constraints.length) :
    ∃! id, id < c.instances.size ∧ k ∈ (c.instanceAt id).rows := by
  rw [ht.length_constraints] at hk
  obtain ⟨id, hid, hmem⟩ := ht.attributed.noted k hk
  refine ⟨id, ⟨by rwa [ht.instances], by rwa [ht.instanceAt]⟩, ?_⟩
  rintro j ⟨-, hj⟩
  rw [ht.instanceAt] at hj
  exact ht.attributed.unique j id k hj hmem

/-- A component refers to signals of the circuit. -/
theorem referenced_mem_signals (hown : ∀ st ∈ executed settings t host, st.Own c)
    (hs : s ∈ (w.instanceAt id).referenced) : s ∈ c.signals := by
  obtain ⟨k, -, row, hrow, hsrow⟩ := ht.attributed.source id s hs
  obtain ⟨index, -, hlower⟩ := ht.row
  obtain ⟨st, hst, hemits, -⟩ := hlower k row hrow
  obtain ⟨ha, hb, hd⟩ := Circuit.emits_over ht.coherent (hown st hst) hemits
  have hmem := Signal.mem_of_mem_sorted hsrow
  simp only [List.mem_append] at hmem
  rcases hmem with (hmem | hmem) | hmem
  · exact ha.signals s hmem
  · exact hb.signals s hmem
  · exact hd.signals s hmem

/-- **A component refers to the signals that its rows read**, the constant apart. -/
theorem mem_referenced (hown : ∀ st ∈ executed settings t host, st.Own c)
    (hclean : ∀ st ∈ executed settings t host, st.Clean) (hk : s.kind ≠ .one) :
    s ∈ (c.instanceAt id).referenced ↔ s ∈ c.signals ∧ c.Reads id s := by
  rw [ht.instanceAt]
  have huid := (ht.regular.referenced id).2 s.uid
  constructor
  · intro hs
    have hmem := ht.referenced_mem_signals hown hs
    exact ⟨hmem, (ht.reads_iff hown hclean hmem hk).2 (huid.1 (List.mem_map_of_mem hs))⟩
  · rintro ⟨hmem, hreads⟩
    obtain ⟨s', hs', heq⟩ := List.mem_map.1 (huid.2 ((ht.reads_iff hown hclean hmem hk).1 hreads))
    rwa [← ht.coherent.uid s' (ht.referenced_mem_signals hown hs') s hmem heq]

end Traced

/-- **The rows of a circuit are shared out among its components.**  Where siblings have
    distinct names and every component entered was finished, the walk from the main
    component comes to each component once.  Each lists its rows in increasing order,
    every row is listed by one component and bears its path.  Where moreover statements
    speak of the circuit's own signals, each with a nonzero coefficient, a component
    refers to the signals, the constant apart, at which its rows have one. -/
theorem rows_partitioned (h : (compile settings t host public_).result = .ok c)
    (hsiblings : (c.instances.toList.map fun i => (i.parent, i.name)).Nodup)
    (hbuilt : ∀ id < c.instances.size, id ∈ (finished settings t host).map Prod.fst) :
    (Circuit.walkFrom c.instances c.instances.size c.main).Perm (List.range c.instances.size) ∧
    (∀ i ∈ c.walk, i.rows.Pairwise (· < ·)) ∧
    (∀ k < c.system.constraints.length, ∃! id,
      id ∈ Circuit.walkFrom c.instances c.instances.size c.main ∧ k ∈ (c.instanceAt id).rows) ∧
    (∀ id, ∀ k ∈ (c.instanceAt id).rows,
      ∃ r, c.system.constraints[k]? = some r ∧ r.origin = (c.instanceAt id).path) ∧
    ((∀ st ∈ executed settings t host, st.Own c ∧ st.Clean) → ∀ id s, s.kind ≠ .one →
      (s ∈ (c.instanceAt id).referenced ↔ s ∈ c.signals ∧ c.Reads id s)) := by
  obtain ⟨w, ht⟩ := compile_traced h
  have hwalk : (Circuit.walkFrom c.instances c.instances.size c.main).Perm
      (List.range c.instances.size) := by
    rw [ht.main, ht.instances]
    refine ht.regular.tree.walk_perm ht.regular.names ?_
    intro id p hp
    exact ht.hangs hsiblings hbuilt (ht.regular.tree.parent_lt hp).2 hp
  refine ⟨hwalk, ?_, ?_, ?_, ?_⟩
  · intro i hi
    obtain ⟨id, -, rfl⟩ := List.mem_map.1 hi
    change (c.instanceAt id).rows.Pairwise (· < ·)
    rw [ht.instanceAt]
    exact ht.attributed.ascending id
  · intro k hk
    simp only [hwalk.mem_iff, List.mem_range]
    exact ht.listed_once hk
  · intro id k hk
    exact ht.origin hk
  · intro hst id s hs
    exact ht.mem_referenced (fun st h => (hst st h).1) (fun st h => (hst st h).2) hs

end

/-- The fork has three components, which share out its five rows. -/
theorem fork_rows_partitioned :
    ∃ c, (compile { prime := .int 7 } forkTemplate () []).result = .ok c ∧
      (Circuit.walkFrom c.instances c.instances.size c.main).Perm [0, 1, 2] ∧
      (∀ k < 5, ∃! id, id ∈ Circuit.walkFrom c.instances c.instances.size c.main ∧
        k ∈ (c.instanceAt id).rows) ∧
      (c.instanceAt 0).rows = [2, 3, 4] ∧
      ∀ id s, s.kind ≠ .one →
        (s ∈ (c.instanceAt id).referenced ↔ s ∈ c.signals ∧ c.Reads id s) := by
  obtain ⟨c, h, hsiblings, hbuilt, hst, hsize, hlength, hrows⟩ := exists_ok
    (x := (compile { prime := .int 7 } forkTemplate () []).result)
    (P := fun c => (c.instances.toList.map fun i => (i.parent, i.name)).Nodup ∧
      (∀ id < c.instances.size,
        id ∈ (finished { prime := .int 7 } forkTemplate ()).map Prod.fst) ∧
      (∀ st ∈ executed { prime := .int 7 } forkTemplate (), st.Own c ∧ st.Clean) ∧
      c.instances.size = 3 ∧ c.system.constraints.length = 5 ∧
      (c.instanceAt 0).rows = [2, 3, 4])
    (by decide +kernel)
  obtain ⟨hwalk, -, hlisted, -, hreads⟩ := rows_partitioned h hsiblings hbuilt
  rw [hlength] at hlisted
  exact ⟨c, h, hwalk.trans (by rw [hsize]; rfl), hlisted, hrows, hreads hst⟩

/-- Add one to the input. -/
def successorTemplate : Template Unit := ⟨.of "Successor" [], do
  let x ← Build.signal .input "x"
  let o ← Build.signal .output "o"
  Build.assign o ((Expr.ofSignal x).add (← Build.const 1))⟩

/-- A component that was given up keeps its row, which no component of the walk lists,
    and no component refers to the constant that its rows read. -/
theorem given_up_rows_unlisted :
    (∃ c, (compile { prime := .int 97 } (passing (attempt "b" twiceTemplate)) () []).result =
        .ok c ∧
      (c.instances.toList.map fun i => (i.parent, i.name)).Nodup ∧
      (∀ st ∈ executed { prime := .int 97 } (passing (attempt "b" twiceTemplate)) (),
        st.Own c ∧ st.Clean) ∧
      0 < c.system.constraints.length ∧
      ∀ id ∈ Circuit.walkFrom c.instances c.instances.size c.main,
        0 ∉ (c.instanceAt id).rows) ∧
    ∃ c, (compile { prime := .int 97 } successorTemplate () []).result = .ok c ∧
      (c.instances.toList.map fun i => (i.parent, i.name)).Nodup ∧
      (∀ id < c.instances.size,
        id ∈ (finished { prime := .int 97 } successorTemplate ()).map Prod.fst) ∧
      (∀ st ∈ executed { prime := .int 97 } successorTemplate (), st.Own c ∧ st.Clean) ∧
      Workspace.one c.field ∈ c.signals ∧ c.Reads c.main (Workspace.one c.field) ∧
      Workspace.one c.field ∉ (c.instanceAt c.main).referenced :=
  ⟨exists_ok (by decide +kernel), exists_ok (by decide +kernel)⟩

end RankOne
