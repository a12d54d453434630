/-
  RankOne — the report of dangling outputs is exact.

  * `Workspace.Regular`, `compile_traced`: what is known of the workspaces at the ends of
    the builds, and of the one that a circuit is made of;
  * `Finish.child`, `Finish.referenced`: what a component shows at the end of its build
    is what the circuit keeps of it;
  * `Circuit.Reads`, `Circuit.Unread`: a row of a component reads a signal, and an output
    that no row of the parent reads;
  * `dangling_outputs_exact`: the report lists these outputs.
-/
import RankOne.Proofs.Build.Attribution
import RankOne.Proofs.Circuit.Instances
import RankOne.Proofs.Circuit.Reads
import RankOne.Proofs.Circuit.Strict

namespace RankOne

namespace Workspace

/-! ## Ends of builds -/

/-- What holds of every workspace on the way to a circuit. -/
structure Regular (w : Workspace) : Prop where
  sound : w.Sound
  tree : w.Tree
  listed : w.Listed
  apart : w.Apart
  referenced : w.Referenced
  names : ∀ j, (w.childNames j).Nodup

theorem Run.regular {S A : Set ℕ} {w w' : Workspace} {sts : List Statement}
    (h : Run S A w sts w') (hw : w.Regular) : w'.Regular where
  sound := h.sound hw.sound
  tree := h.tree hw.tree
  listed := h.listed hw.sound hw.listed
  apart := h.apart hw.sound hw.apart
  referenced := h.referenced hw.referenced
  names := h.nodup_childNames hw.names

theorem opened_regular {σ : Type} (t : Template σ) (field : PrimeField) (policy : DanglingPolicy) :
    (t.opened field policy).Regular where
  sound := opened_sound t field policy
  tree := opened_tree t field policy
  listed := opened_listed t field policy
  apart := opened_apart t field policy
  referenced := opened_referenced t field policy
  names := opened_childNames t field policy

/-- The outputs of children that no row of the component refers to. -/
def danglingSignals (w : Workspace) (id : ℕ) : List Signal :=
  ((w.instanceAt id).children.flatMap fun q => (w.instanceAt q.2).outputs).filter fun s =>
    !(w.instanceAt id).referenced.any (·.same s)

section
variable {w : Workspace} {id : ℕ} {s : Signal}

theorem danglingOutputs_eq (w : Workspace) (id : ℕ) :
    w.danglingOutputs id = (w.danglingSignals id).map (·.path) := by
  rw [danglingOutputs, danglingSignals]
  induction (w.instanceAt id).children.flatMap fun q => (w.instanceAt q.2).outputs with
  | nil => rfl
  | cons s ss ih =>
    rw [List.filterMap_cons, List.filter_cons]
    cases (w.instanceAt id).referenced.any (·.same s)
    · simp only [Bool.false_eq_true, if_false, Bool.not_false, if_true, List.map_cons, ih]
    · simp only [if_true, Bool.not_true, Bool.false_eq_true, if_false, ih]

theorem mem_danglingSignals : s ∈ w.danglingSignals id ↔
    (∃ q ∈ (w.instanceAt id).children, s ∈ (w.instanceAt q.2).outputs) ∧
      s.uid ∉ (w.instanceAt id).referenced.map (·.uid) := by
  rw [danglingSignals, List.mem_filter, List.mem_flatMap]
  refine and_congr_right fun _ => ?_
  simp only [Bool.not_eq_true', List.any_eq_false, Signal.same_iff, List.mem_map, not_exists,
    not_and]

theorem declares_of_outputs (h : s ∈ (w.instanceAt id).outputs) : w.Declares id s := by
  obtain ⟨d, hd, hs⟩ := List.mem_flatMap.1 h
  exact ⟨d, List.mem_of_mem_filter hd, hs⟩

/-- No output dangles twice. -/
theorem Regular.nodup_danglingSignals (hw : w.Regular) (id : ℕ) :
    (w.danglingSignals id).Nodup := by
  refine List.Nodup.filter _ (List.nodup_flatMap.2 ⟨fun q _ => ?_, ?_⟩)
  · exact nodup_of_ascending ((hw.listed q.2).ascending.sublist (List.filter_sublist.flatMap _))
  · have hnames : (w.instanceAt id).children.Pairwise (fun q q' => q.1 ≠ q'.1) :=
      List.pairwise_map.1 (hw.names id)
    refine hnames.imp_of_mem fun {q q'} hq hq' hne s hs hs' => hne ?_
    have heq := hw.apart _ _ s (declares_of_outputs hs) (declares_of_outputs hs')
    rw [← (hw.tree.children id q hq).name, ← (hw.tree.children id q' hq').name, heq]

end

end Workspace

section
variable {id : ℕ} {w₀ v w : Workspace}

theorem Finish.frame (hf : Finish id w₀ v w) {j : ℕ} (hid : id ≤ j) (hj : j < v.instances.size) :
    (w.instanceAt j).declarations = (v.instanceAt j).declarations ∧
      (w.instanceAt j).rows = (v.instanceAt j).rows := by
  obtain ⟨sts, hafter⟩ := hf.after
  refine hafter.frame hj ?_
  rintro (hlt | hle) <;> omega

/-- A component that hangs in a finished one keeps its outputs and its seat. -/
theorem Finish.child (hf : Finish id w₀ v w) (ht : v.Tree) {q : String × ℕ}
    (hq : q ∈ (v.instanceAt id).children) :
    (w.instanceAt q.2).outputs = (v.instanceAt q.2).outputs ∧ w.Entered id q.1 q.2 := by
  have he := ht.children id q hq
  obtain ⟨sts, hafter⟩ := hf.after
  have hframe := (hf.frame (ht.of_entered he).1.le he.lt).1
  refine ⟨?_, hafter.entered he⟩
  rw [Instance.outputs, Instance.outputs, Instance.withRole, Instance.withRole, hframe]

/-- A finished component refers to the signals of its rows. -/
theorem Finish.referenced (hf : Finish id w₀ v w) (hv : v.Referenced) (u : ℤ) :
    u ∈ (v.instanceAt id).referenced.map (·.uid) ↔
      ∃ k ∈ (w.instanceAt id).rows, ∃ row, w.draft.rows[k]? = some row ∧
        u ∈ row.signals.map (·.uid) := by
  obtain ⟨sts, hafter⟩ := hf.after
  rw [(hv id).2, (hf.frame le_rfl hf.lt).2]
  refine exists_congr fun k => and_congr_right fun hk => ?_
  rw [hafter.row? ((hv id).1 k hk)]

end

/-! ## Circuits -/

/-- A row of the component has a nonzero coefficient at a signal. -/
def Circuit.Reads (c : Circuit) (id : ℕ) (s : Signal) : Prop :=
  ∃ k ∈ (c.instanceAt id).rows, ∃ r ∈ c.system.constraints[k]?,
    r.Reads c.system.prime (c.place s)

instance (c : Circuit) (id : ℕ) (s : Signal) : Decidable (c.Reads id s) :=
  inferInstanceAs (Decidable (∃ k ∈ (c.instanceAt id).rows, ∃ r ∈ c.system.constraints[k]?,
    r.Reads c.system.prime (c.place s)))

/-- An output of a component that no row of its parent reads. -/
def Circuit.Unread (c : Circuit) (s : Signal) : Prop :=
  ∃ id p, (c.instanceAt id).parent = some p ∧ s ∈ (c.instanceAt id).outputs ∧ ¬ c.Reads p s

/-- A circuit and the workspace that it was made of, after the ends of all builds. -/
structure Traced {σ : Type} (settings : Settings) (t : Template σ) (host : σ) (c : Circuit)
    (w : Workspace) : Prop where
  coherent : c.Coherent (executed settings t host)
  regular : w.Regular
  attributed : w.Attributed
  instances : c.instances = w.instances
  main : c.main = 0
  /-- the main component was built, and then only checked -/
  built : ∃ field w₁ host', Program.run t.body.run 0 (t.opened field settings.dangling, host) =
    (.ok (), (w₁, host')) ∧ Workspace.Still w₁ w ∧ Workspace.Run {0} ∅ w₁ [] w
  signals : ∀ s, s ∈ c.signals ↔ s ∈ w.signals
  rows : List.Forall₂ Statement.Emits ((executed settings t host).filter Statement.emitsRow)
    w.draft.rows.toList
  finish : ∀ q ∈ finished settings t host, q.2.Regular ∧ ∃ w₀, Finish q.1 w₀ q.2 w
  once : ((finished settings t host).map Prod.fst).Nodup

section
variable {σ : Type} {settings : Settings} {t : Template σ} {host : σ} {public_ : List String}
  {c : Circuit} {w : Workspace} {id : ℕ} {s : Signal}

theorem compile_traced (h : (compile settings t host public_).result = .ok c) :
    ∃ w, Traced settings t host c w := by
  obtain ⟨field, w, host', hf, hx, hc, hfin⟩ := compile_finish h
  have hrun := (expand_spec hf hx).any
  have hopen := Workspace.opened_regular t field settings.dangling
  have hw := hrun.regular hopen
  obtain ⟨-, -, hmain, hsignals⟩ := Circuit.of_workspace hw.sound hc
  obtain ⟨-, w₁, hbuilt, hstill, hclose⟩ := Template.expand_eq_ok hx
  refine ⟨w, compile_coherent h, hw, expand_attributed hx, Circuit.instances_of_workspace hc,
    hmain, ⟨field, w₁, host', hbuilt, hstill, hclose 0⟩, hsignals, ?_, fun q hq => ?_,
    nodup_finished settings t host⟩
  · obtain ⟨rows, hrows, hemits⟩ := hrun.rows
    rw [hrows]
    exact hemits
  · obtain ⟨sts, hbefore⟩ := (hfin q hq).before
    exact ⟨hbefore.regular hopen, _, hfin q hq⟩

namespace Traced

theorem instanceAt (ht : Traced settings t host c w) (id : ℕ) :
    c.instanceAt id = w.instanceAt id := by
  rw [Circuit.instanceAt, ht.instances]; rfl

theorem output (ht : Traced settings t host c w) (hs : s ∈ (w.instanceAt id).outputs) :
    s ∈ c.signals ∧ s.kind ≠ .one := by
  obtain ⟨d, hd, hsd⟩ := Workspace.declares_of_outputs hs
  obtain ⟨hmem, hkind, -⟩ := ht.regular.sound.declared id d hd s hsd
  exact ⟨(ht.signals s).2 hmem, by rw [hkind]; simp⟩

/-- A row of the draft and the row of the circuit at its position come from one
    statement. -/
theorem row (ht : Traced settings t host c w) : ∃ index : Signal → Except Error Int,
    (∀ s ∈ c.signals, index s = .ok (c.place s : Int)) ∧
    ∀ (k : ℕ) (row : Row), w.draft.rows[k]? = some row →
      ∃ st ∈ executed settings t host, st.Emits row ∧
        ∃ r, c.system.constraints[k]? = some r ∧ Constraint.Lowers index row r := by
  obtain ⟨index, hi, hrows⟩ := ht.coherent.rows
  refine ⟨index, hi, fun k row hk => ?_⟩
  rw [← Array.getElem?_toList] at hk
  obtain ⟨st, hst, hemits⟩ := forall₂_getElem? ht.rows hk
  obtain ⟨r, hr, row', hemits', hlow⟩ := forall₂_getElem? hrows.flip hst
  obtain rfl := hemits'.unique hemits
  exact ⟨st, List.mem_of_mem_filter (List.mem_of_getElem? hst), hemits, r, hr, hlow⟩

section
variable (ht : Traced settings t host c w) (hown : ∀ st ∈ executed settings t host, st.Own c)
  (hclean : ∀ st ∈ executed settings t host, st.Clean)
include ht hown hclean

/-- **A component reads the signals of its rows.** -/
theorem reads_iff (hs : s ∈ c.signals) (hk : s.kind ≠ .one) : c.Reads id s ↔
    ∃ k ∈ (w.instanceAt id).rows, ∃ row, w.draft.rows[k]? = some row ∧
      s.uid ∈ row.signals.map (·.uid) := by
  obtain ⟨index, hi, hrow⟩ := ht.row
  rw [Circuit.Reads, ht.instanceAt]
  refine exists_congr fun k => and_congr_right fun hmem => ?_
  have hlt := (ht.regular.referenced id).1 k hmem
  obtain ⟨st, hst, hemits, r, hr, hlow⟩ := hrow k _ (Array.getElem?_eq_getElem hlt)
  obtain ⟨hterm, hread⟩ :=
    ht.coherent.reads_iff hi (hown st hst) (hclean st hst) hemits hlow hs hk
  rw [hr, Array.getElem?_eq_getElem hlt, ht.coherent.prime]
  simp only [Option.mem_def, Option.some.injEq, exists_eq_left']
  refine ⟨fun ⟨l, hl, u, hu, hup, _⟩ => hterm ⟨l, hl, u, hu, hup⟩, hread⟩

/-- A row of a component that does not read a signal does not hang on it. -/
theorem insensitive (hs : s ∈ c.signals) (hk : s.kind ≠ .one) (hread : ¬ c.Reads id s) {k : ℕ}
    (hmem : k ∈ (c.instanceAt id).rows) {r : Constraint} (hr : c.system.constraints[k]? = some r)
    (v : Array Int) (x : Int) :
    r.isSatisfied (v.setIfInBounds (c.place s) x) c.system.prime =
      r.isSatisfied v c.system.prime := by
  obtain ⟨index, hi, hrow⟩ := ht.row
  have hlt := (ht.regular.referenced id).1 k (ht.instanceAt id ▸ hmem)
  obtain ⟨st, hst, hemits, r', hr', hlow⟩ := hrow k _ (Array.getElem?_eq_getElem hlt)
  obtain rfl : r = r' := Option.some.inj (hr.symm.trans hr')
  obtain ⟨hterm, hlist⟩ :=
    ht.coherent.reads_iff hi (hown st hst) (hclean st hst) hemits hlow hs hk
  obtain ⟨ha, hb, hd⟩ := Circuit.emits_over ht.coherent (hown st hst) hemits
  refine Constraint.isSatisfied_set (fun l hl u hu => ⟨?_, fun hup => hread ?_⟩) v x _
  · simp only [Constraint.sides, List.mem_cons, List.not_mem_nil, or_false] at hl
    rcases hl with rfl | rfl | rfl
    · exact (ht.coherent.below hi hlow.a ha u hu).1
    · exact (ht.coherent.below hi hlow.b hb u hu).1
    · exact (ht.coherent.below hi hlow.c hd u hu).1
  · refine ⟨k, hmem, r, hr, ?_⟩
    rw [ht.coherent.prime]
    exact hlist (hterm ⟨l, hl, u, hu, hup⟩)

/-- What dangled at the end of a build is what the rows of the circuit do not read. -/
theorem mem_danglingSignals {q : ℕ × Workspace} (hq : q ∈ finished settings t host) :
    s ∈ q.2.danglingSignals q.1 ↔
      (∃ child ∈ (q.2.instanceAt q.1).children, s ∈ (c.instanceAt child.2).outputs) ∧
        ¬ c.Reads q.1 s := by
  obtain ⟨hregular, w₀, hf⟩ := ht.finish q hq
  have hkept : (∃ child ∈ (q.2.instanceAt q.1).children, s ∈ (q.2.instanceAt child.2).outputs) ↔
      ∃ child ∈ (q.2.instanceAt q.1).children, s ∈ (c.instanceAt child.2).outputs :=
    exists_congr fun child => and_congr_right fun hchild => by
      rw [ht.instanceAt, (hf.child hregular.tree hchild).1]
  rw [Workspace.mem_danglingSignals, hkept]
  refine and_congr_right fun ⟨child, _, hs⟩ => not_congr ?_
  rw [ht.instanceAt] at hs
  obtain ⟨hmem, hk⟩ := ht.output hs
  rw [hf.referenced hregular.referenced, ht.reads_iff hown hclean hmem hk]

end

/-- No output dangles at the ends of two builds. -/
theorem nodup_dangling (ht : Traced settings t host c w) :
    ((finished settings t host).flatMap fun q => q.2.danglingSignals q.1).Nodup := by
  have hchild {q : ℕ × Workspace} {s : Signal} (hq : q ∈ finished settings t host)
      (hs : s ∈ q.2.danglingSignals q.1) :
      ∃ name child, w.Entered q.1 name child ∧ w.Declares child s := by
    obtain ⟨hregular, w₀, hf⟩ := ht.finish q hq
    obtain ⟨⟨child, hmem, hout⟩, -⟩ := Workspace.mem_danglingSignals.1 hs
    obtain ⟨hkept, he⟩ := hf.child hregular.tree hmem
    exact ⟨child.1, child.2, he, Workspace.declares_of_outputs (hkept ▸ hout)⟩
  refine List.nodup_flatMap.2 ⟨fun q hq => (ht.finish q hq).1.nodup_danglingSignals q.1, ?_⟩
  refine (List.pairwise_map.1 ht.once).imp_of_mem fun {q q'} hq hq' hne s hs hs' => hne ?_
  obtain ⟨name, child, he, hd⟩ := hchild hq hs
  obtain ⟨name', child', he', hd'⟩ := hchild hq' hs'
  obtain rfl := ht.regular.apart _ _ s hd hd'
  exact Option.some.inj (he.parent.symm.trans he'.parent)

/-- Where siblings have distinct names and every build was finished, a component hangs in
    its parent. -/
theorem hangs (ht : Traced settings t host c w)
    (hsiblings : (c.instances.toList.map fun i => (i.parent, i.name)).Nodup)
    (hbuilt : ∀ id < c.instances.size, id ∈ (finished settings t host).map Prod.fst) {p : ℕ}
    (hid : id < w.instances.size) (hp : (w.instanceAt id).parent = some p) :
    ∃ name, (name, id) ∈ (w.instanceAt p).children := by
  rw [ht.instances] at hsiblings hbuilt
  obtain ⟨q, hq, rfl⟩ := List.mem_map.1 (hbuilt id hid)
  obtain ⟨-, w₀, hf⟩ := ht.finish q hq
  obtain ⟨child, hchild, hname⟩ := List.mem_map.1 (hf.hung p hp)
  -- the entry of the parent's table under the name is the component itself
  have he := ht.regular.tree.children p child hchild
  have hsame : child.2 = q.1 := by
    refine Workspace.eq_of_instance_eq hsiblings he.lt hid ?_
    rw [he.parent, hp, he.name, hname]
  exact ⟨child.1, hsame ▸ hchild⟩

/-- Where siblings have distinct names, every build was finished and no component was
    placed later, the children at the end of a build are all components below. -/
theorem unread_iff (ht : Traced settings t host c w)
    (hsiblings : (c.instances.toList.map fun i => (i.parent, i.name)).Nodup)
    (hbuilt : ∀ id < c.instances.size, id ∈ (finished settings t host).map Prod.fst)
    (hlate : ∀ q ∈ finished settings t host,
      (q.2.instanceAt q.1).children = (c.instanceAt q.1).children) :
    c.Unread s ↔ ∃ q ∈ finished settings t host,
      (∃ child ∈ (q.2.instanceAt q.1).children, s ∈ (c.instanceAt child.2).outputs) ∧
        ¬ c.Reads q.1 s := by
  constructor
  · rintro ⟨id, p, hp, hs, hread⟩
    rw [ht.instanceAt] at hp
    have hid : id < w.instances.size := by
      by_contra hle
      rw [Workspace.instanceAt_of_le (not_lt.1 hle)] at hp
      cases hp
    obtain ⟨hlt, -⟩ := ht.regular.tree.of_entered ⟨hid, hp, rfl⟩
    obtain ⟨name, hchild⟩ := ht.hangs hsiblings hbuilt hid hp
    rw [ht.instances] at hbuilt
    obtain ⟨q, hq, rfl⟩ := List.mem_map.1 (hbuilt p (hlt.trans hid))
    refine ⟨q, hq, ⟨(name, id), ?_, hs⟩, hread⟩
    rw [hlate q hq, ht.instanceAt]
    exact hchild
  · rintro ⟨q, hq, ⟨child, hchild, hs⟩, hread⟩
    obtain ⟨hregular, w₀, hf⟩ := ht.finish q hq
    have he := (hf.child hregular.tree hchild).2
    exact ⟨child.2, q.1, by rw [ht.instanceAt, he.parent], hs, hread⟩

end Traced

/-- **The report of dangling outputs is exact.**  Without repetition, it lists the
    outputs of the children at the end of a build that no row of the component reads.
    Where siblings have distinct names, every component entered was finished and none
    was placed into a finished one, these are the outputs of all components that the
    parent does not read.  No row of the parent hangs on such an output.  Where dangling
    outputs are errors, the circuit is the same if there are none, and an error if there
    are some and no build catches it. -/
theorem dangling_outputs_exact (h : (compile settings t host public_).result = .ok c)
    (hwarn : settings.dangling = .warn)
    (hown : ∀ st ∈ executed settings t host, st.Own c)
    (hclean : ∀ st ∈ executed settings t host, st.Clean) :
    (∃ ss : List Signal, ss.Nodup ∧ c.dangling = ss.map (·.path) ∧
      (∀ s, s ∈ ss ↔ ∃ q ∈ finished settings t host,
        (∃ child ∈ (q.2.instanceAt q.1).children, s ∈ (c.instanceAt child.2).outputs) ∧
          ¬ c.Reads q.1 s) ∧
      ((c.instances.toList.map fun i => (i.parent, i.name)).Nodup →
        (∀ id < c.instances.size, id ∈ (finished settings t host).map Prod.fst) →
        (∀ q ∈ finished settings t host,
          (q.2.instanceAt q.1).children = (c.instanceAt q.1).children) →
        ∀ s, s ∈ ss ↔ c.Unread s)) ∧
    (∀ id p s, (c.instanceAt id).parent = some p → s ∈ (c.instanceAt id).outputs →
      ¬ c.Reads p s → ∀ k ∈ (c.instanceAt p).rows, ∀ r, c.system.constraints[k]? = some r →
        ∀ (v : Array Int) (x : Int),
          r.isSatisfied (v.setIfInBounds (c.place s) x) c.system.prime =
            r.isSatisfied v c.system.prime) ∧
    (c.dangling = [] → (compile settings.strict t host public_).result =
      .ok { c with settings := settings.strict }) ∧
    (Build.Relays t.body → c.dangling ≠ [] → ∃ e : Error,
      (compile settings.strict t host public_).result = .error e ∧ e.kind = .dangling) := by
  obtain ⟨w, ht⟩ := compile_traced h
  have hmem (s : Signal) :
      (s ∈ (finished settings t host).flatMap fun q => q.2.danglingSignals q.1) ↔
        ∃ q ∈ finished settings t host,
          (∃ child ∈ (q.2.instanceAt q.1).children, s ∈ (c.instanceAt child.2).outputs) ∧
            ¬ c.Reads q.1 s := by
    rw [List.mem_flatMap]
    exact exists_congr fun q => and_congr_right (ht.mem_danglingSignals hown hclean)
  refine ⟨⟨_, ht.nodup_dangling, ?_, hmem, fun hsiblings hbuilt hlate s => ?_⟩, ?_,
    compile_strict h hwarn, fun hrelays hne => compile_relays h hwarn hne hrelays⟩
  · rw [compile_dangling h hwarn, Workspace.reports, List.map_flatMap]
    exact List.flatMap_congr fun q _ => q.2.danglingOutputs_eq q.1
  · rw [hmem, ht.unread_iff hsiblings hbuilt hlate]
  · intro id p s _ hs hread k hk r hr v x
    rw [ht.instanceAt] at hs
    obtain ⟨hsig, hkind⟩ := ht.output hs
    exact ht.insensitive hown hclean hsig hkind hread hk hr v x

end

/-! ## Two children, one of them idle -/

section
open Build

/-- Hand the input on. -/
def copy : Build Unit Unit := do
  let x ← signal .input "in"
  let y ← signal .output "out"
  assign y (.ofSignal x)

/-- The template of the copy. -/
def copyTemplate : Template Unit := ⟨.of "Copy" [], copy⟩

/-- Two copies of the input, of which one is handed on. -/
def fork : Build Unit Unit := do
  let x ← signal .input "x"
  let y ← signal .output "y"
  let used ← component "used" copyTemplate
  let idle ← component "idle" copyTemplate
  assign (← terminalSignal used "in") (.ofSignal x)
  assign (← terminalSignal idle "in") (.ofSignal x)
  assign y (.ofSignal (← terminalSignal used "out"))

/-- The template of the fork. -/
def forkTemplate : Template Unit := ⟨.of "Fork" [], fork⟩

theorem relays_copy : Relays copy :=
  (relays_signal _ _).bind fun _ => (relays_signal _ _).bind fun _ => relays_request _

theorem relays_fork : Relays fork := by
  refine (relays_signal _ _).bind fun x => (relays_signal _ _).bind fun y => ?_
  refine (relays_place _ relays_copy).bind fun used => ?_
  refine (relays_place _ relays_copy).bind fun idle => ?_
  refine (relays_terminalSignal _ _).bind fun _ => (relays_request _).bind fun _ => ?_
  refine (relays_terminalSignal _ _).bind fun _ => (relays_request _).bind fun _ => ?_
  exact (relays_terminalSignal _ _).bind fun _ => relays_request _

end

/-- The output of the idle copy is all that the fork leaves unread, and an error where
    dangling outputs are errors. -/
theorem fork_dangling_exact :
    ∃ c, (compile { prime := .int 7 } forkTemplate () []).result = .ok c ∧
      c.dangling = ["main.idle.out"] ∧ (∀ s, c.Unread s → s.path = "main.idle.out") ∧
      (∃ s, c.Unread s) ∧ ∃ e : Error,
        (compile (Settings.strict { prime := .int 7 }) forkTemplate () []).result = .error e ∧
          e.kind = .dangling := by
  obtain ⟨c, h, hown, hclean, hsiblings, hbuilt, hlate, hd⟩ := exists_ok
    (x := (compile { prime := .int 7 } forkTemplate () []).result)
    (P := fun c => (∀ st ∈ executed { prime := .int 7 } forkTemplate (), st.Own c) ∧
      (∀ st ∈ executed { prime := .int 7 } forkTemplate (), st.Clean) ∧
      (c.instances.toList.map fun i => (i.parent, i.name)).Nodup ∧
      (∀ id < c.instances.size,
        id ∈ (finished { prime := .int 7 } forkTemplate ()).map Prod.fst) ∧
      (∀ q ∈ finished { prime := .int 7 } forkTemplate (),
        (q.2.instanceAt q.1).children = (c.instanceAt q.1).children) ∧
      c.dangling = ["main.idle.out"])
    (by decide +kernel)
  obtain ⟨⟨ss, -, hlist, -, hunread⟩, -, -, herror⟩ := dangling_outputs_exact h rfl hown hclean
  have hiff := hunread hsiblings hbuilt hlate
  rw [hd] at hlist
  refine ⟨c, h, hd, fun s hs => ?_, ?_, herror relays_fork (by rw [hd]; simp)⟩
  · have hmem : s.path ∈ ["main.idle.out"] := by
      rw [hlist]
      exact List.mem_map.2 ⟨s, (hiff s).2 hs, rfl⟩
    exact List.mem_singleton.1 hmem
  · cases ss with
    | nil => cases hlist
    | cons s ss => exact ⟨s, (hiff s).1 List.mem_cons_self⟩

/-! ## Builds that catch errors, and places that are filled late -/

section
open Build

variable {σ : Type}

/-- A component with the constant output 3. -/
def three : Build σ Unit := do
  let o ← signal .output "o"
  assign o (← const 3)

/-- The template of the constant. -/
def threeTemplate : Template σ := ⟨.of "Three" [], three⟩

/-- A component that declares its output twice, which is refused. -/
def twiceTemplate : Template σ := ⟨.of "Twice" [], do
  three
  discard (signal .output "o")⟩

/-- Hand the input of the main component on, after some other work. -/
def passing (work : Build σ Unit) : Template σ := ⟨.of "Passing" [], do
  let x ← signal .input "x"
  let out ← signal .output "out"
  work
  assign out (.ofSignal x)⟩

/-- Place a component, and go on if it is refused. -/
def attempt (name : String) (t : Template σ) : Build σ Unit :=
  tryCatch (discard (component name t)) fun _ => pure ()

/-- A component that leaves the output of its child unread. -/
def careless : Template σ := ⟨.of "Careless" [], discard (component "c" threeTemplate)⟩

/-- A component that shows its places to all. -/
def shelf : Template (Option SlotArray) := ⟨.of "Shelf" [], do
  setHost (some (← slots "arr" (.int 1)))⟩

/-- Fill a place of a component that is finished. -/
def lateWork : Build (Option SlotArray) Unit := do
  discard (component "y" shelf)
  match ← getHost with
  | some a => discard (fill a 0 threeTemplate)
  | none => pure ()

end

/-- The outputs of a component that was given up and of one that was placed into a
    finished component are not reported, and a build that catches the error of a dangling
    output hides it. -/
theorem lenient_builds_hide_outputs :
    (∃ c, (compile { prime := .int 97 } (passing lateWork) none []).result = .ok c ∧
      (c.instances.toList.map fun i => (i.parent, i.name)).Nodup ∧ c.dangling = [] ∧
      ∃ s, c.Unread s) ∧
    (∃ c, (compile { prime := .int 97 } (passing (attempt "b" twiceTemplate)) () []).result =
        .ok c ∧
      (c.instances.toList.map fun i => (i.parent, i.name)).Nodup ∧ c.dangling = [] ∧
      ∃ s, c.Unread s) ∧
    (∃ c, (compile { prime := .int 97 } (passing (attempt "m" careless)) () []).result = .ok c ∧
      (c.instances.toList.map fun i => (i.parent, i.name)).Nodup ∧ c.dangling = ["main.m.c.o"]) ∧
    ∃ c, (compile (Settings.strict { prime := .int 97 }) (passing (attempt "m" careless)) ()
      []).result = .ok c := by
  refine ⟨?_, ?_, exists_ok (by decide +kernel), ?_⟩
  · obtain ⟨c, h, hsiblings, hd, hparent, s, hs, hread⟩ := exists_ok
      (x := (compile { prime := .int 97 } (passing lateWork) none []).result)
      (P := fun c => (c.instances.toList.map fun i => (i.parent, i.name)).Nodup ∧
        c.dangling = [] ∧ (c.instanceAt 2).parent = some 1 ∧
        ∃ s ∈ (c.instanceAt 2).outputs, ¬ c.Reads 1 s) (by decide +kernel)
    exact ⟨c, h, hsiblings, hd, s, 2, 1, hparent, hs, hread⟩
  · obtain ⟨c, h, hsiblings, hd, hparent, s, hs, hread⟩ := exists_ok
      (x := (compile { prime := .int 97 } (passing (attempt "b" twiceTemplate)) () []).result)
      (P := fun c => (c.instances.toList.map fun i => (i.parent, i.name)).Nodup ∧
        c.dangling = [] ∧ (c.instanceAt 1).parent = some 0 ∧
        ∃ s ∈ (c.instanceAt 1).outputs, ¬ c.Reads 0 s) (by decide +kernel)
    exact ⟨c, h, hsiblings, hd, s, 1, 0, hparent, hs, hread⟩
  · obtain ⟨c, h, -⟩ := exists_ok
      (x := (compile (Settings.strict { prime := .int 97 }) (passing (attempt "m" careless)) ()
        []).result) (P := fun c => c.dangling = []) (by decide +kernel)
    exact ⟨c, h⟩

end RankOne
