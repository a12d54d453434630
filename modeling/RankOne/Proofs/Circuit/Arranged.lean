/-
  RankOne — the order of the witness.

  * `declaredSignals`: the signals of a compilation, in order of declaration;
  * `Circuit.Arranged`: the positions are those of the signals in the order of the
    constant, the main outputs, the public inputs, the private inputs, and all
    others, each block in order of declaration but the public one, which follows
    its list of names;
  * `compile_arranged`: every compiled circuit is arranged so.
-/
import RankOne.Proofs.Build.Declared
import RankOne.Proofs.Circuit.Coherent

namespace RankOne

/-- The signals of a compilation in order of declaration, the constant first. -/
def declaredSignals {σ : Type} (settings : Settings) (t : Template σ) (host : σ) : List Signal :=
  match settings.field with
  | .error _ => []
  | .ok field => (t.expand (.start field settings.dangling, host)).2.1.signals.toList

namespace Circuit

/-! ## Blocks -/

/-- The signals of the public inputs, in the order of their list. -/
def publicSignals (c : Circuit) : List Signal :=
  c.publicInputs.flatMap (inputSignals c.mainInstance)

/-- The main outputs among some signals. -/
def outputsOf (ss : List Signal) : List Signal := ss.filter (isMain .output)

/-- The main inputs among some signals that are not public. -/
def privatesOf (c : Circuit) (ss : List Signal) : List Signal :=
  ss.filter fun s => isMain .input s && !c.publicSignals.contains s

/-- The signals that are neither the constant nor a main output or input. -/
def othersOf (ss : List Signal) : List Signal :=
  ss.filter fun s => s.kind != .one && !isMain .output s && !isMain .input s

/-- **The signals `ss`, given in order of declaration, are arranged in a circuit.** -/
structure Arranged (c : Circuit) (ss : List Signal) : Prop where
  /-- the number of a signal counts the signals declared before it -/
  numbered : ∀ (i : ℕ) (s : Signal), ss[i]? = some s → s.uid = i
  bijective : Set.BijOn c.place {s | s ∈ ss} (Set.Iio c.system.signals)
  size : c.signals.size = c.system.signals
  place : ∀ i s, c.signals[i]? = some s → c.place s = i
  order : c.signals.toList = Workspace.one c.field ::
    (outputsOf ss ++ c.publicSignals ++ c.privatesOf ss ++ othersOf ss)
  /-- the main component lists its signals in order of declaration -/
  listed : ∀ role, ss.filter (isMain role) = (c.mainInstance.withRole role).flatMap (·.bus.flat)
  rows : ∀ d ∈ c.mainInstance.declarations,
    d.bus.flat.map (·.path) = rowMajor d.bus.shape s!"main.{d.name}"
  names : (c.mainInstance.declarations.map (·.name)).Nodup
  /-- a public name is the name of an input -/
  publics : ∀ n ∈ c.publicInputs, ∃ d ∈ c.mainInstance.withRole .input,
    d.name = n ∧ inputSignals c.mainInstance n = d.bus.flat
  outputCount : c.system.outputs = (outputsOf ss).length
  publicCount : c.system.publicInputs = c.publicSignals.length
  privateCount : c.system.privateInputs = (c.privatesOf ss).length

section
variable {w : Workspace} {public_ : List String}

/-- Lists of the same signals in order of declaration are equal. -/
theorem eq_of_ascending {xs ys : List Signal} (hx : xs.Pairwise (·.uid < ·.uid))
    (hy : ys.Pairwise (·.uid < ·.uid)) (h : ∀ s, s ∈ xs ↔ s ∈ ys) : xs = ys := by
  have hperm : xs.Perm ys :=
    (List.perm_ext_iff_of_nodup (nodup_of_ascending hx) (nodup_of_ascending hy)).2 h
  exact hperm.eq_of_pairwise (fun s t _ _ hst hts => absurd hst hts.not_gt) hx hy

/-- The signals of the main component in a role, in order of declaration. -/
theorem filter_isMain (hs : w.Sound) (hl : w.Listed) (role : Role) :
    w.signals.toList.filter (isMain role) =
      ((w.instanceAt 0).withRole role).flatMap (·.bus.flat) := by
  refine eq_of_ascending (hs.numbered.pairwise.filter _)
    ((hl 0).ascending.sublist (List.filter_sublist.flatMap _)) fun s => ?_
  rw [mem_withRole_main hs, List.mem_filter, Array.mem_toList_iff]

/-- The input of a name is the one declared under it. -/
theorem inputSignals_name (hl : w.Listed) {d : Declaration}
    (hd : d ∈ (w.instanceAt 0).withRole .input) :
    inputSignals (w.instanceAt 0) d.name = d.bus.flat := by
  have hnodup : (((w.instanceAt 0).withRole .input).map (·.name)).Nodup :=
    (hl 0).names.sublist (List.filter_sublist.map _)
  rw [inputSignals, find?_of_nodup hnodup hd]

section
variable (hs : w.Sound) (hl : w.Listed)
  (hp : ∀ n ∈ public_, ∃ d ∈ (w.instanceAt 0).withRole .input, d.name = n)
include hl hp

theorem mem_publics {s : Signal} :
    s ∈ public_.flatMap (inputSignals (w.instanceAt 0)) ↔
      ∃ d ∈ (w.instanceAt 0).withRole .input, d.name ∈ public_ ∧ s ∈ d.bus.flat := by
  rw [List.mem_flatMap]
  constructor
  · rintro ⟨n, hn, hs⟩
    obtain ⟨d, hd, rfl⟩ := hp n hn
    exact ⟨d, hd, hn, inputSignals_name hl hd ▸ hs⟩
  · rintro ⟨d, hd, hn, hs⟩
    exact ⟨d.name, hn, (inputSignals_name hl hd).symm ▸ hs⟩

include hs

/-- The constant and the main outputs and inputs stand before all others. -/
theorem mem_head {s : Signal} (hmem : s ∈ w.signals) : s ∈ head w public_ ↔
    s.kind = .one ∨ isMain .output s = true ∨ isMain .input s = true := by
  simp only [head, List.mem_cons, List.mem_append, blocks, Instance.outputs, mem_publics hl hp,
    mem_withRole_main hs]
  constructor
  · rintro (rfl | (⟨-, h⟩ | ⟨d, hd, -, hsd⟩) | h)
    · exact Or.inl rfl
    · exact Or.inr (Or.inl h)
    · exact Or.inr (Or.inr ((mem_withRole_main hs).1 (List.mem_flatMap.2 ⟨d, hd, hsd⟩)).2)
    · obtain ⟨d, hd, hsd⟩ := List.mem_flatMap.1 h
      exact Or.inr (Or.inr ((mem_withRole_main hs).1
        (List.mem_flatMap.2 ⟨d, List.mem_of_mem_filter hd, hsd⟩)).2)
  · rintro (h | h | h)
    · exact Or.inl (hs.kind s hmem h)
    · exact Or.inr (Or.inl (Or.inl ⟨hmem, h⟩))
    · obtain ⟨d, hd, hsd⟩ := List.mem_flatMap.1 ((mem_withRole_main hs).2 ⟨hmem, h⟩)
      by_cases hn : d.name ∈ public_
      · exact Or.inr (Or.inl (Or.inr ⟨d, hd, hn, hsd⟩))
      · exact Or.inr (Or.inr (List.mem_flatMap.2 ⟨d, List.mem_filter.2 ⟨hd, by simp [hn]⟩, hsd⟩))

/-- The private inputs are the main inputs that are not public. -/
theorem privates_eq (hnodup : (layout w (w.instanceAt 0) public_).Nodup) :
    (blocks (w.instanceAt 0) public_).2.2 = w.signals.toList.filter fun s =>
      isMain .input s && !(public_.flatMap (inputSignals (w.instanceAt 0))).contains s := by
  refine eq_of_ascending ((hl 0).ascending.sublist
    ((List.filter_sublist.trans List.filter_sublist).flatMap _))
    (hs.numbered.pairwise.filter _) fun s => ?_
  -- a signal stands in one block only
  have hdisj : s ∈ public_.flatMap (inputSignals (w.instanceAt 0)) →
      s ∉ (blocks (w.instanceAt 0) public_).2.2 := by
    have hhead := (List.nodup_cons.1 (List.nodup_append.1 hnodup).1).2
    exact fun hpub hpriv => (List.nodup_append.1 hhead).2.2 s
      (List.mem_append_right _ hpub) s hpriv rfl
  rw [List.mem_filter, Array.mem_toList_iff, Bool.and_eq_true, Bool.not_eq_true',
    List.contains_eq_mem, decide_eq_false_iff_not]
  constructor
  · intro h
    obtain ⟨d, hd, hsd⟩ := List.mem_flatMap.1 h
    have hmain := (mem_withRole_main hs).1
      (List.mem_flatMap.2 ⟨d, List.mem_of_mem_filter hd, hsd⟩)
    exact ⟨hmain.1, hmain.2, fun hpub => hdisj hpub h⟩
  · rintro ⟨hmem, hmain, hpub⟩
    obtain ⟨d, hd, hsd⟩ := List.mem_flatMap.1 ((mem_withRole_main hs).2 ⟨hmem, hmain⟩)
    have hn : d.name ∉ public_ := fun hn => hpub ((mem_publics hl hp).2 ⟨d, hd, hn, hsd⟩)
    exact List.mem_flatMap.2 ⟨d, List.mem_filter.2 ⟨hd, by simp [hn]⟩, hsd⟩

/-- What comes after the blocks of the main component. -/
theorem others_eq : (w.signals.toList.filter fun s => !(head w public_).any (·.same s)) =
    othersOf w.signals.toList := by
  refine List.filter_congr fun s hmem => ?_
  have hmem := Array.mem_toList_iff.1 hmem
  have hany : (head w public_).any (·.same s) = true ↔
      s.kind = .one ∨ isMain .output s = true ∨ isMain .input s = true := by
    rw [← mem_head hs hl hp hmem, List.any_eq_true]
    constructor
    · rintro ⟨u, hu, hsame⟩
      rwa [hs.numbered.eq_of_uid hmem (mem_signals_of_head hs hu) (Signal.same_iff.1 hsame).symm]
    · exact fun h => ⟨s, h, Signal.same_iff.2 rfl⟩
  rw [Bool.eq_iff_iff, Bool.not_eq_true', ← Bool.not_eq_true, hany]
  simp [not_or, and_assoc]

/-- **The layout in terms of the signals in order of declaration.** -/
theorem layout_eq :
    layout w (w.instanceAt 0) public_ = Workspace.one w.field ::
      (outputsOf w.signals.toList ++ public_.flatMap (inputSignals (w.instanceAt 0)) ++
        (blocks (w.instanceAt 0) public_).2.2 ++ othersOf w.signals.toList) := by
  rw [layout_eq_append, others_eq hs hl hp, head, List.cons_append, outputsOf,
    filter_isMain hs hl]
  rfl

end

end

end Circuit

/-- **Every compiled circuit is arranged.** -/
theorem compile_arranged {σ : Type} {settings : Settings} {t : Template σ} {host : σ}
    {public_ : List String} {c : Circuit} (h : (compile settings t host public_).result = .ok c) :
    c.Arranged (declaredSignals settings t host) ∧ c.publicInputs = public_ := by
  have hc := compile_coherent h
  obtain ⟨field, w, host', hf, hx, hw⟩ := compile_eq_ok h
  have hrun := expand_spec hf hx
  have hopen := Workspace.opened_sound t field settings.dangling
  have hs := hrun.sound hopen
  have hl := hrun.listed hopen (Workspace.opened_listed t field settings.dangling)
  have hss : declaredSignals settings t host = w.signals.toList := by
    rw [declaredSignals, hf]; dsimp only; rw [hx]
  obtain ⟨hp, rfl, houts, hpubs, hprivs⟩ := Circuit.ofWorkspace_blocks hw
  obtain ⟨-, -, w', hb, -, -, hfield, -, hn, hsig, -, hi, hm⟩ := Circuit.ofWorkspace_eq_ok hw
  obtain ⟨hnodup, ⟨ps, rfl⟩, -, -⟩ := Circuit.bindFrom_spec hb
  have hmain : c.mainInstance = w.instanceAt 0 := by rw [Circuit.mainInstance, hi, hm]; rfl
  have hpriv : (Circuit.blocks (w.instanceAt 0) c.publicInputs).2.2 =
      c.privatesOf w.signals.toList := by
    rw [Circuit.privates_eq hs hl hp hnodup, Circuit.privatesOf, Circuit.publicSignals, hmain]
  have hmem (s : Signal) : s ∈ w.signals.toList ↔ s ∈ c.signals := by
    rw [hsig, List.mem_toArray, Circuit.mem_layout hs, Array.mem_toList_iff]
  rw [hss]
  refine ⟨?_, rfl⟩
  exact
    { numbered := fun i s hi => hs.numbered i s (by rwa [Array.getElem?_toList] at hi)
      bijective := by simp only [hmem]; exact hc.bijOn_place
      size := hc.size.symm
      place := hc.place
      order := by
        rw [hsig, Circuit.layout_eq hs hl hp, hpriv, hfield, Circuit.publicSignals, hmain]
      listed := fun role => by rw [hmain, Circuit.filter_isMain hs hl]
      rows := by
        intro d hd
        rw [hmain] at hd
        rw [(hl 0).rows d hd, hs.main]
        rfl
      names := by rw [hmain]; exact (hl 0).names
      publics := by
        intro n hn
        obtain ⟨d, hd, rfl⟩ := hp n hn
        rw [hmain]
        exact ⟨d, hd, rfl, Circuit.inputSignals_name hl hd⟩
      outputCount := by rw [houts, Circuit.outputsOf, Circuit.filter_isMain hs hl]; rfl
      publicCount := by rw [hpubs, Circuit.publicSignals, hmain]; rfl
      privateCount := by rw [hprivs, hpriv] }

end RankOne
