/-
  RankOne — what the statements of a build do, and what they mean.

  * `Statement.Spreads`: a signal is reached once what its rule reads is reached;
  * `Scene.Effect`: the signals that a build gives rules, all of them reached from some
    others, and the places it fills;
  * `Statement.Sat`, `Statement.Computes`: a statement holds, and its rule gives what
    there is;
  * `Means`: what follows from statements that hold, and when computed signals make
    them hold;
  * `Scene.Step`: a part of a build, with all of this;
  * `succeeds_before`, `succeeds_assignAll`: signals assigned one by one.
-/
import RankOne.Proofs.Build.Succeeds

namespace RankOne

/-! ## Statements under valuations -/

namespace Statement

variable {f : PrimeField}

/-- A statement holds under a valuation.  A hint says nothing. -/
def Sat (v : Signal → ZMod f.p) : Statement → Prop
  | .assign _ target e => e.value v = v target
  | .constrain _ l r => l.value v = r.value v
  | .hint _ _ _ _ => True

/-- A valuation has what the rule of a statement gives. -/
def Computes (v : Signal → ZMod f.p) : Statement → Prop
  | .assign _ target e => e.value v = v target
  | .constrain _ _ _ => True
  | .hint _ target h deps => ∃ m : Int,
      h.run f (deps.map fun e => (e.value v).val) = .ok (.value m) ∧ v target = m

/-- The target of a statement is reached once all that its rule reads is reached. -/
def Spreads (P : Set ℤ) (st : Statement) : Prop :=
  ∀ r ∈ st.rule?, (∀ s ∈ r.reads, s.uid ∈ P) → r.target.uid ∈ P

theorem spreads_assign {P : Set ℤ} {origin : String} {target : Signal} {e : Expr}
    (h : (Statement.assign origin target e).Spreads P) (he : ∀ s ∈ e.signals, s.uid ∈ P) :
    target.uid ∈ P := h _ rfl he

theorem spreads_hint {P : Set ℤ} {origin : String} {target : Signal} {h : Hint} {e : Expr}
    (hst : (Statement.hint origin target h [e]).Spreads P) (he : ∀ s ∈ e.signals, s.uid ∈ P) :
    target.uid ∈ P := by
  refine hst _ rfl fun s hs => he s ?_
  have := Signal.mem_of_mem_sorted hs
  simpa using this

end Statement

/-- What follows from statements that hold, and when computed signals make them hold. -/
structure Means (f : PrimeField) (sts : List Statement) (Pre Post : (Signal → ZMod f.p) → Prop) :
    Prop where
  sound : ∀ v, ByUid v → (∀ st ∈ sts, st.Sat v) → Post v
  complete : ∀ v, ByUid v → (∀ st ∈ sts, st.Computes v) → Pre v → ∀ st ∈ sts, st.Sat v

namespace Means

variable {f : PrimeField} {xs ys : List Statement} {Pre Pre' Post Post' : (Signal → ZMod f.p) → Prop}

theorem nil : Means f [] (fun _ => True) fun _ => True := ⟨fun _ _ _ => trivial, by simp⟩

theorem mono (h : Means f xs Pre Post) (hpre : ∀ v, Pre' v → Pre v)
    (hpost : ∀ v, Post v → Post' v) : Means f xs Pre' Post' :=
  ⟨fun v hv hs => hpost v (h.sound v hv hs), fun v hv hc hp => h.complete v hv hc (hpre v hp)⟩

/-- Statements after others, whose meaning and advice they may use. -/
theorem chain (hx : Means f xs Pre Post) (hy : Means f ys Pre' Post')
    (hpre : ∀ v, ByUid v → (∀ st ∈ xs, st.Computes v) → Pre v → Post v → Pre' v) :
    Means f (xs ++ ys) Pre fun v => Post v ∧ Post' v where
  sound := fun v hv hs => by
    rw [List.forall_mem_append] at hs
    exact ⟨hx.sound v hv hs.1, hy.sound v hv hs.2⟩
  complete := fun v hv hc hp => by
    rw [List.forall_mem_append] at hc ⊢
    have hsx := hx.complete v hv hc.1 hp
    exact ⟨hsx, hy.complete v hv hc.2 (hpre v hv hc.1 hp (hx.sound v hv hsx))⟩

/-- Statements after others, whose meaning they may use. -/
theorem append (hx : Means f xs Pre Post)
    (hy : Means f ys (fun v => Pre v ∧ Post v) Post') :
    Means f (xs ++ ys) Pre fun v => Post v ∧ Post' v :=
  hx.chain hy fun _ _ _ hp hq => ⟨hp, hq⟩

/-- The order of statements does not matter. -/
theorem perm (h : Means f xs Pre Post) (hp : xs.Perm ys) : Means f ys Pre Post where
  sound := fun v hv hs => h.sound v hv fun st hst => hs st (hp.mem_iff.1 hst)
  complete := fun v hv hc hpre st hst =>
    h.complete v hv (fun st hst => hc st (hp.mem_iff.1 hst)) hpre st (hp.mem_iff.2 hst)

/-- The advice for a signal helps the statements after it. -/
theorem hint (hy : Means f ys Pre Post) {origin : String} {s : Signal} {h : Hint}
    {deps : List Expr} (hpre : ∀ v, ByUid v → (Statement.hint origin s h deps).Computes v →
      Pre' v → Pre v) : Means f (.hint origin s h deps :: ys) Pre' Post where
  sound := fun v hv hs => hy.sound v hv (List.forall_mem_cons.1 hs).2
  complete := fun v hv hc hp => by
    obtain ⟨hhint, hc⟩ := List.forall_mem_cons.1 hc
    exact List.forall_mem_cons.2 ⟨trivial, hy.complete v hv hc (hpre v hv hhint hp)⟩

/-- An assignment. -/
theorem assign {T : Set Signal} {e : Expr} {d : (Signal → ZMod f.p) → ZMod f.p}
    (he : e.Form f T d) (origin : String) (s : Signal) :
    Means f [.assign origin s e] (fun _ => True) fun v => v s = d v where
  sound := fun v hv hs => by
    have := hs _ (List.mem_singleton_self _)
    rw [Statement.Sat, he.value v hv] at this
    exact this.symm
  complete := fun v _ hc _ st hst => by
    obtain rfl := List.mem_singleton.1 hst
    exact hc _ hst

/-- An equality. -/
theorem constrain {T U : Set Signal} {l r : Expr} {d d' : (Signal → ZMod f.p) → ZMod f.p}
    (hl : l.Form f T d) (hr : r.Form f U d') (origin : String) :
    Means f [.constrain origin l r] (fun v => d v = d' v) fun v => d v = d' v where
  sound := fun v hv hs => by
    have := hs _ (List.mem_singleton_self _)
    rwa [Statement.Sat, hl.value v hv, hr.value v hv] at this
  complete := fun v hv _ h st hst => by
    rw [List.mem_singleton.1 hst, Statement.Sat, hl.value v hv, hr.value v hv]
    exact h

end Means

/-! ## Effects -/

namespace Scene

/-- A build gives rules to the signals of `U`, which are reached from those of `I`, and
    fills places of `F` and of its own arrays. -/
structure Effect (sc : Scene) (sts : List Statement) (sc' : Scene) (I U : Set ℤ)
    (F : Set (ℕ × List ℕ)) : Prop where
  assigned : sc'.assigned = sc.assigned ∪ U
  filled : sc'.filled ⊆ sc.filled ∪ F ∪ {k | sc.arrays ≤ k.1}
  arrays : sc.arrays ≤ sc'.arrays
  reach : ∀ P : Set ℤ, (∀ st ∈ sts, st.Spreads P) → I ⊆ P → U ⊆ P

section
variable {sc sc₁ sc₂ : Scene} {xs ys : List Statement} {I I' J U V : Set ℤ} {F G : Set (ℕ × List ℕ)}

theorem Effect.refl (sc : Scene) : sc.Effect [] sc I ∅ ∅ :=
  ⟨(Set.union_empty _).symm, fun _ hk => Or.inl (Or.inl hk), le_rfl,
    fun _ _ _ => Set.empty_subset _⟩

/-- One build after another. -/
theorem Effect.trans (h : sc.Effect xs sc₁ I U F) (h' : sc₁.Effect ys sc₂ J V G)
    (hJ : J ⊆ I ∪ U) :
    sc.Effect (xs ++ ys) sc₂ I (U ∪ V) (F ∪ G) where
  assigned := by rw [h'.assigned, h.assigned, Set.union_assoc]
  filled := by
    intro k hk
    rcases h'.filled hk with (hk | hk) | hk
    · rcases h.filled hk with (hk | hk) | hk
      · exact Or.inl (Or.inl hk)
      · exact Or.inl (Or.inr (Or.inl hk))
      · exact Or.inr hk
    · exact Or.inl (Or.inr (Or.inr hk))
    · exact Or.inr (h.arrays.trans hk)
  arrays := h.arrays.trans h'.arrays
  reach := by
    intro P hP hI
    rw [List.forall_mem_append] at hP
    have hU := h.reach P hP.1 hI
    exact Set.union_subset hU (h'.reach P hP.2 (hJ.trans (Set.union_subset hI hU)))

theorem Effect.mono (h : sc.Effect xs sc₁ I U F) (hI : I ⊆ I') (hU : U = V) (hF : F ⊆ G) :
    sc.Effect xs sc₁ I' V G where
  assigned := hU ▸ h.assigned
  filled := fun _ hk => (h.filled hk).imp (Or.imp_right fun hk => hF hk) id
  arrays := h.arrays
  reach := fun P hP hI' => hU ▸ h.reach P hP (hI.trans hI')

/-- A rule for one signal. -/
theorem effect_assign (sc : Scene) {T : Set Signal} {e : Expr} {f : PrimeField}
    {d : (Signal → ZMod f.p) → ZMod f.p} (he : e.Form f T d) (hT : ∀ s ∈ T, s.uid ∈ I)
    (origin : String) (s : Signal) :
    sc.Effect [.assign origin s e] (sc.assign s) I {s.uid} ∅ where
  assigned := by
    rw [Set.union_comm]
    rfl
  filled := fun _ hk => Or.inl (Or.inl hk)
  arrays := le_rfl
  reach := fun P hP hI => by
    rw [Set.singleton_subset_iff]
    exact Statement.spreads_assign (hP _ (List.mem_singleton_self _)) fun x hx =>
      hI (hT x (he.signals x hx))

theorem effect_hint (sc : Scene) {T : Set Signal} {e : Expr} {f : PrimeField}
    {d : (Signal → ZMod f.p) → ZMod f.p} (he : e.Form f T d) (hT : ∀ s ∈ T, s.uid ∈ I)
    (origin : String) (s : Signal) (h : Hint) :
    sc.Effect [.hint origin s h [e]] (sc.assign s) I {s.uid} ∅ where
  assigned := by
    rw [Set.union_comm]
    rfl
  filled := fun _ hk => Or.inl (Or.inl hk)
  arrays := le_rfl
  reach := fun P hP hI => by
    rw [Set.singleton_subset_iff]
    exact Statement.spreads_hint (hP _ (List.mem_singleton_self _)) fun x hx =>
      hI (hT x (he.signals x hx))

theorem effect_constrain (sc : Scene) (origin : String) (l r : Expr) :
    sc.Effect [.constrain origin l r] sc I ∅ ∅ :=
  ⟨(Set.union_empty _).symm, fun _ hk => Or.inl (Or.inl hk), le_rfl,
    fun _ _ _ => Set.empty_subset _⟩

/-- Declarations change nothing of what a later build does. -/
theorem Effect.after (h : sc₁.Effect xs sc₂ I U F) (hass : sc₁.assigned = sc.assigned)
    (hfill : sc₁.filled = sc.filled) (harrays : sc.arrays ≤ sc₁.arrays) :
    sc.Effect xs sc₂ I U F where
  assigned := hass ▸ h.assigned
  filled := fun _ hk => (hfill ▸ h.filled hk).imp_right fun hk => harrays.trans hk
  arrays := harrays.trans h.arrays
  reach := h.reach

/-- A signal that a build gives no rule may still be assigned. -/
theorem Open.later {s : Signal} (hs : sc.Open s) (hgrows : sc.Grows sc₁)
    (h : sc.Effect xs sc₁ I U F) (hU : s.uid ∉ U) : sc₁.Open s where
  mem := hgrows.mem hs.mem
  own := by
    rw [hgrows.path]
    exact hs.own.imp_right fun ⟨hk, name, hn, hc⟩ => ⟨hk, name, hgrows.children hn, hc⟩
  free := by
    rw [h.assigned]
    exact fun hmem => hmem.elim hs.free hU

theorem Open.assign {s t : Signal} (hs : sc.Open s) (hne : s.uid ≠ t.uid) :
    (sc.assign t).Open s :=
  ⟨hs.mem, hs.own, fun hmem => hmem.elim hne hs.free⟩

/-- A signal may still be assigned after a child was built. -/
theorem Open.below {s : Signal} {k : ℤ} (hs : sc.Open s) (hfit : sc.Fit) (hgrows : sc.Grows sc₁)
    (h : sc.Effect xs sc₁ I (Set.Ico (sc.signals.length : ℤ) k) F) : sc₁.Open s := by
  refine hs.later hgrows h fun hmem => ?_
  have := hfit.numbered s hs.mem
  have := hmem.1
  omega

end

end Scene

/-! ## Steps -/

/-- The signals of a scene with numbers in `I`. -/
def Scene.within (sc : Scene) (I : Set ℤ) : Set Signal := {s | s ∈ sc.signals ∧ s.uid ∈ I}

theorem Scene.within_subset {sc sc' : Scene} (h : sc.Grows sc') {I J : Set ℤ} (hIJ : I ⊆ J) :
    sc.within I ⊆ sc'.within J := fun _ hs => ⟨h.mem hs.1, hIJ hs.2⟩

/-- A signal of a scene is a line over the signals there. -/
theorem Scene.Fit.line {sc : Scene} (h : sc.Fit) {f : PrimeField} (hf : sc.field = f) {I : Set ℤ}
    {s : Signal} (hs : s ∈ sc.within I) : (Expr.ofSignal s).Line f (sc.within I) fun v => v s :=
  .ofSignal hs ((h.field s hs.1).trans hf)

/-- The inputs and outputs among declarations. -/
def Declaration.terminals (ds : List Declaration) : List Declaration :=
  ds.filter (·.role != .intermediate)

namespace Scene

/-- **A part of a build** that declares no inputs and outputs and takes names of `N`, with
    the meaning of its statements. -/
structure Step (sc : Scene) (f : PrimeField) (sts : List Statement) (sc' : Scene) (I U : Set ℤ)
    (F : Set (ℕ × List ℕ)) (N : Set String) (Pre Post : (Signal → ZMod f.p) → Prop) : Prop
    extends sc.Effect sts sc' I U F where
  names : sc'.names ⊆ sc.names ∪ N
  terminals : Declaration.terminals sc'.declarations = Declaration.terminals sc.declarations
  means : Means f sts Pre Post

section
variable {sc sc₁ sc₂ : Scene} {f : PrimeField} {xs ys : List Statement} {I I' J U V : Set ℤ}
  {F G : Set (ℕ × List ℕ)} {N M : Set String} {Pre Pre' Post Post' : (Signal → ZMod f.p) → Prop}

theorem Step.refl (sc : Scene) :
    sc.Step f [] sc I ∅ ∅ ∅ (fun _ => True) fun _ => True :=
  ⟨.refl sc, Set.subset_union_left, rfl, .nil⟩

/-- One part after another, whose meaning and advice it may use. -/
theorem Step.chain (h : sc.Step f xs sc₁ I U F N Pre Post)
    (h' : sc₁.Step f ys sc₂ J V G M Pre' Post') (hJ : J ⊆ I ∪ U)
    (hpre : ∀ v, ByUid v → (∀ st ∈ xs, st.Computes v) → Pre v → Post v → Pre' v) :
    sc.Step f (xs ++ ys) sc₂ I (U ∪ V) (F ∪ G) (N ∪ M) Pre fun v => Post v ∧ Post' v where
  toEffect := h.toEffect.trans h'.toEffect hJ
  names := by
    rw [← Set.union_assoc]
    exact h'.names.trans (Set.union_subset_union_left M h.names)
  terminals := h'.terminals.trans h.terminals
  means := h.means.chain h'.means hpre

/-- One part after another, whose meaning it may use. -/
theorem Step.trans (h : sc.Step f xs sc₁ I U F N Pre Post)
    (h' : sc₁.Step f ys sc₂ J V G M Pre' Post') (hJ : J ⊆ I ∪ U)
    (hpre : ∀ v, Pre v → Post v → Pre' v) :
    sc.Step f (xs ++ ys) sc₂ I (U ∪ V) (F ∪ G) (N ∪ M) Pre fun v => Post v ∧ Post' v :=
  h.chain h' hJ fun v _ _ => hpre v

theorem Step.mono (h : sc.Step f xs sc₁ I U F N Pre Post) (hI : I ⊆ I') (hU : U = V) (hF : F ⊆ G)
    (hN : N ⊆ M) (hpre : ∀ v, Pre' v → Pre v) (hpost : ∀ v, Post v → Post' v) :
    sc.Step f xs sc₁ I' V G M Pre' Post' where
  toEffect := h.toEffect.mono hI hU hF
  names := h.names.trans (Set.union_subset_union_right _ hN)
  terminals := h.terminals
  means := h.means.mono hpre hpost

theorem Step.imp (h : sc.Step f xs sc₁ I U F N Pre Post) (hpre : ∀ v, Pre' v → Pre v)
    (hpost : ∀ v, Post v → Post' v) : sc.Step f xs sc₁ I U F N Pre' Post' :=
  h.mono subset_rfl rfl subset_rfl subset_rfl hpre hpost

/-- Intermediates are declared first. -/
theorem Step.declared {d : Declaration} (h : (sc.declare d).Step f xs sc₁ I U F N Pre Post)
    (hrole : d.role = .intermediate) : sc.Step f xs sc₁ I U F ({d.name} ∪ N) Pre Post where
  toEffect := h.toEffect.after rfl rfl le_rfl
  names := by
    rw [← Set.union_assoc, Set.union_comm sc.names]
    exact h.names
  terminals := h.terminals.trans (by simp [Declaration.terminals, hrole])
  means := h.means

/-- An array of places is declared first. -/
theorem Step.arrayed {name : String} (h : (sc.array name).Step f xs sc₁ I U F N Pre Post) :
    sc.Step f xs sc₁ I U F ({name} ∪ N) Pre Post where
  toEffect := h.toEffect.after rfl rfl (Nat.le_succ _)
  names := by
    rw [← Set.union_assoc, Set.union_comm sc.names]
    exact h.names
  terminals := h.terminals
  means := h.means

variable {T T' : Set Signal} {e l r : Expr} {d d' : (Signal → ZMod f.p) → ZMod f.p}

theorem step_assign (sc : Scene) (he : e.Form f T d) (hT : ∀ s ∈ T, s.uid ∈ I) (origin : String)
    (s : Signal) : sc.Step f [.assign origin s e] (sc.assign s) I {s.uid} ∅ ∅ (fun _ => True)
      fun v => v s = d v where
  toEffect := sc.effect_assign he hT origin s
  names := Set.subset_union_left
  terminals := rfl
  means := .assign he origin s

theorem step_constrain (sc : Scene) (hl : l.Form f T d) (hr : r.Form f T' d')
    (origin : String) : sc.Step f [.constrain origin l r] sc I ∅ ∅ ∅ (fun v => d v = d' v)
      fun v => d v = d' v where
  toEffect := sc.effect_constrain origin l r
  names := Set.subset_union_left
  terminals := rfl
  means := .constrain hl hr origin

/-- The advice for a signal comes first. -/
theorem Step.hint {origin : String} {s : Signal} {h : Hint}
    (hstep : (sc.assign s).Step f xs sc₁ J U F N Pre Post) (he : e.Form f T d)
    (hT : ∀ s ∈ T, s.uid ∈ I) (hJ : J ⊆ I ∪ {s.uid}) (hpre : ∀ v, ByUid v →
      (Statement.hint origin s h [e]).Computes v → Pre' v → Pre v) :
    sc.Step f (.hint origin s h [e] :: xs) sc₁ I ({s.uid} ∪ U) F N Pre' Post where
  toEffect := ((sc.effect_hint he hT origin s h).trans hstep.toEffect hJ).mono subset_rfl rfl
    (Set.empty_union F).subset
  names := hstep.names
  terminals := hstep.terminals
  means := hstep.means.hint hpre

end

end Scene

/-! ## Assignments of several signals -/

/-- The scene after some signals got their rules. -/
@[simps] def Scene.assignAll (sc : Scene) (ts : List Signal) : Scene :=
  { sc with assigned := sc.assigned ∪ Signal.numbers ts }

theorem Scene.assignAll_nil (sc : Scene) : sc.assignAll [] = sc := by
  rw [Scene.assignAll, Signal.numbers_nil, Set.union_empty]

theorem Scene.assignAll_cons (sc : Scene) (t : Signal) (ts : List Signal) :
    sc.assignAll (t :: ts) = (sc.assign t).assignAll ts := by
  rw [Scene.assignAll, Scene.assignAll, Signal.numbers_cons, ← Set.union_assoc,
    Set.union_comm sc.assigned]
  rfl

/-- Nothing is assigned. -/
theorem Scene.Step.none {sc : Scene} {f : PrimeField} {I : Set ℤ}
    {Post : (Signal → ZMod f.p) → Prop} (h : ∀ v, Post v) :
    sc.Step f [] sc I (Signal.numbers []) ∅ ∅ (fun _ => True) Post := by
  rw [Signal.numbers_nil]
  exact (Scene.Step.refl sc).imp (fun _ h => h) fun v _ => h v

/-- One signal is assigned before others. -/
theorem Scene.Step.before {sc sc' : Scene} {f : PrimeField} {I J : Set ℤ} {T : Set Signal} {e : Expr}
    {d : (Signal → ZMod f.p) → ZMod f.p} {Post : (Signal → ZMod f.p) → Prop} {s : Signal}
    {ss : List Signal} {sts : List Statement}
    (hrest : (sc.assign s).Step f sts sc' J (Signal.numbers ss) ∅ ∅ (fun _ => True) Post)
    (he : e.Form f T d) (hT : ∀ s ∈ T, s.uid ∈ I) (hJ : J ⊆ I ∪ {s.uid}) (origin : String) :
    sc.Step f (.assign origin s e :: sts) sc' I (Signal.numbers (s :: ss)) ∅ ∅ (fun _ => True)
      fun v => v s = d v ∧ Post v :=
  ((sc.step_assign he hT origin s).trans hrest hJ fun _ _ _ => trivial).mono subset_rfl
    (Signal.numbers_cons s ss).symm (Set.union_empty _).subset (Set.union_empty _).subset
    (fun _ h => h) fun _ h => h

namespace Build

variable {σ : Type} {f : PrimeField} {T : Set Signal}

/-- **One signal is assigned before others.** -/
theorem succeeds_before {sc : Scene} {I : Set ℤ} (hf : sc.field = f) {s : Signal}
    {ss : List Signal} {e : Expr} {d : (Signal → ZMod f.p) → ZMod f.p}
    (he : e.Form f (sc.within I) d) (hopen : ∀ x ∈ s :: ss, sc.Open x)
    (hnd : ((s :: ss).map (·.uid)).Nodup) {k : Unit → Build σ Unit}
    {Post : (Signal → ZMod f.p) → Prop}
    (hk : sc.within I ⊆ (sc.assign s).within (I ∪ {s.uid}) →
      s ∈ (sc.assign s).within (I ∪ {s.uid}) → (∀ x ∈ ss, (sc.assign s).Open x) →
      (k ()).Succeeds (sc.assign s) fun _ sts sc' => sc' = (sc.assign s).assignAll ss ∧
        (sc.assign s).Step f sts sc' (I ∪ {s.uid}) (Signal.numbers ss) ∅ ∅ (fun _ => True) Post) :
    (assign s e >>= k).Succeeds sc fun _ sts sc' => sc' = sc.assignAll (s :: ss) ∧
      sc.Step f sts sc' I (Signal.numbers (s :: ss)) ∅ ∅ (fun _ => True)
        fun v => v s = d v ∧ Post v := by
  obtain ⟨hs, hss⟩ := List.forall_mem_cons.1 hopen
  obtain ⟨hnew, -⟩ := List.nodup_cons.1 hnd
  refine (yields_assign hf hs (he.mono fun s hs => hs.1)).emit fun hgrows _ => ?_
  refine (hk (Scene.within_subset hgrows Set.subset_union_left) ⟨hs.mem, Or.inr rfl⟩
    fun x hx => (hss x hx).assign fun heq => hnew (List.mem_map.2 ⟨x, hx, heq⟩)).mono ?_
  rintro _ sts _ - - ⟨rfl, hrest⟩
  exact ⟨(sc.assignAll_cons s ss).symm, hrest.before he (fun s hs => hs.2) subset_rfl sc.path⟩

/-- **Signals are assigned one linear form each.** -/
theorem succeeds_assignAll : ∀ {ts : List Signal} {es : List Expr}
    {ds : List ((Signal → ZMod f.p) → ZMod f.p)} {sc : Scene} {I : Set ℤ}, sc.field = f →
    (∀ t ∈ ts, sc.Open t) → (ts.map (·.uid)).Nodup → ts.length = es.length →
    List.Forall₂ (fun e d => e.Line f T d) es ds → (∀ s ∈ T, s ∈ sc.signals ∧ s.uid ∈ I) →
    (assignAll ts es : Build σ Unit).Succeeds sc fun _ sts sc' =>
      sc' = sc.assignAll ts ∧ sc.Step f sts sc' I (Signal.numbers ts) ∅ ∅ (fun _ => True)
        fun v => List.Forall₂ (fun t d => v t = d v) ts ds
  | [], [], [], sc, I, _, _, _, _, _, _ =>
    (yields_pure ()).succeeds fun _ _ => ⟨sc.assignAll_nil.symm, .none fun _ => .nil⟩
  | t :: ts, e :: es, d :: ds, sc, I, hf, hopen, hnd, hlen, hes, hT => by
    obtain ⟨he, hes⟩ := List.forall₂_cons.1 hes
    refine (succeeds_before hf (he.toForm.mono hT) hopen hnd fun hsub _ hopen' =>
      succeeds_assignAll (show (sc.assign t).field = f from hf) hopen' hnd.of_cons
        (by simpa using hlen) hes fun s hs => hsub (hT s hs)).mono ?_
    rintro _ sts sc' - - ⟨rfl, hrest⟩
    exact ⟨rfl, hrest.imp (fun _ h => h) fun v hv => .cons hv.1 hv.2⟩

end Build

end RankOne
