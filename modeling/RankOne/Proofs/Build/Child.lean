/-
  RankOne — components as parts of others.

  A component declares its inputs and outputs, gives every other signal of its own a
  rule, and leaves its inputs to its parent.  What it provides is said once, and the
  parent uses it without opening the component.

  * `Scene.Interface`: the inputs and outputs that a component declares first;
  * `Scene.Provides`, `Interface.provides`: what a finished component provides;
  * `Scene.Placed`, `succeeds_placed`, `succeeds_filled`: a child as its parent finds it;
  * `Scene.Vacant`: an array of places, free from some place on;
  * `Placed.fed`, `succeeds_feed`: the child and the assignments of its inputs are one step
    of the parent.
-/
import RankOne.Proofs.Build.Effect

namespace RankOne

/-- The signals of some declarations. -/
def Declaration.flat (ds : List Declaration) : List Signal := ds.flatMap (·.bus.flat)

@[simp] theorem Declaration.flat_nil : Declaration.flat [] = [] := rfl

theorem Declaration.flat_append (ds ds' : List Declaration) :
    Declaration.flat (ds ++ ds') = Declaration.flat ds ++ Declaration.flat ds' :=
  List.flatMap_append

@[simp] theorem Declaration.flat_cons (d : Declaration) (ds : List Declaration) :
    Declaration.flat (d :: ds) = d.bus.flat ++ Declaration.flat ds := List.flatMap_cons

theorem Component.terminal?_eq {c : Component} {ds : List Declaration} (h : c.declarations = ds)
    (name : String) :
    c.terminal? name = ((Declaration.terminals ds).find? (·.name == name)).map (·.bus) := by
  rw [Component.terminal?, h, Declaration.terminals, List.find?_filter]
  congr 2
  funext d
  rw [Bool.and_comm, Bool.decide_and, Bool.decide_eq_true, Bool.decide_eq_true]

namespace Scene

/-! ## Inputs and outputs -/

/-- The scene of a component of which nothing has been built. -/
structure Blank (sc : Scene) : Prop where
  names : sc.names = ∅
  declarations : sc.declarations = []
  children : sc.children = ∅

theorem blank_enter (sc : Scene) (id : ℕ) (name : String) : (sc.enter id name).Blank :=
  ⟨rfl, rfl, rfl⟩

/-- The scene after some declarations. -/
def declareAll (sc : Scene) (ds : List Declaration) : Scene := ds.foldl declare sc

section
variable (sc : Scene) (ds : List Declaration)

theorem declareAll_concat (d : Declaration) :
    sc.declareAll (ds ++ [d]) = (sc.declareAll ds).declare d := List.foldl_concat _ _ _ _

theorem declareAll_signals : (sc.declareAll ds).signals = sc.signals ++ Declaration.flat ds := by
  induction ds generalizing sc with
  | nil => exact (List.append_nil _).symm
  | cons d ds ih => rw [declareAll, List.foldl_cons, ← declareAll, ih]; simp

theorem declareAll_declarations :
    (sc.declareAll ds).declarations = sc.declarations ++ ds := by
  induction ds generalizing sc with
  | nil => exact (List.append_nil _).symm
  | cons d ds ih => rw [declareAll, List.foldl_cons, ← declareAll, ih]; simp

/-- What one declaration leaves as it is, all leave as it is. -/
theorem declareAll_of_declare {α : Type} {g : Scene → α}
    (h : ∀ (sc : Scene) (d : Declaration), g (sc.declare d) = g sc) :
    g (sc.declareAll ds) = g sc := by
  induction ds generalizing sc with
  | nil => rfl
  | cons d ds ih => exact (ih (sc.declare d)).trans (h sc d)

theorem declareAll_assigned : (sc.declareAll ds).assigned = sc.assigned :=
  sc.declareAll_of_declare ds declare_assigned

theorem declareAll_filled : (sc.declareAll ds).filled = sc.filled :=
  sc.declareAll_of_declare ds declare_filled

theorem declareAll_path : (sc.declareAll ds).path = sc.path :=
  sc.declareAll_of_declare ds declare_path

theorem declareAll_arrays : (sc.declareAll ds).arrays = sc.arrays :=
  sc.declareAll_of_declare ds declare_arrays

theorem grows_declareAll : sc.Grows (sc.declareAll ds) := by
  induction ds generalizing sc with
  | nil => exact .refl sc
  | cons d ds ih => exact (sc.grows_declare d).trans (ih (sc.declare d))

end

/-- The inputs and outputs that a component declares first: the inputs are numbered
    before the outputs. -/
structure Interface (sc : Scene) (ins outs : List Declaration) : Prop where
  inputs : ∀ d ∈ ins, d.role = .input
  outputs : ∀ d ∈ outs, d.role = .output
  numbers : Signal.Consecutive sc.signals.length (Declaration.flat ins)
  own : ∀ x ∈ Declaration.flat ins, x.kind = .declared .input ∧ x.component = sc.path
  later : ∀ s ∈ Declaration.flat outs,
    ((sc.signals.length + (Declaration.flat ins).length : ℕ) : ℤ) ≤ s.uid

section
variable {sc : Scene} {ins outs : List Declaration} {bus : Bus}

theorem Interface.nil (sc : Scene) : sc.Interface [] [] where
  inputs := by simp
  outputs := by simp
  numbers := by simp
  own := by simp
  later := by simp

/-- One more input. -/
theorem Interface.input (h : sc.Interface ins []) (hbus : (sc.declareAll ins).New .input bus)
    (name : String) : sc.Interface (ins ++ [⟨name, .input, bus⟩]) [] where
  inputs := fun d hd => by
    rcases List.mem_append.1 hd with hd | hd
    · exact h.inputs d hd
    · rw [List.mem_singleton.1 hd]
  outputs := by simp
  numbers := by
    have hnumbers := hbus.numbers
    rw [declareAll_signals, List.length_append] at hnumbers
    rw [Declaration.flat_append]
    exact h.numbers.append (by simpa using hnumbers)
  own := fun x hx => by
    rw [Declaration.flat_append, List.mem_append] at hx
    rcases hx with hx | hx
    · exact h.own x hx
    · obtain ⟨hkind, hcomp, -⟩ := hbus.own x (by simpa using hx)
      exact ⟨hkind, hcomp.trans (declareAll_path sc ins)⟩
  later := by simp

/-- One more output. -/
theorem Interface.output (h : sc.Interface ins outs)
    (hbus : (sc.declareAll (ins ++ outs)).New .output bus) (name : String) :
    sc.Interface ins (outs ++ [⟨name, .output, bus⟩]) where
  inputs := h.inputs
  outputs := fun d hd => by
    rcases List.mem_append.1 hd with hd | hd
    · exact h.outputs d hd
    · rw [List.mem_singleton.1 hd]
  numbers := h.numbers
  own := h.own
  later := fun s hs => by
    rw [Declaration.flat_append, List.mem_append] at hs
    rcases hs with hs | hs
    · exact h.later s hs
    · have hnum : s.uid ∈ Signal.numbers bus.flat := Signal.mem_numbers (by simpa using hs)
      rw [hbus.numbers.numbers, declareAll_signals, Declaration.flat_append] at hnum
      simp only [List.length_append, Set.mem_Ico] at hnum
      omega

/-- The inputs are among the first signals of the component. -/
theorem Interface.within_numbers (h : sc.Interface ins outs) {s : Signal}
    (hs : s ∈ Declaration.flat ins) :
    s ∈ (sc.declareAll (ins ++ outs)).within (Set.Ico (sc.signals.length : ℤ)
      (sc.signals.length + (Declaration.flat ins).length)) := by
  refine ⟨?_, h.numbers.numbers ▸ Signal.mem_numbers hs⟩
  rw [declareAll_signals, Declaration.flat_append]
  simp [hs]

end

/-! ## Finished components -/

/-- **What a finished component provides**: its inputs and outputs, and what its statements
    mean.  All its other signals have rules, and are reached from the inputs. -/
structure Provides (sc : Scene) (f : PrimeField) (ins outs : List Declaration)
    (Pre Post : (Signal → ZMod f.p) → Prop) (sts : List Statement) (sc' : Scene) : Prop where
  terminals : Declaration.terminals sc'.declarations = ins ++ outs
  inputs : ∀ d ∈ ins, d.role = .input
  outputs : ∀ d ∈ outs, d.role = .output
  numbers : Signal.Consecutive sc.signals.length (Declaration.flat ins)
  size : sc.signals.length + (Declaration.flat ins).length ≤ sc'.signals.length
  made : ∀ x ∈ Declaration.flat ins, x ∈ sc'.signals ∧ x.kind = .declared .input ∧
    x.component = sc.path
  given : ∀ s ∈ Declaration.flat outs, s ∈ sc'.signals ∧
    ((sc.signals.length + (Declaration.flat ins).length : ℕ) : ℤ) ≤ s.uid
  effect : sc.Effect sts sc' (Signal.numbers (Declaration.flat ins))
    (Set.Ico ((sc.signals.length + (Declaration.flat ins).length : ℕ) : ℤ) sc'.signals.length) ∅
  means : Means f sts Pre Post

section
variable {sc sc₁ sc₂ sc' : Scene} {f : PrimeField} {ins outs : List Declaration}
  {Pre Post : (Signal → ZMod f.p) → Prop} {xs ys : List Statement} {id : ℕ} {name : String}
  {I U : Set ℤ} {F G : Set (ℕ × List ℕ)} {N : Set String}

/-- **What remains to do after the inputs and outputs are declared.** -/
theorem Interface.provides (hi : sc.Interface ins outs) (hblank : sc.Blank)
    (hgrows : (sc.declareAll (ins ++ outs)).Grows sc')
    (h : (sc.declareAll (ins ++ outs)).Step f xs sc' I U F N Pre Post)
    (hI : I ⊆ Signal.numbers (Declaration.flat ins))
    (hU : U = Set.Ico ((sc.signals.length + (Declaration.flat ins).length : ℕ) : ℤ)
      sc'.signals.length)
    (hF : ∀ k ∈ F, sc.arrays ≤ k.1) : sc.Provides f ins outs Pre Post xs sc' := by
  have hsignals := sc.declareAll_signals (ins ++ outs)
  rw [Declaration.flat_append, ← List.append_assoc] at hsignals
  have hlength := hgrows.length_le
  rw [hsignals, List.length_append, List.length_append] at hlength
  refine ⟨?_, hi.inputs, hi.outputs, hi.numbers, by omega, ?_, ?_, ?_, h.means⟩
  · rw [h.terminals, sc.declareAll_declarations, hblank.declarations, List.nil_append,
      Declaration.terminals, List.filter_eq_self]
    intro d hd
    rcases List.mem_append.1 hd with hd | hd
    · rw [hi.inputs d hd]
      rfl
    · rw [hi.outputs d hd]
      rfl
  · intro x hx
    refine ⟨hgrows.mem ?_, hi.own x hx⟩
    rw [hsignals]
    exact List.mem_append_left _ (List.mem_append_right _ hx)
  · intro s hs
    refine ⟨hgrows.mem ?_, hi.later s hs⟩
    rw [hsignals]
    exact List.mem_append_right _ hs
  · have heffect := (h.toEffect.mono hI hU subset_rfl).after
      (sc.declareAll_assigned _) (sc.declareAll_filled _) (sc.declareAll_arrays _).ge
    exact { heffect with
      filled := fun k hk => (heffect.filled hk).elim
        (fun hk => hk.elim (fun hk => Or.inl (Or.inl hk)) fun hk => Or.inr (hF k hk)) Or.inr }

/-! ## Children -/

/-- An array of `n` places of the component, free from place `i` on. -/
structure Vacant (sc : Scene) (a : SlotArray) (n i : ℕ) : Prop where
  owner : a.owner = sc.here
  taken : a.taken = []
  shape : a.shape = [(n : Int)]
  old : a.id < sc.arrays
  free : ∀ j, i ≤ j → (a.id, [j]) ∉ sc.filled

/-- A new array is empty. -/
theorem vacant_slots (hfit : sc.Fit) (name : String) (n : ℕ) :
    (sc.array name).Vacant (sc.slots name n) n 0 where
  owner := rfl
  taken := rfl
  shape := rfl
  old := Nat.lt_succ_self _
  free := fun _ _ hk => absurd (hfit.older _ hk) (lt_irrefl _)

/-- The places that a build does not fill stay free. -/
theorem Vacant.later {a : SlotArray} {n i k : ℕ} (h : sc.Vacant a n i) (hgrows : sc.Grows sc₁)
    (heffect : sc.Effect xs sc₁ I U F) (hle : i ≤ k) (hF : ∀ j, k ≤ j → (a.id, [j]) ∉ F) :
    sc₁.Vacant a n k where
  owner := h.owner.trans hgrows.here.symm
  taken := h.taken
  shape := h.shape
  old := h.old.trans_le hgrows.arrays
  free := by
    intro j hj hmem
    rcases heffect.filled hmem with (hmem | hmem) | hmem
    · exact h.free j (hle.trans hj) hmem
    · exact hF j hj hmem
    · exact absurd h.old (not_lt.2 hmem)

theorem Vacant.assign {a : SlotArray} {n i : ℕ} (h : sc.Vacant a n i) (s : Signal) :
    (sc.assign s).Vacant a n i := ⟨h.owner, h.taken, h.shape, h.old, h.free⟩

/-- **A child as its parent finds it**: what it provides can be read, and its inputs are
    still to be assigned. -/
structure Placed (sc : Scene) (f : PrimeField) (ins outs : List Declaration)
    (Pre Post : (Signal → ZMod f.p) → Prop) (F : Set (ℕ × List ℕ)) (N : Set String)
    (c : Component) (sts : List Statement) (sc₁ : Scene) : Prop where
  terminal : ∀ n, c.terminal? n = ((ins ++ outs).find? (·.name == n)).map (·.bus)
  names : sc₁.names ⊆ sc.names ∪ N
  declarations : sc₁.declarations = sc.declarations
  isOpen : ∀ x ∈ Declaration.flat ins, sc₁.Open x
  nodup : ((Declaration.flat ins).map (·.uid)).Nodup
  given : ∀ s ∈ Declaration.flat outs, s ∈ sc₁.signals ∧ (sc.signals.length : ℤ) ≤ s.uid
  means : Means f sts Pre Post
  effect : ∀ {ys sc₂ I}, sc₁.Effect ys sc₂ I (Signal.numbers (Declaration.flat ins)) ∅ →
    sc₂.signals = sc₁.signals → sc.Effect (sts ++ ys) sc₂ I
      (Set.Ico (sc.signals.length : ℤ) sc₂.signals.length) F

/-- **A child and the assignments of its inputs** are one step: all signals of the child
    get rules. -/
theorem Placed.fed {Pre₀ Given : (Signal → ZMod f.p) → Prop} {c : Component}
    (h : sc.Placed f ins outs Pre Post F N c xs sc₁)
    (h' : sc₁.Step f ys sc₂ I (Signal.numbers (Declaration.flat ins)) ∅ ∅ Pre₀ Given)
    (hsig : sc₂.signals = sc₁.signals) (hpre : ∀ v, Pre₀ v → Given v → Pre v) :
    sc.Step f (xs ++ ys) sc₂ I (Set.Ico (sc.signals.length : ℤ) sc₂.signals.length) F N Pre₀
      fun v => Given v ∧ Post v where
  toEffect := h.effect h'.toEffect hsig
  names := by
    have hnames := h'.names
    rw [Set.union_empty] at hnames
    exact hnames.trans h.names
  terminals := h'.terminals.trans (congrArg _ h.declarations)
  means := (h'.means.append (h.means.mono (fun v hv => hpre v hv.1 hv.2) fun _ h => h)).perm
    List.perm_append_comm

/-- A child with one input. -/
theorem Placed.fedSingle {Pre₀ : (Signal → ZMod f.p) → Prop} {c : Component} {n : String}
    {x : Signal} {e : Expr} {d : (Signal → ZMod f.p) → ZMod f.p}
    (h : sc.Placed f [⟨n, .input, .single x⟩] outs Pre Post F N c xs sc₁)
    (he : e.Form f (sc₁.within I) d) (path : String) (hpre : ∀ v, Pre₀ v → v x = d v → Pre v) :
    sc.Step f (xs ++ [.assign path x e]) (sc₁.assign x) I
      (Set.Ico (sc.signals.length : ℤ) sc₁.signals.length) F N Pre₀
      fun v => v x = d v ∧ Post v := by
  refine h.fed ((sc₁.step_assign he (fun s hs => hs.2) path x).mono subset_rfl ?_ subset_rfl
    subset_rfl (fun _ _ => trivial) fun _ h => h) rfl hpre
  simp [Signal.numbers_singleton]

/-- All signals of a child get rules once its inputs get theirs. -/
theorem Provides.fed (h : (sc.enter id name).Provides f ins outs Pre Post xs sc')
    (hsig : sc₁.signals = sc'.signals) (hass : sc₁.assigned = sc'.assigned)
    (hfill : sc₁.filled ⊆ sc'.filled ∪ F) (harrays : sc₁.arrays = sc'.arrays)
    (h' : sc₁.Effect ys sc₂ I (Signal.numbers (Declaration.flat ins)) ∅)
    (hlen : sc₂.signals = sc₁.signals) :
    sc.Effect (xs ++ ys) sc₂ I (Set.Ico (sc.signals.length : ℤ) sc₂.signals.length) F where
  assigned := by
    have hsize := h.size
    have hbefore : (sc.enter id name).assigned = sc.assigned := rfl
    rw [h'.assigned, hass, h.effect.assigned, Set.union_assoc, h.numbers.numbers, hlen, hsig,
      hbefore]
    congr 1
    ext u
    simp only [Set.mem_union, Set.mem_Ico, enter_signals] at hsize ⊢
    omega
  filled := by
    intro k hk
    rcases h'.filled hk with (hk | hk) | hk
    · rcases hfill hk with hk | hk
      · exact (h.effect.filled hk).imp (Or.imp_right False.elim) fun hk => hk
      · exact Or.inl (Or.inr hk)
    · exact hk.elim
    · exact Or.inr (h.effect.arrays.trans (harrays ▸ hk))
  arrays := h.effect.arrays.trans (harrays ▸ h'.arrays)
  reach := by
    intro P hP hI u hu
    rw [List.forall_mem_append] at hP
    have hins := h'.reach P hP.2 hI
    have hrest := h.effect.reach P hP.1 hins
    rw [h.numbers.numbers] at hins
    rw [hlen, hsig] at hu
    by_cases hlt : u < sc.signals.length + (Declaration.flat ins).length
    · exact hins ⟨hu.1, hlt⟩
    · exact hrest ⟨by simpa using hlt, hu.2⟩

theorem Provides.placed (h : (sc.enter id name).Provides f ins outs Pre Post xs sc')
    (hfit : sc.Fit) {c : Component} (hc : c.declarations = sc'.declarations)
    (hpath : sc₁.path = sc.path) (hname : name ∈ sc₁.children) (hsig : sc₁.signals = sc'.signals)
    (hass : sc₁.assigned = sc'.assigned) (hfill : sc₁.filled ⊆ sc'.filled ∪ F)
    (harrays : sc₁.arrays = sc'.arrays) (hnames : sc₁.names ⊆ sc.names ∪ N)
    (hdecl : sc₁.declarations = sc.declarations) :
    sc.Placed f ins outs Pre Post F N c xs sc₁ where
  terminal := fun n => by rw [Component.terminal?_eq hc, h.terminals]
  names := hnames
  declarations := hdecl
  isOpen := fun x hx => by
    obtain ⟨hmem, hkind, hcomp⟩ := h.made x hx
    refine ⟨hsig ▸ hmem, Or.inr ⟨hkind, name, hname, by rw [hcomp, hpath]; rfl⟩, ?_⟩
    have hnum : x.uid ∈ Signal.numbers (Declaration.flat ins) := Signal.mem_numbers hx
    rw [h.numbers.numbers] at hnum
    rw [hass, h.effect.assigned]
    rintro (hmem | hmem)
    · exact hfit.not_mem hnum.1 hmem
    · simp only [Set.mem_Ico, enter_signals] at hnum hmem
      omega
  nodup := h.numbers.nodup
  given := fun s hs => by
    obtain ⟨hmem, hle⟩ := h.given s hs
    simp only [enter_signals] at hle
    exact ⟨hsig ▸ hmem, by omega⟩
  means := h.means
  effect := fun h' hlen => h.fed hsig hass hfill harrays h' hlen

end

end Scene

namespace Build

variable {σ : Type} {sc : Scene} {f : PrimeField} {t : Template σ} {name : String}
  {Q : Component → List Statement → Scene → Prop}

/-- **A named child, by what it provides.** -/
theorem succeeds_placed (hname : name ∉ sc.names)
    (hbody : ∀ id, t.body.Succeeds (sc.enter id name) fun _ sts sc' => ∃ ins outs Pre Post,
      (sc.enter id name).Provides f ins outs Pre Post sts sc' ∧
      (sc.policy = .warn ∨ sc'.children = ∅) ∧
      ∀ c sc₁, sc.Placed f ins outs Pre Post ∅ {name} c sts sc₁ → Q c sts sc₁) :
    (component name t).Succeeds sc Q := by
  refine .fit fun hfit => succeeds_component hname fun id => (hbody id).mono ?_
  rintro _ sts sc' - - ⟨ins, outs, Pre, Post, hprov, hquiet, hQ⟩
  refine ⟨hquiet, fun c hc => hQ c _ (hprov.placed hfit hc rfl (Set.mem_insert _ _) rfl rfl
    Set.subset_union_left rfl ?_ rfl)⟩
  rw [Set.union_comm]
  exact subset_rfl

/-- **A child in a place of an array, by what it provides.** -/
theorem succeeds_filled {a : SlotArray} {i n : ℕ} (h : sc.Vacant a n i) (hi : i < n)
    (hbody : ∀ id name, t.body.Succeeds (sc.enter id name) fun _ sts sc' => ∃ ins outs Pre Post,
      (sc.enter id name).Provides f ins outs Pre Post sts sc' ∧
      (sc.policy = .warn ∨ sc'.children = ∅) ∧
      ∀ c sc₁, sc.Placed f ins outs Pre Post {(a.id, [i])} ∅ c sts sc₁ → Q c sts sc₁) :
    (fill a i t).Succeeds sc Q := by
  refine .fit fun hfit => succeeds_fill h.owner h.taken h.shape hi h.old (h.free i le_rfl)
    fun id => (hbody id _).mono ?_
  rintro _ sts sc' - - ⟨ins, outs, Pre, Post, hprov, hquiet, hQ⟩
  refine ⟨hquiet, fun c hc => hQ c _ (hprov.placed hfit hc rfl (Set.mem_insert _ _) rfl rfl ?_ rfl
    Set.subset_union_left rfl)⟩
  rw [Set.union_comm]
  exact subset_rfl

/-- **The inputs of a child are assigned one linear form each.** -/
theorem succeeds_feed (ts : List Signal) (Pre₀ : (Signal → ZMod f.p) → Prop)
    {ins outs : List Declaration} {Pre Post : (Signal → ZMod f.p) → Prop}
    {F : Set (ℕ × List ℕ)} {N : Set String} {c : Component} {xs : List Statement} {sc₁ : Scene}
    {T : Set Signal} {I : Set ℤ} {es : List Expr} {ds : List ((Signal → ZMod f.p) → ZMod f.p)}
    (h : sc.Placed f ins outs Pre Post F N c xs sc₁) (hgrows : sc.Grows sc₁) (hf : sc₁.field = f)
    (hts : Declaration.flat ins = ts) (hes : List.Forall₂ (fun e d => e.Line f T d) es ds)
    (hlen : ts.length = es.length) (hT : ∀ s ∈ T, s ∈ sc.signals ∧ s.uid ∈ I)
    (hpre : ∀ v, Pre₀ v → List.Forall₂ (fun t d => v t = d v) ts ds → Pre v) :
    (assignAll ts es : Build σ Unit).Succeeds sc₁ fun _ ys sc₂ => sc₂ = sc₁.assignAll ts ∧
      sc.Step f (xs ++ ys) sc₂ I (Set.Ico (sc.signals.length : ℤ) sc₂.signals.length) F N Pre₀
        fun v => List.Forall₂ (fun t d => v t = d v) ts ds ∧ Post v := by
  subst hts
  refine (succeeds_assignAll hf h.isOpen h.nodup hlen hes fun s hs =>
    ⟨hgrows.mem (hT s hs).1, (hT s hs).2⟩).mono ?_
  rintro _ ys sc₂ - - ⟨rfl, hstep⟩
  exact ⟨rfl, h.fed (hstep.imp (fun _ _ => trivial) fun _ h => h) rfl hpre⟩

end Build

end RankOne
