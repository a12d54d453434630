/-
  RankOne — what a compiled circuit is made of.

  * `Circuit.Coherent`: the signals stand at their places, the rules are those
    of the executed statements in an order that respects what they read, and the
    rows are those of the executed statements, one each and in order;
  * `compile_coherent`: every compiled circuit is coherent.
-/
import RankOne.Proofs.Circuit.Layout
import RankOne.Proofs.Circuit.Order
import RankOne.Proofs.Expr.Clash
import RankOne.Proofs.System

namespace RankOne

theorem forall₂_comp {α β γ : Type} {R : α → β → Prop} {S : β → γ → Prop} {xs : List α}
    {ys : List β} {zs : List γ} (h : List.Forall₂ R xs ys) (h' : List.Forall₂ S ys zs) :
    List.Forall₂ (fun x z => ∃ y, R x y ∧ S y z) xs zs := by
  induction h generalizing zs with
  | nil => cases h'; exact .nil
  | cons hr _ ih =>
    cases h' with
    | cons hs h' => exact .cons ⟨_, hr, hs⟩ (ih h')

theorem forall₂_getElem? {α β : Type} {R : α → β → Prop} : ∀ {xs : List α} {ys : List β} {k : ℕ}
    {y : β}, List.Forall₂ R xs ys → ys[k]? = some y → ∃ x, xs[k]? = some x ∧ R x y
  | _, _, 0, _, .cons hr _, h => by cases h; exact ⟨_, rfl, hr⟩
  | _, _, k + 1, _, .cons _ hrs, h => by
    simp only [List.getElem?_cons_succ] at h ⊢
    exact forall₂_getElem? hrs h

/-- A row over signals, with its signals replaced by positions. -/
structure Constraint.Lowers (index : Signal → Except Error Int) (row : Row) (r : Constraint) :
    Prop where
  a : Combination.ofExpr index row.a = .ok r.a
  b : Combination.ofExpr index row.b = .ok r.b
  c : Combination.ofExpr index row.c = .ok r.c
  origin : r.origin = row.origin

namespace Circuit

theorem lower_eq_ok {w : Workspace} {row : Row} {r : Constraint} (h : lower w row = .ok r) :
    r.Lowers w.position row := by
  simp only [lower, bind_eq_ok] at h
  obtain ⟨a, ha, b, hb, c, hc, h⟩ := h
  cases h
  exact ⟨ha, hb, hc, rfl⟩

/-- A circuit and the statements that were executed to build it. -/
structure Coherent (c : Circuit) (sts : List Statement) : Prop where
  prime : c.system.prime = c.field.p
  size : c.system.signals = c.signals.size
  first : c.signals[0]? = some (Workspace.one c.field)
  place : ∀ i s, c.signals[i]? = some s → c.place s = i
  field : ∀ s ∈ c.signals, s.field = c.field
  own : ∀ s ∈ c.signals, s.source = .own
  kind : ∀ s ∈ c.signals, s.kind = .one → s = Workspace.one c.field
  uid : ∀ s ∈ c.signals, ∀ t ∈ c.signals, s.uid = t.uid → s = t
  inputs : ∀ s, s ∈ Witness.inputSignals c ↔ s ∈ c.signals ∧ isMainInput s = true
  /-- a signal is the constant, a main input, or computed -/
  cover : ∀ s ∈ c.signals,
    s = Workspace.one c.field ∨ isMainInput s = true ∨ ∃ r ∈ c.rules, r.target = s
  rules : c.rules.Perm (sts.filterMap Statement.rule?)
  respects : Order.Respects c.rules
  targets : ∀ r ∈ c.rules, r.target.kind ≠ .one ∧ isMainInput r.target = false
  single : (c.rules.map (·.target.uid)).Nodup
  rows : ∃ index, (∀ s ∈ c.signals, index s = .ok (c.place s : Int)) ∧
    List.Forall₂ (fun st r => ∃ row, st.Emits row ∧ r.Lowers index row)
      (sts.filter Statement.emitsRow) c.system.constraints
  accepted : ∀ st ∈ sts, st.Accepted

namespace Coherent

variable {c : Circuit} {sts : List Statement} (hc : c.Coherent sts) {s u : Signal}
include hc

/-- A signal stands at its place. -/
theorem getElem?_signals (hs : s ∈ c.signals) : c.signals[c.place s]? = some s := by
  obtain ⟨i, hi⟩ := Array.mem_iff_getElem?.1 hs
  rw [hc.place i s hi]; exact hi

/-- The position of a signal of the circuit is its place. -/
theorem index_eq (hs : s ∈ c.signals) : c.index s = .ok (c.place s) := by
  rw [index, hc.own s hs]
  exact if_pos (hc.getElem?_signals hs)

theorem place_inj (hs : s ∈ c.signals) (hu : u ∈ c.signals) (h : c.place s = c.place u) :
    s = u := by
  have hs' := hc.getElem?_signals hs
  rw [h, hc.getElem?_signals hu] at hs'
  exact (Option.some.inj hs').symm

theorem place_lt (hs : s ∈ c.signals) : c.place s < c.system.signals := by
  rw [hc.size]
  exact (Array.getElem?_eq_some_iff.1 (hc.getElem?_signals hs)).1

/-- Places are the positions below the number of signals. -/
theorem bijOn_place : Set.BijOn c.place {s | s ∈ c.signals} (Set.Iio c.system.signals) := by
  refine ⟨fun s hs => hc.place_lt hs, fun s hs u hu => hc.place_inj hs hu, fun i hi => ?_⟩
  rw [Set.mem_Iio, hc.size] at hi
  exact ⟨c.signals[i], Array.getElem_mem hi, hc.place i _ (Array.getElem?_eq_getElem hi)⟩

/-- A row for each statement that emits one. -/
theorem length_constraints :
    c.system.constraints.length = sts.countP Statement.emitsRow := by
  obtain ⟨_, -, hrows⟩ := hc.rows
  rw [← hrows.length_eq, List.countP_eq_length_filter]

end Coherent

section
variable {settings : Settings} {w : Workspace} {public_ : List String} {c : Circuit}

/-- The parts of a circuit. -/
theorem ofWorkspace_eq_ok (h : ofWorkspace settings w 0 public_ = .ok c) :
    unassigned w = [] ∧ Order.evaluationOrder w.draft.rules.toList = .ok c.rules ∧
    ∃ w', bindFrom 0 (layout w (w.instanceAt 0) public_) w = .ok w' ∧
      w'.draft.rows.toList.mapM (lower w') = .ok c.system.constraints ∧
      c.settings = settings ∧ c.field = w'.field ∧ c.system.prime = w'.field.p ∧
      c.system.signals = (layout w (w.instanceAt 0) public_).length ∧
      c.signals = (layout w (w.instanceAt 0) public_).toArray ∧
      c.places = w'.signals.map (fun s => match w'.position s with
        | .ok i => i.toNat
        | .error _ => 0) ∧
      c.instances = w'.instances ∧ c.main = 0 := by
  obtain ⟨-, -, h⟩ := bind_eq_ok.1 h
  obtain ⟨-, -, h⟩ := bind_eq_ok.1 h
  dsimp only at h
  split_ifs at h with hu
  obtain ⟨-, -, h⟩ := bind_eq_ok.1 h
  obtain ⟨rules, hrules, h⟩ := bind_eq_ok.1 h
  obtain ⟨w', hw', h⟩ := bind_eq_ok.1 h
  obtain ⟨constraints, hrows, h⟩ := bind_eq_ok.1 h
  cases h
  exact ⟨by simpa using hu, hrules, w', hw', hrows, rfl, rfl, rfl, rfl, rfl, rfl, rfl, rfl⟩

/-- Look-ups of signals among targets were all successful. -/
theorem checks_of_ofWorkspace (h : ofWorkspace settings w 0 public_ = .ok c) :
    checkTargets w = .ok () ∧ checkReads w.draft.rules.toList = .ok () := by
  obtain ⟨-, -, h⟩ := bind_eq_ok.1 h
  obtain ⟨⟨⟩, ht, h⟩ := bind_eq_ok.1 h
  dsimp only at h
  split_ifs at h
  obtain ⟨⟨⟩, hr, -⟩ := bind_eq_ok.1 h
  exact ⟨ht, hr⟩

/-- What a circuit says of its blocks. -/
theorem ofWorkspace_blocks (h : ofWorkspace settings w 0 public_ = .ok c) :
    (∀ n ∈ public_, ∃ d ∈ (w.instanceAt 0).withRole .input, d.name = n) ∧
      c.publicInputs = public_ ∧
      c.system.outputs = (blocks (w.instanceAt 0) public_).1.length ∧
      c.system.publicInputs = (blocks (w.instanceAt 0) public_).2.1.length ∧
      c.system.privateInputs = (blocks (w.instanceAt 0) public_).2.2.length := by
  obtain ⟨⟨⟩, hp, h⟩ := bind_eq_ok.1 h
  have hpublic : ∀ n ∈ public_, ∃ d ∈ (w.instanceAt 0).withRole .input, d.name = n := by
    unfold checkPublic at hp
    split at hp
    · cases hp
    · next hnone => simpa using hnone
  obtain ⟨-, -, h⟩ := bind_eq_ok.1 h
  dsimp only at h
  split_ifs at h
  obtain ⟨-, -, h⟩ := bind_eq_ok.1 h
  obtain ⟨rules, -, h⟩ := bind_eq_ok.1 h
  obtain ⟨w', -, h⟩ := bind_eq_ok.1 h
  obtain ⟨constraints, -, h⟩ := bind_eq_ok.1 h
  cases h
  exact ⟨hpublic, rfl, rfl, rfl, rfl⟩

/-- The position and the place of a signal of the layout. -/
theorem place_of_layout (hw : w.Sound) {w' : Workspace}
    (hb : bindFrom 0 (layout w (w.instanceAt 0) public_) w = .ok w')
    (hp : c.places = w'.signals.map fun s => match w'.position s with
      | .ok i => i.toNat
      | .error _ => 0) {k : ℕ} {s : Signal}
    (hs : (layout w (w.instanceAt 0) public_)[k]? = some s) :
    w'.position s = .ok (k : Int) ∧ c.place s = k := by
  obtain ⟨-, ⟨ps, hps⟩, -, hplace⟩ := bindFrom_spec hb
  have hpos : w'.position s = .ok (k : Int) := by
    rw [Workspace.position, hplace k s hs, Nat.zero_add]; rfl
  have hmem : s ∈ w.signals := (mem_layout hw).1 (List.mem_of_getElem? hs)
  refine ⟨hpos, ?_⟩
  have hsig : w'.signals[s.uid.toNat]? = some s := by
    rw [hps]; exact hw.numbered.getElem? hmem
  rw [Circuit.place, hp, Array.getD_eq_getD_getElem?, Array.getElem?_map, hsig, Option.map_some,
    hpos]
  rfl

/-- The main inputs are the signals declared as inputs of the main component. -/
theorem mem_inputSignals (hw : w.Sound) (hi : c.instances = w.instances) (hm : c.main = 0)
    {s : Signal} :
    s ∈ Witness.inputSignals c ↔ s ∈ w.signals ∧ isMainInput s = true := by
  have hmain : c.mainInstance = w.instanceAt 0 := by rw [mainInstance, hi, hm]; rfl
  rw [Witness.inputSignals, hmain]
  exact mem_withRole_main hw

/-- A rule that is found under the number of a signal computes it, or the look-up would
    have been refused. -/
theorem cover_of_unassigned (hw : w.Sound) (ht : checkTargets w = .ok ()) (h : unassigned w = [])
    {s : Signal} (hs : s ∈ w.signals) : s = Workspace.one w.field ∨ isMainInput s = true ∨
      ∃ r ∈ w.draft.rules.toList, r.target = s := by
  have hf := List.filter_eq_nil_iff.1 h s (Array.mem_toList_iff.2 hs)
  by_cases hk : s.kind = .one
  · exact Or.inl (hw.kind s hs hk)
  by_cases hi : isMainInput s = true
  · exact Or.inr (Or.inl hi)
  have ha : w.draft.isAssigned s = true := by simpa [hk, hi] using hf
  obtain ⟨r, hr⟩ := Option.isSome_iff_exists.1 ha
  have hmem : r ∈ w.draft.rules.toList := Array.mem_toList_iff.2 (Array.mem_of_find?_eq_some hr)
  have hcomputed : s ∈ computed w :=
    List.mem_filter.2 ⟨Array.mem_toList_iff.2 hs, by simp [hk, hi]⟩
  obtain ⟨found, hfound⟩ := Clash.checkTable_eq_ok ht s hcomputed
  have hsingle : ((w.draft.rules.toList.map (·.target)).map (·.uid)).Nodup := by
    rw [List.map_map]
    exact hw.single
  exact Or.inr (Or.inr ⟨r, hmem, (Clash.lookUpIn_eq_ok hsingle hfound).2 _
    (List.mem_map_of_mem hmem) (Signal.same_iff.1 (by simpa using Array.find?_some hr))⟩)

end

end Circuit

theorem compile_settings {σ : Type} {settings : Settings} {t : Template σ} {host : σ}
    {public_ : List String} {c : Circuit} (h : (compile settings t host public_).result = .ok c) :
    c.settings = settings := by
  obtain ⟨_, _, _, -, -, hc⟩ := compile_eq_ok h
  obtain ⟨-, -, _, -, -, hsettings, -⟩ := Circuit.ofWorkspace_eq_ok hc
  exact hsettings

/-- **Every compiled circuit is coherent with the statements executed for it.** -/
theorem compile_coherent {σ : Type} {settings : Settings} {t : Template σ} {host : σ}
    {public_ : List String} {c : Circuit} (h : (compile settings t host public_).result = .ok c) :
    c.Coherent (executed settings t host) := by
  obtain ⟨field, w, -, hrun, hc⟩ := compile_spec h
  have hw : w.Sound := hrun.sound (Workspace.opened_sound t field settings.dangling)
  obtain ⟨hun, horder, w', hb, hrows, -, hf, hp, hn, hs, hpl, hi, hm⟩ :=
    Circuit.ofWorkspace_eq_ok hc
  obtain ⟨-, ⟨ps, rfl⟩, -, -⟩ := Circuit.bindFrom_spec hb
  obtain ⟨hperm, hresp⟩ := Order.evaluationOrder_spec horder
  have hmem {s : Signal} : s ∈ c.signals ↔ s ∈ w.signals := by
    rw [hs, List.mem_toArray, Circuit.mem_layout hw]
  have hplace {k : ℕ} {s : Signal} (hk : c.signals[k]? = some s) :
      Workspace.position { w with positions := ps } s = .ok (k : Int) ∧ c.place s = k := by
    rw [hs, List.getElem?_toArray] at hk
    exact Circuit.place_of_layout hw hb hpl hk
  have hrules : w.draft.rules.toList = (executed settings t host).filterMap Statement.rule? :=
    hrun.rules
  exact
    { prime := by rw [hp, hf]
      size := by rw [hn, hs, List.size_toArray]
      first := by rw [hs, hf]; rfl
      place := fun k s hk => (hplace hk).2
      field := fun s hm => by rw [hf]; exact hw.field s (hmem.1 hm)
      own := fun s hm => hw.own s (hmem.1 hm)
      kind := fun s hm => by rw [hf]; exact hw.kind s (hmem.1 hm)
      uid := fun s hm u hu => hw.numbered.eq_of_uid (hmem.1 hm) (hmem.1 hu)
      inputs := fun s => by rw [Circuit.mem_inputSignals hw hi hm, hmem]
      cover := by
        intro s hm
        rw [hf]
        refine (Circuit.cover_of_unassigned hw (Circuit.checks_of_ofWorkspace hc).1 hun
          (hmem.1 hm)).imp id (Or.imp id ?_)
        rintro ⟨r, hr, hu⟩
        exact ⟨r, hperm.mem_iff.2 hr, hu⟩
      rules := hrules ▸ hperm
      respects := hresp
      targets := fun r hr => hw.targets r (hperm.mem_iff.1 hr)
      single := (hperm.map _).nodup_iff.2 hw.single
      rows := by
        refine ⟨Workspace.position { w with positions := ps }, fun s hm => ?_, ?_⟩
        · obtain ⟨k, hk⟩ := Array.mem_iff_getElem?.1 hm
          rw [(hplace hk).1, (hplace hk).2]
        · obtain ⟨rows, hr, hemits⟩ := hrun.rows
          rw [show w.draft.rows.toList = rows from hr] at hrows
          exact forall₂_comp hemits ((mapM_eq_ok.1 hrows).imp fun _ _ => Circuit.lower_eq_ok)
      accepted := hrun.accepted }

end RankOne
