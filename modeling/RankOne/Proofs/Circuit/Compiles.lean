/-
  RankOne — which expanded templates compile.

  * `bindFrom_of_nodup`: distinct signals can be placed;
  * `Repeated`, `pairwise_layout`, `nodup_layout_iff`: the signals of a layout are distinct,
    but for those of an input whose name is repeated;
  * `Order.evaluationOrder_of_reached`: rules can be ordered if every target is reached
    from the signals without rules;
  * `lower_of_linear`: a row of linear forms over placed signals gets positions;
  * `ofWorkspace_of_complete`: so a workspace compiles in which nothing is missing.
-/
import RankOne.Proofs.Circuit.Arranged
import RankOne.Proofs.Circuit.Schedule
import RankOne.Proofs.Witness.Rules

namespace RankOne

theorem exists_bind_eq_ok {ε α β : Type} {x : Except ε α} {g : α → Except ε β} :
    (∃ b, x >>= g = .ok b) ↔ ∃ a, x = .ok a ∧ ∃ b, g a = .ok b := by
  simp only [bind_eq_ok]
  constructor
  · rintro ⟨b, a, ha, hb⟩
    exact ⟨a, ha, b, hb⟩
  · rintro ⟨a, ha, b, hb⟩
    exact ⟨b, a, ha, hb⟩

/-! ## Order -/

namespace Order

variable {rules : List Rule}

/-- Nothing accessible stands on a cycle. -/
theorem not_transGen_of_acc {α : Type} {R : α → α → Prop} {a : α} (h : Acc R a) :
    ¬ Relation.TransGen R a a := by
  have hacc := h.transGen
  clear h
  induction hacc with
  | intro a _ ih => exact fun hcycle => ih a hcycle hcycle

/-- **Rules can be ordered if every target is reached from the signals without rules.** -/
theorem evaluationOrder_of_reached (hsingle : (rules.map (·.target.uid)).Nodup)
    (hreach : ∀ P : Set ℤ, (∀ r ∈ rules, (∀ s ∈ r.reads, s.uid ∈ P) → r.target.uid ∈ P) →
      (∀ u, (∀ r ∈ rules, r.target.uid ≠ u) → u ∈ P) → ∀ r ∈ rules, r.target.uid ∈ P) :
    ∃ order, evaluationOrder rules = .ok order := by
  rcases horder : evaluationOrder rules with e | order
  · -- the numbers all of whose rules are accessible hold every target
    obtain ⟨cycle, hcycle, -⟩ := evaluationOrder_eq_error hsingle horder
    obtain ⟨r, hr, hback⟩ := hcycle.transGen
    have hacc := hreach {u | ∀ q ∈ rules, q.target.uid = u → Acc (Linked rules) q} ?_ ?_ r hr
    · exact absurd hback (not_transGen_of_acc (hacc r hr rfl))
    · intro q hq hreads q' hq' hsame
      obtain rfl := List.inj_on_of_nodup_map hsingle hq' hq hsame
      refine ⟨_, fun x hx => ?_⟩
      obtain ⟨hx, -, s, hs, hu⟩ := hx
      exact hreads s hs x hx hu.symm
    · exact fun u hu q hq hsame => absurd hsame (hu q hq)
  · exact ⟨order, rfl⟩

end Order

/-- A signal belongs to one declaration. -/
theorem Instance.Listed.eq_of_mem {c : Instance} (h : c.Listed) {d d' : Declaration}
    (hd : d ∈ c.declarations) (hd' : d' ∈ c.declarations) {s : Signal} (hs : s ∈ d.bus.flat)
    (hs' : s ∈ d'.bus.flat) : d = d' := by
  have hdisjoint := (List.nodup_flatMap.1 (nodup_of_ascending h.ascending)).2
  have : Std.Symm (Function.onFun List.Disjoint fun d : Declaration => d.bus.flat) :=
    ⟨fun _ _ hxy => hxy.symm⟩
  by_contra hne
  exact hdisjoint.forall hd hd' hne hs hs'

namespace Circuit

section
variable {w : Workspace} {public_ : List String}

/-! ## Positions -/

/-- **Distinct signals without positions can be placed.** -/
theorem bindFrom_of_nodup : ∀ {ss : List Signal} (i : ℕ) {w : Workspace}, ss.Nodup →
    (∀ s ∈ ss, w.position? s = none) → ∃ w', bindFrom i ss w = .ok w'
  | [], _, w, _, _ => ⟨w, rfl⟩
  | s :: ss, i, w, hnodup, hfree => by
    obtain ⟨hs, hnodup⟩ := List.nodup_cons.1 hnodup
    obtain ⟨hfs, hfree⟩ := List.forall_mem_cons.1 hfree
    have hlater : ∀ t ∈ ss,
        Workspace.position? { w with positions := (s, .of i) :: w.positions } t = none := by
      intro t ht
      have hne : t ≠ s := fun h => hs (h ▸ ht)
      rw [position?_placed_of_ne hne]
      exact hfree t ht
    obtain ⟨w', hw'⟩ := bindFrom_of_nodup (i + 1) hnodup hlater
    exact ⟨w', by rw [bindFrom, bindPosition_of_none hfs]; exact hw'⟩

/-- A signal of an input that is named more than once. -/
def Repeated (main : Instance) (names : List String) (s : Signal) : Prop :=
  ∃ d ∈ main.withRole .input, 2 ≤ names.count d.name ∧ s ∈ d.bus.flat

section
variable (hs : w.Sound) (hl : w.Listed)
  (hp : ∀ n ∈ public_, ∃ d ∈ (w.instanceAt 0).withRole .input, d.name = n)
include hl hp

/-- Public inputs share no signal unless a name is repeated. -/
theorem pairwise_publics : (public_.flatMap (inputSignals (w.instanceAt 0))).Pairwise
    fun s t => s = t → Repeated (w.instanceAt 0) public_ s := by
  have hflat := (List.nodup_flatMap.1 (nodup_of_ascending (hl 0).ascending)).1
  refine List.pairwise_flatMap.2 ⟨fun n hn => ?_, List.pairwise_iff_forall_sublist.2 ?_⟩
  · obtain ⟨d, hd, rfl⟩ := hp n hn
    rw [inputSignals_name hl hd]
    exact (hflat d (List.mem_of_mem_filter hd)).imp fun hne heq => absurd heq hne
  · rintro n m hnm s hsn _ hsm rfl
    obtain ⟨d, hd, rfl⟩ := hp n (hnm.subset (by simp))
    obtain ⟨d', hd', rfl⟩ := hp m (hnm.subset (by simp))
    rw [inputSignals_name hl hd] at hsn
    rw [inputSignals_name hl hd'] at hsm
    obtain rfl := (hl 0).eq_of_mem (List.mem_of_mem_filter hd) (List.mem_of_mem_filter hd') hsn hsm
    exact ⟨d, hd, List.replicate_sublist_iff.1 hnm, hsn⟩

/-- The inputs of the main component, the public ones first. -/
theorem pairwise_inputs : (public_.flatMap (inputSignals (w.instanceAt 0)) ++
    (blocks (w.instanceAt 0) public_).2.2).Pairwise
      fun s t => s = t → Repeated (w.instanceAt 0) public_ s := by
  have hprivate : ((blocks (w.instanceAt 0) public_).2.2).Nodup := nodup_of_ascending
    ((hl 0).ascending.sublist ((List.filter_sublist.trans List.filter_sublist).flatMap _))
  refine List.pairwise_append.2 ⟨pairwise_publics hl hp,
    hprivate.imp fun hne heq => absurd heq hne, ?_⟩
  rintro s hpub _ hpriv rfl
  obtain ⟨d, hd, hn, hsd⟩ := (mem_publics hl hp).1 hpub
  obtain ⟨d', hd', hsd'⟩ := List.mem_flatMap.1 hpriv
  obtain ⟨hd', hn'⟩ := List.mem_filter.1 hd'
  obtain rfl := (hl 0).eq_of_mem (List.mem_of_mem_filter hd) (List.mem_of_mem_filter hd') hsd hsd'
  simp [hn] at hn'

include hs

theorem isMain_of_input {s : Signal} (h : s ∈ public_.flatMap (inputSignals (w.instanceAt 0)) ++
    (blocks (w.instanceAt 0) public_).2.2) : isMain .input s = true := by
  rcases List.mem_append.1 h with h | h
  · obtain ⟨d, hd, -, hsd⟩ := (mem_publics hl hp).1 h
    exact ((mem_withRole_main hs).1 (List.mem_flatMap.2 ⟨d, hd, hsd⟩)).2
  · obtain ⟨d, hd, hsd⟩ := List.mem_flatMap.1 h
    exact ((mem_withRole_main hs).1
      (List.mem_flatMap.2 ⟨d, List.mem_of_mem_filter hd, hsd⟩)).2

/-- **The signals of a layout are distinct**, but for those of an input whose name is
    repeated. -/
theorem pairwise_layout : (layout w (w.instanceAt 0) public_).Pairwise
    fun s t => s = t → Repeated (w.instanceAt 0) public_ s := by
  have hall : w.signals.toList.Nodup := nodup_of_ascending hs.numbered.pairwise
  have hdistinct (q : Signal → Bool) : (w.signals.toList.filter q).Pairwise
      fun s t => s = t → Repeated (w.instanceAt 0) public_ s :=
    (hall.filter q).imp fun hne heq => absurd heq hne
  have hin {s : Signal} := isMain_of_input (s := s) hs hl hp
  have hout {s : Signal} (h : s ∈ outputsOf w.signals.toList) : isMain .output s = true :=
    List.of_mem_filter h
  have hother {s : Signal} (h : s ∈ othersOf w.signals.toList) :
      s.kind ≠ .one ∧ isMain .output s = false ∧ isMain .input s = false := by
    simpa [and_assoc] using List.of_mem_filter h
  rw [layout_eq hs hl hp, List.append_assoc (outputsOf _)]
  refine List.pairwise_cons.2 ⟨?_, List.pairwise_append.2 ⟨List.pairwise_append.2
    ⟨hdistinct _, pairwise_inputs hl hp, ?_⟩, hdistinct _, ?_⟩⟩
  · rintro _ hone rfl
    rcases List.mem_append.1 hone with h | h
    · rcases List.mem_append.1 h with h | h
      · cases hout h
      · cases hin h
    · exact absurd rfl (hother h).1
  · rintro s ho _ hi rfl
    have ho := hout ho
    have hi := hin hi
    simp only [isMain, Bool.and_eq_true, beq_iff_eq] at ho hi
    rw [ho.1] at hi
    cases hi.1
  · rintro s hm _ ho rfl
    obtain ⟨-, ho, hi⟩ := hother ho
    rcases List.mem_append.1 hm with h | h
    · rw [hout h] at ho
      cases ho
    · rw [hin h] at hi
      cases hi

theorem nodup_layout_iff : (layout w (w.instanceAt 0) public_).Nodup ↔
    ∀ s, ¬ Repeated (w.instanceAt 0) public_ s := by
  constructor
  · rintro hnodup s ⟨d, hd, hcount, hsd⟩
    rw [layout_eq hs hl hp] at hnodup
    have hpublics := (hnodup.of_cons.of_append_left).of_append_left.of_append_right
    have htwice : ([d.name, d.name].flatMap (inputSignals (w.instanceAt 0))).Sublist
        (public_.flatMap (inputSignals (w.instanceAt 0))) :=
      (List.replicate_sublist_iff.2 hcount).flatMap _
    have hdisjoint := (List.nodup_flatMap.1 (hpublics.sublist htwice)).2
    rw [List.pairwise_pair, Function.onFun, inputSignals_name hl hd] at hdisjoint
    exact hdisjoint hsd hsd
  · intro hnone
    refine (pairwise_layout hs hl hp).imp fun hst heq => ?_
    exact hnone _ (hst heq)

theorem nodup_layout (hnodup : public_.Nodup) :
    (layout w (w.instanceAt 0) public_).Nodup := by
  refine (nodup_layout_iff hs hl hp).2 ?_
  rintro s ⟨d, -, hcount, -⟩
  have hle := List.nodup_iff_count_le_one.1 hnodup d.name
  omega

end

/-! ## Rows -/

/-- **A form gets positions exactly if it is linear over placed signals.** -/
theorem exists_ofExpr_iff {index : Signal → Except Error Int} {e : Expr} :
    (∃ l, Combination.ofExpr index e = .ok l) ↔
      e.products = [] ∧ ∀ t ∈ e.linear, ∃ i, index t.1 = .ok i := by
  have hfold (ts : Terms) : ∀ acc : List (Int × ℕ), (∃ l, ts.foldlM (fun acc t => do
      return Combination.accumulate e.field.p (← index t.1) t.2 acc) acc = .ok l) ↔
        ∀ t ∈ ts, ∃ i, index t.1 = .ok i := by
    induction ts with
    | nil => exact fun acc => ⟨fun _ _ ht => absurd ht List.not_mem_nil, fun _ => ⟨acc, rfl⟩⟩
    | cons t ts ih =>
      intro acc
      rw [List.foldlM_cons, exists_bind_eq_ok, List.forall_mem_cons]
      constructor
      · rintro ⟨acc', hacc, hrest⟩
        obtain ⟨i, hi, -⟩ := bind_eq_ok.1 hacc
        exact ⟨⟨i, hi⟩, (ih acc').1 hrest⟩
      · rintro ⟨⟨i, hi⟩, hrest⟩
        exact ⟨_, bind_eq_ok.2 ⟨i, hi, rfl⟩, (ih _).2 hrest⟩
  constructor
  · rintro ⟨l, hl⟩
    obtain ⟨hp, ts, hts, -⟩ := Combination.ofExpr_eq_ok hl
    exact ⟨hp, (hfold e.linear _).1 ⟨ts, hts⟩⟩
  · rintro ⟨hp, hi⟩
    rw [Combination.ofExpr, if_neg (by simp [hp])]
    exact exists_bind_eq_ok.2 ((hfold e.linear _).2 hi |>.imp fun ts hts => ⟨hts, _, rfl⟩)

/-- A linear form over placed signals gets positions. -/
theorem ofExpr_of_linear {index : Signal → Except Error Int} {e : Expr} (hp : e.products = [])
    (hi : ∀ t ∈ e.linear, ∃ i, index t.1 = .ok i) : ∃ l, Combination.ofExpr index e = .ok l :=
  exists_ofExpr_iff.2 ⟨hp, hi⟩

/-- A linear form over some signals. -/
def IsLinearOver (S : Set Signal) (e : Expr) : Prop := e.products = [] ∧ ∀ t ∈ e.linear, t.1 ∈ S

theorem exists_lower_iff {r : Row} : (∃ k, lower w r = .ok k) ↔
    (∃ a, Combination.ofExpr w.position r.a = .ok a) ∧
      (∃ b, Combination.ofExpr w.position r.b = .ok b) ∧
        ∃ c, Combination.ofExpr w.position r.c = .ok c := by
  simp only [lower, bind_eq_ok, pure_eq_ok]
  constructor
  · rintro ⟨k, a, ha, b, hb, c, hc, -⟩
    exact ⟨⟨a, ha⟩, ⟨b, hb⟩, c, hc⟩
  · rintro ⟨⟨a, ha⟩, ⟨b, hb⟩, c, hc⟩
    exact ⟨_, a, ha, b, hb, c, hc, rfl⟩

theorem lower_of_linear {S : Set Signal} {r : Row} (ha : IsLinearOver S r.a)
    (hb : IsLinearOver S r.b) (hc : IsLinearOver S r.c)
    (hi : ∀ s ∈ S, ∃ i, w.position s = .ok i) : ∃ k, lower w r = .ok k := by
  have hside {e : Expr} (he : IsLinearOver S e) : ∃ l, Combination.ofExpr w.position e = .ok l :=
    ofExpr_of_linear he.1 fun t ht => hi _ (he.2 t ht)
  exact exists_lower_iff.2 ⟨hside ha, hside hb, hside hc⟩

theorem checkPublic_of_inputs {main : Instance}
    (hp : ∀ n ∈ public_, ∃ d ∈ main.withRole .input, d.name = n) :
    checkPublic main public_ = .ok () := by
  have hnone : public_.find? (fun n => !(main.withRole .input).any (·.name == n)) = none := by
    simpa using hp
  rw [checkPublic, hnone]

/-- Rules over signals with different numbers compare no two of them. -/
theorem checkReads_of_over {f : PrimeField} {S : Set Signal} (hS : Set.InjOn Signal.uid S)
    {rules : List Rule} (htargets : ∀ r ∈ rules, r.target ∈ S)
    (hexprs : ∀ r ∈ rules, ∀ e ∈ r.exprs, e.Over f S) : checkReads rules = .ok () := by
  have hstored : ∀ t ∈ rules.map (·.target), t ∈ S := by
    intro t ht
    obtain ⟨r, hr, rfl⟩ := List.mem_map.1 ht
    exact htargets r hr
  have hreads : ∀ r ∈ rules, r.checkReads = .ok () := by
    intro r hr
    have hover := hexprs r hr
    unfold Rule.exprs at hover
    unfold Rule.checkReads
    cases ha : r.action with
    | assign e =>
      rw [ha] at hover
      exact Clash.checkSignals_ok hS (by simp) (Clash.mem_mentioned (hover e List.mem_cons_self))
    | hint h deps =>
      rw [ha] at hover
      refine Clash.checkSignals_ok hS (by simp) fun s hs => ?_
      obtain ⟨e, he, hse⟩ := List.mem_flatMap.1 hs
      exact Clash.mem_mentioned (hover e he) s hse
  refine forM_ok fun r hr => bind_eq_ok.2 ⟨(), hreads r hr, ?_⟩
  exact Clash.checkTable_ok hS hstored (Rule.reads_subset (hexprs r hr))

/-- The steps of a compilation after its expansion. -/
theorem exists_ofWorkspace {settings : Settings} {w' : Workspace}
    (hcheck : checkPublic (w.instanceAt 0) public_ = .ok ()) (htargets : checkTargets w = .ok ())
    (hun : unassigned w = []) (hreads : checkReads w.draft.rules.toList = .ok ())
    (horder : ∃ order, Order.evaluationOrder w.draft.rules.toList = .ok order)
    (hbind : bindFrom 0 (layout w (w.instanceAt 0) public_) w = .ok w')
    (hlower : ∃ constraints, w'.draft.rows.toList.mapM (lower w') = .ok constraints) :
    ∃ c, ofWorkspace settings w 0 public_ = .ok c := by
  obtain ⟨order, horder⟩ := horder
  obtain ⟨constraints, hlower⟩ := hlower
  refine exists_bind_eq_ok.2 ⟨(), hcheck, exists_bind_eq_ok.2 ⟨(), htargets, ?_⟩⟩
  dsimp only
  rw [if_neg (by simp [hun])]
  refine exists_bind_eq_ok.2 ⟨(), hreads, exists_bind_eq_ok.2 ⟨order, horder, ?_⟩⟩
  refine exists_bind_eq_ok.2 ⟨_, hbind, ?_⟩
  exact exists_bind_eq_ok.2 ⟨constraints, hlower, _, rfl⟩

/-- **A workspace compiles in which nothing is missing**: every signal has a rule that can
    be run, and the rows are made of linear forms. -/
theorem ofWorkspace_of_complete (settings : Settings) (hs : w.Sound) (hl : w.Listed)
    (hpos : w.positions = [])
    (hp : ∀ n ∈ public_, ∃ d ∈ (w.instanceAt 0).withRole .input, d.name = n)
    (hnodup : public_.Nodup) (hun : unassigned w = [])
    (htargets : ∀ r ∈ w.draft.rules.toList, r.target ∈ w.signals)
    (hexprs : ∀ r ∈ w.draft.rules.toList, ∀ e ∈ r.exprs, e.Over w.field {s | s ∈ w.signals})
    (horder : ∃ order, Order.evaluationOrder w.draft.rules.toList = .ok order)
    (hrows : ∀ r ∈ w.draft.rows.toList, IsLinearOver {s | s ∈ w.signals} r.a ∧
      IsLinearOver {s | s ∈ w.signals} r.b ∧ IsLinearOver {s | s ∈ w.signals} r.c) :
    ∃ c, ofWorkspace settings w 0 public_ = .ok c := by
  have hS : Set.InjOn Signal.uid {s | s ∈ w.signals} := fun s h t ht =>
    hs.numbered.eq_of_uid h ht
  have hstored : ∀ t ∈ w.draft.rules.toList.map (·.target), t ∈ {s | s ∈ w.signals} := by
    intro t ht
    obtain ⟨r, hr, rfl⟩ := List.mem_map.1 ht
    exact htargets r hr
  have hcomputed : ∀ s ∈ computed w, s ∈ {s | s ∈ w.signals} := fun s hmem =>
    Array.mem_toList_iff.1 (List.mem_of_mem_filter hmem)
  obtain ⟨w', hbind⟩ := bindFrom_of_nodup 0 (nodup_layout hs hl hp hnodup) (w := w)
    fun s hmem => by
      rw [Workspace.position?, hs.own s ((mem_layout hs).1 hmem), hpos]
      rfl
  obtain ⟨-, ⟨ps, rfl⟩, -, hplace⟩ := bindFrom_spec hbind
  refine exists_ofWorkspace (checkPublic_of_inputs hp) (Clash.checkTable_ok hS hstored hcomputed)
    hun (checkReads_of_over hS htargets hexprs) horder hbind (mapM_ok fun r hr => ?_)
  obtain ⟨ha, hb, hc⟩ := hrows r hr
  refine lower_of_linear ha hb hc fun s hmem => ?_
  have hlayout : s ∈ layout w (w.instanceAt 0) public_ := (mem_layout hs).2 hmem
  obtain ⟨k, hk⟩ := List.mem_iff_getElem?.1 hlayout
  exact ⟨_, by rw [Workspace.position, hplace k s hk]⟩

end

end Circuit

end RankOne
