/-
  RankOne — templates hear the outputs of their children.

  * `ensures_sole`: a child with one output;
  * `ensures_product`, `ensures_fixed`, `ensures_copy`: statements that mention an output;
  * `balanced_selectFrom`, `balanced_casesFrom`, `ensures_columnsFrom`, `ensures_swapFrom`:
    loops that place children settle what these bring;
  * `keeps_quinSelector`, `keeps_multiplexer`, `keeps_branch`, `keeps_swap`, …: no template
    ends with an output that it has not heard.
-/
import RankOne.Proofs.Gadget.Leaves

namespace RankOne.Gadget

open Build Declaration Workspace

variable {σ : Type} {W : Workspace} {here : ℕ} {g : Ledger}

/-! ## Sizes and entries -/

theorem mem_swapEntries {xs os ss ts ns bs : List Signal} {e : SwapEntry}
    (h : e ∈ swapEntries xs os ss ts ns bs) :
    e.out ∈ os ∧ e.branchS ∈ ss ∧ e.branchT ∈ ts ∧ e.branchOther ∈ bs := by
  fun_induction swapEntries with
  | case1 x xs o os s ss t ts n ns b bs ih =>
    rcases List.mem_cons.1 h with rfl | h
    · simp
    · obtain ⟨ho, hs, ht, hb⟩ := ih h
      simp [ho, hs, ht, hb]
  | case2 => cases h

/-- A row of a size that is not zero. -/
theorem ne_nil_of_size {n : Value} {xs : List Signal} (hleast : ∀ k, n.index = .ok k → 1 ≤ k)
    (h : ∃ k, n.index = .ok k ∧ xs.length = k.toNat) : xs ≠ [] := by
  obtain ⟨k, hk, hlength⟩ := h
  have hpos := hleast k hk
  rintro rfl
  rw [List.length_nil] at hlength
  omega

theorem swapEntries_ne_nil {xs os ss ts ns bs : List Signal}
    (h : ∀ l ∈ [xs, os, ss, ts, ns, bs], l ≠ []) : swapEntries xs os ss ts ns bs ≠ [] := by
  simp only [List.forall_mem_cons, List.not_mem_nil, false_imp_iff, implies_true, and_true,
    List.ne_nil_iff_exists_cons] at h
  obtain ⟨⟨x, xs, rfl⟩, ⟨o, os, rfl⟩, ⟨s, ss, rfl⟩, ⟨t, ts, rfl⟩, ⟨n, ns, rfl⟩, b, bs, rfl⟩ := h
  simp [swapEntries]

/-- A column of a matrix has an entry for each row. -/
theorem length_column {rows : List (List Signal)} {j : ℕ} (h : ∀ row ∈ rows, j < row.length) :
    (rows.filterMap (·[j]?)).length = rows.length := by
  induction rows with
  | nil => rfl
  | cons row rows ih =>
    rw [List.forall_mem_cons] at h
    simp [List.getElem?_eq_getElem h.1, ih h.2]

/-! ## Children with one output -/

/-- **A child with one output**: its parent owes it. -/
theorem ensures_sole {p : Place} {t : Template σ} (howner : p.owner here = here)
    (hbody : Keeps W t.body fun ds => ∃ u, Sole ds u) :
    (Build.place p t).Ensures W here g fun c g' =>
      ∃ u, g' = g.owe [u] ∧ c.terminal "out" = .ok (.single u) ∧ W.Outside here u := by
  refine (ensures_place howner hbody).mono ?_
  rintro c _ ⟨rfl, ⟨u, hu⟩, hne, hdecl⟩
  refine ⟨u, by rw [hu.outputs], hu.shows.terminal, c.id, hne, ?_⟩
  have hshows := hu.shows
  rw [hdecl] at hshows
  exact hshows.has (List.mem_singleton_self u)

/-- A child with one output in a place of an array. -/
theorem ensures_filled {a : SlotArray} (howner : a.owner = here) (i : ℕ) {t : Template σ}
    (hbody : Keeps W t.body fun ds => ∃ u, Sole ds u) :
    (fill a i t).Ensures W here g fun c g' =>
      ∃ u, g' = g.owe [u] ∧ c.terminal "out" = .ok (.single u) ∧ W.Outside here u :=
  ensures_sole (p := .slot a i) howner hbody

/-- The output of a child with one output. -/
theorem ensures_out {c : Component} {u : Signal} (hc : c.terminal "out" = .ok (.single u)) :
    (terminalSignal c "out" : Build σ Signal).Ensures W here g fun x g' => g' = g ∧ x = u := by
  refine (ensures_terminalSignal c "out").mono ?_
  rintro x g' ⟨rfl, hx⟩
  rw [hc] at hx
  cases hx
  exact ⟨rfl, rfl⟩

theorem owe_settled {us : List Signal} (hus : ∀ u ∈ us, W.Hears here u) :
    ∀ u ∈ (g.owe us).owed, u ∈ g.owed ∨ W.Hears here u := by
  intro u hu
  rcases List.mem_append.1 hu with hu | hu
  · exact Or.inl hu
  · exact Or.inr (hus u hu)

/-! ## Selectors -/

section
variable (hW : W.Sound)
include hW

/-- A product of two signals that is assigned to a third. -/
theorem ensures_product {α : Type} {x y term : Signal} (hx : x ∈ W.signals) (hy : y ∈ W.signals)
    (hterm : term ∈ W.signals) {rest : Build σ α} {Q : α → Ledger → Prop}
    (hrest : W.Hears here x → W.Hears here y → rest.Ensures W here g Q) : (do
      let product ← times (.ofSignal x) (.ofSignal y)
      assign term product
      rest).Ensures W here g Q := by
  refine (ensures_times _ _).next fun product hproduct => (ensures_assign _ _).next ?_
  rintro _ hemits
  obtain ⟨hheardX, hheardY⟩ := hemits.hears_product hW hproduct hx hy hterm
  exact hrest hheardX hheardY

/-- A signal that is fixed to a constant. -/
theorem ensures_fixed {u : Signal} (hu : u ∈ W.signals) (n : Int) :
    (constrain (.ofSignal u) (.ofInt W.field n) : Build σ Unit).Ensures W here g
      fun _ g' => g' = g ∧ W.Hears here u := by
  refine (ensures_constrain _ _).mono ?_
  rintro _ _ ⟨rfl, hemits⟩
  have hdegree : max (Expr.ofSignal u).degree (Expr.ofInt W.field n).degree ≠ 0 := by
    simp [Expr.ofSignal, Expr.ofInt]
  exact ⟨rfl, (hemits hdegree).hears_fixed hW hu⟩

/-- A position of a selector hears its indicator. -/
theorem balanced_selectAt {eqs : SlotArray} (howner : eqs.owner = here) (index : Signal) (i : ℕ)
    {x term : Signal} (hx : x ∈ W.signals) (hterm : term ∈ W.signals) (acc active : Expr) :
    (selectAt eqs index i x term acc active : Build σ (Expr × Expr)).Balanced W here := by
  refine balanced_of_settled fun g => (ensures_filled howner _ keeps_isEqual).bind ?_
  rintro eq _ ⟨u, rfl, hterminal, hu⟩
  refine (idle_terminalSignals _ _).next fun _ => (idle_const _).next fun _ => ?_
  refine (idle_assignAll _ _).next fun _ => (ensures_out hterminal).next ?_
  rintro _ rfl
  refine ensures_product hW hx (hu.mem hW) hterm fun _ hheard => ?_
  exact ensures_pure ⟨rfl, owe_settled (by simpa using hheard)⟩

/-- **The positions of a selector hear their indicators.** -/
theorem balanced_selectFrom {eqs : SlotArray} (howner : eqs.owner = here) (index : Signal)
    (rows : List (Signal × Signal)) (hrows : ∀ p ∈ rows, p.1 ∈ W.signals ∧ p.2 ∈ W.signals)
    (i : ℕ) (acc active : Expr) :
    (selectFrom eqs index i acc active rows : Build σ (Expr × Expr)).Balanced W here := by
  intro g
  induction rows generalizing i acc active with
  | nil => exact ensures_pure rfl
  | cons p rows ih =>
    rw [List.forall_mem_cons] at hrows
    refine (balanced_selectAt hW howner index i hrows.1.1 hrows.1.2 acc active).next ?_
    rintro ⟨acc', active'⟩
    exact ih hrows.2 _ _ _

theorem mem_zip {role role' : Role} {xs ys : List Signal} (hxs : ∀ x ∈ xs, W.Has here role x)
    (hys : ∀ y ∈ ys, W.Has here role' y) :
    ∀ p ∈ xs.zip ys, p.1 ∈ W.signals ∧ p.2 ∈ W.signals := by
  rintro ⟨x, y⟩ hp
  obtain ⟨hx, hy⟩ := List.of_mem_zip hp
  exact ⟨(hxs x hx).mem hW, (hys y hy).mem hW⟩

theorem keeps_quinSelector (n safe : Value) :
    Keeps W (quinSelector n safe : Build σ Unit) fun ds => ∃ u, Sole ds u := by
  intro id
  refine (ensures_checkBound n 1).next fun _ _ => (ensures_signals _ _ _).bind ?_
  rintro xs _ ⟨⟨bus, rfl, -⟩, hxs, -⟩
  refine (ensures_signal _ _).bind ?_
  rintro index _ ⟨rfl, -⟩
  refine (ensures_signal _ _).bind ?_
  rintro out _ ⟨rfl, -⟩
  refine (ensures_signals _ _ _).bind ?_
  rintro terms _ ⟨⟨termsBus, rfl, -⟩, hterms, -⟩
  refine (ensures_slots _ _).next fun eqs howner => ?_
  refine (idle_const _).next fun _ => (idle_const _).next fun _ => ?_
  refine (balanced_selectFrom hW howner index _ (mem_zip hW hxs hterms) _ _ _).next ?_
  rintro ⟨acc, active⟩
  refine (idle_assign _ _).next fun _ => (idle_demand _).next fun isSafe => ?_
  split
  · refine (idle_demand _).next fun width => (ensures_sole rfl (keeps_lessThan _)).bind ?_
    rintro lt _ ⟨u, rfl, hterminal, hu⟩
    refine (idle_terminalSignals _ _).next fun _ => (idle_const _).next fun _ => ?_
    refine (idle_assignAll _ _).next fun _ => (ensures_out hterminal).next ?_
    rintro _ rfl
    refine (ensures_const _).next ?_
    rintro _ rfl
    refine (ensures_fixed hW (hu.mem hW) 1).next fun _ hheard => (idle_const _).next fun _ => ?_
    refine (idle_constrain _ _).ensures fun _ => ⟨⟨out, rfl, rfl⟩, ?_⟩
    exact List.forall_mem_singleton.2 hheard
  · exact ensures_pure ⟨⟨out, rfl, rfl⟩, List.forall_mem_nil _⟩

/-! ## Cases -/

/-- **The cases of a branch hear their indicators.** -/
theorem balanced_casesFrom {eqs : SlotArray} (howner : eqs.owner = here) (x : Signal)
    (rows : List (Value × Signal × Signal))
    (hrows : ∀ p ∈ rows, p.2.1 ∈ W.signals ∧ p.2.2 ∈ W.signals) (i : ℕ) (fired acc : Expr) :
    (casesFrom eqs x i fired acc rows : Build σ (Expr × Expr)).Balanced W here := by
  induction rows generalizing i fired acc with
  | nil => exact fun g => ensures_pure rfl
  | cons p rows ih =>
    obtain ⟨c, value, term⟩ := p
    rw [List.forall_mem_cons] at hrows
    refine balanced_of_settled fun g => (ensures_filled howner _ keeps_isEqual).bind ?_
    rintro eq _ ⟨u, rfl, hterminal, hu⟩
    refine (idle_terminalSignals _ _).next fun ins => ?_
    dsimp only
    split
    · refine (idle_assign _ _).next fun _ => (idle_assignValue _ _).next fun _ => ?_
      refine (ensures_out hterminal).next ?_
      rintro _ rfl
      refine ensures_product hW hrows.1.1 (hu.mem hW) hrows.1.2 fun _ hheard => ?_
      -- the remaining cases settle their own indicators
      refine (ih hrows.2 _ _ _ _).mono ?_
      rintro _ _ rfl
      exact ⟨rfl, owe_settled (by simpa using hheard)⟩
    · exact ensures_throw _

theorem keeps_branch (constants : Value) :
    Keeps W (branch constants : Build σ Unit) fun _ => True := by
  intro id
  refine idle_field.next fun _ => (idle_items _).next fun cs => idle_path.next fun _ => ?_
  refine (idle_demand _).next fun _ => (ensures_signal _ _).bind ?_
  rintro x _ ⟨rfl, -⟩
  refine (ensures_signals _ _ _).bind ?_
  rintro values _ ⟨⟨valuesBus, rfl, -⟩, hvalues, -⟩
  refine (ensures_signal _ _).bind ?_
  rintro out _ ⟨rfl, -⟩
  refine (ensures_signals _ _ _).bind ?_
  rintro terms _ ⟨⟨termsBus, rfl, -⟩, hterms, -⟩
  refine (ensures_slots _ _).next fun eqs howner => ?_
  refine (idle_const _).next fun _ => (idle_const _).next fun _ => ?_
  refine (balanced_casesFrom hW howner x _ ?_ _ _ _).next ?_
  · rintro ⟨c, p⟩ hp
    exact mem_zip hW hvalues hterms p (List.of_mem_zip hp).2
  rintro ⟨fired, acc⟩
  refine (ensures_sole rfl keeps_isZero).bind ?_
  rintro otherwise _ ⟨u, rfl, hterminal, hu⟩
  refine (idle_terminalSignal _ _).next fun _ => (idle_assign _ _).next fun _ => ?_
  dsimp only
  split
  · next value term hvalue hterm =>
    refine (ensures_out hterminal).next ?_
    rintro _ rfl
    have hvalue := (hvalues value (List.mem_of_getLast? hvalue)).mem hW
    have hterm := (hterms term (List.mem_of_getLast? hterm)).mem hW
    refine ensures_product hW hvalue (hu.mem hW) hterm fun _ hheard => ?_
    refine (idle_assign _ _).next fun _ => ?_
    exact (idle_log _).ensures fun _ => ⟨trivial, List.forall_mem_singleton.2 hheard⟩
  · exact ensures_throw _

/-! ## Exchange -/

/-- The entry of a row is an output of a selector. -/
theorem ensures_entryAt (name : String) (row : List Signal) (n : Value) (position : Signal) :
    (entryAt name row n position : Build σ Signal).Ensures W here g
      fun u g' => g' = g.owe [u] ∧ W.Outside here u := by
  refine (ensures_sole rfl (keeps_quinSelector hW n _)).bind ?_
  rintro sel _ ⟨u, rfl, hterminal, hu⟩
  refine (idle_terminalSignals _ _).next fun _ => (idle_assignAll _ _).next fun _ => ?_
  refine (idle_terminalSignal _ _).next fun _ => (idle_assign _ _).next fun _ => ?_
  refine (ensures_out hterminal).mono ?_
  rintro _ _ ⟨rfl, rfl⟩
  exact ⟨rfl, hu⟩

/-- The indicator of a position. -/
theorem ensures_isAt {eqs : SlotArray} (howner : eqs.owner = here) (i : ℕ) (position : Signal) :
    (isAt eqs i position : Build σ Signal).Ensures W here g
      fun u g' => g' = g.owe [u] ∧ u ∈ W.signals := by
  refine (ensures_filled howner _ keeps_isEqual).bind ?_
  rintro eq _ ⟨u, rfl, hterminal, hu⟩
  refine (idle_terminalSignals _ _).next fun _ => (idle_const _).next fun _ => ?_
  refine (idle_assignAll _ _).next fun _ => (ensures_out hterminal).mono ?_
  rintro _ _ ⟨rfl, rfl⟩
  exact ⟨rfl, hu.mem hW⟩

/-- The row of an exchanged entry hears the indicator that both positions coincide. -/
theorem hears_same {same : Signal} {e : SwapEntry} {product : Expr} (hsame : same ∈ W.signals)
    (hout : e.out ∈ W.signals) (hs : e.branchS ∈ W.signals) (ht : e.branchT ∈ W.signals)
    (hother : e.branchOther ∈ W.signals)
    (hproduct : ((Expr.ofInt W.field 1).sub (.ofSignal same)).mul (.ofSignal e.branchS) =
      .ok product)
    (h : W.Emits here (((product.add (.ofSignal e.branchT)).add (.ofSignal e.branchOther)).sub
      (.ofSignal e.out))) : W.Hears here same := by
  have hone : W.Knows (.ofInt W.field 1) := .ofInt 1
  have hks := knows_ofSignal hW hs
  have hgate : W.Knows ((Expr.ofInt W.field 1).sub (.ofSignal same)) :=
    hone.sub (knows_ofSignal hW hsame)
  have hnew : same.uid ∉ (Expr.ofInt W.field 1).linear.uids := by simp [Terms.uids, Expr.ofInt]
  have huids : ((Expr.ofInt W.field 1).sub (.ofSignal same)).linear.uids = [same.uid] :=
    hone.canonical.toNormal.uids_sub_ofSignal (hW.field same hsame) hnew
  have hgate_ne : ((Expr.ofInt W.field 1).sub (.ofSignal same)).linear ≠ [] := by
    intro hnil
    simp [hnil, Terms.uids] at huids
  have hbranch_ne : (Expr.ofSignal e.branchS).linear ≠ [] := by simp [Expr.ofSignal]
  have hsum := (((hgate.mul hks hproduct).add (knows_ofSignal hW ht)).add
    (knows_ofSignal hW hother)).sub (knows_ofSignal hW hout)
  refine h.hears_factor hsum ?_ hgate_ne hbranch_ne (Or.inl (by simp [huids]))
  rw [Expr.products_sub_ofSignal, Expr.products_add_ofSignal, Expr.products_add_ofSignal]
  exact Expr.products_mul hgate.canonical hks.canonical hgate_ne hbranch_ne hproduct

/-- **The entries of an exchange hear their indicators**, and each of them hears the two
    exchanged entries and whether these are one. -/
theorem ensures_swapFrom {isS isT : SlotArray} (hisS : isS.owner = here) (hisT : isT.owner = here)
    (s t : Signal) {atS atT same : Signal} (hatS : atS ∈ W.signals) (hatT : atT ∈ W.signals)
    (hsame : same ∈ W.signals) (es : List SwapEntry)
    (hes : ∀ e ∈ es, e.out ∈ W.signals ∧ e.branchS ∈ W.signals ∧ e.branchT ∈ W.signals ∧
      e.branchOther ∈ W.signals) (i : ℕ) :
    (swapFrom isS isT s t atS atT same i es : Build σ Unit).Ensures W here g fun _ g' =>
      g' = g ∧ (es ≠ [] → W.Hears here atS ∧ W.Hears here atT ∧ W.Hears here same) := by
  induction es generalizing g i with
  | nil => exact ensures_pure ⟨rfl, fun h => absurd rfl h⟩
  | cons e es ih =>
    rw [List.forall_mem_cons] at hes
    obtain ⟨⟨hout, hs, ht, hother⟩, hes⟩ := hes
    refine Ensures.settle ((ensures_isAt hW hisS i s).bind ?_)
    rintro u _ ⟨rfl, hu⟩
    refine (ensures_isAt hW hisT i t).bind ?_
    rintro v _ ⟨rfl, hv⟩
    refine (ensures_const _).next ?_
    rintro _ rfl
    refine ensures_product hW hu hatT hs fun hheardU hheardT => ?_
    refine ensures_product hW hv hatS ht fun hheardV hheardS => ?_
    refine (idle_times _ _).next fun _ => (idle_assign _ _).next fun _ => ?_
    refine (idle_times _ _).next fun _ => (idle_assign _ _).next fun _ => ?_
    refine (ensures_times _ _).next fun z hz => (ensures_assign _ _).next fun _ hrow => ?_
    have hheardSame := hears_same hW hsame hout hs ht hother hz hrow
    refine (ih hes _).mono ?_
    rintro _ _ ⟨rfl, -⟩
    refine ⟨rfl, ?_, fun _ => ⟨hheardS, hheardT, hheardSame⟩⟩
    intro w hw
    simp only [Ledger.owe, List.append_assoc, List.mem_append, List.mem_singleton] at hw
    rcases hw with hw | rfl | rfl
    · exact Or.inl hw
    · exact Or.inr hheardU
    · exact Or.inr hheardV

theorem keeps_swap (n : Value) : Keeps W (swap n : Build σ Unit) fun _ => True := by
  intro id
  refine (ensures_checkBound n 1).next fun _ hleast => (ensures_signals _ _ _).bind ?_
  rintro arr _ ⟨⟨arrBus, rfl, -⟩, -, harr⟩
  refine (ensures_signal _ _).bind ?_
  rintro s _ ⟨rfl, -⟩
  refine (ensures_signal _ _).bind ?_
  rintro t _ ⟨rfl, -⟩
  refine (ensures_signals _ _ _).bind ?_
  rintro outs _ ⟨⟨outBus, rfl, -⟩, houts, hout⟩
  refine (ensures_entryAt hW _ _ _ _).bind ?_
  rintro atS _ ⟨rfl, hatS⟩
  refine (ensures_entryAt hW _ _ _ _).bind ?_
  rintro atT _ ⟨rfl, hatT⟩
  refine (ensures_sole rfl keeps_isEqual).bind ?_
  rintro eq _ ⟨same, rfl, hterminal, hsame⟩
  refine (idle_terminalSignals _ _).next fun _ => (idle_assignAll _ _).next fun _ => ?_
  refine (ensures_out hterminal).next ?_
  rintro _ rfl
  refine (ensures_slots _ _).next fun isS hisS => (ensures_slots _ _).next fun isT hisT => ?_
  refine (ensures_signals _ _ _).bind ?_
  rintro branchS _ ⟨⟨busS, rfl, -⟩, hbranchS, hsizeS⟩
  refine (ensures_signals _ _ _).bind ?_
  rintro branchT _ ⟨⟨busT, rfl, -⟩, hbranchT, hsizeT⟩
  refine (ensures_signals _ _ _).bind ?_
  rintro notST _ ⟨⟨busN, rfl, -⟩, -, hsizeN⟩
  refine (ensures_signals _ _ _).bind ?_
  rintro branchOther _ ⟨⟨busO, rfl, -⟩, hother, hsizeO⟩
  refine Ensures.mono (ensures_swapFrom hW hisS hisT s t (hatS.mem hW) (hatT.mem hW)
    (hsame.mem hW) _ ?_ 0) ?_
  · intro e he
    obtain ⟨ho, hs, ht, hb⟩ := mem_swapEntries he
    exact ⟨(houts _ ho).mem hW, (hbranchS _ hs).mem hW, (hbranchT _ ht).mem hW,
      (hother _ hb).mem hW⟩
  · rintro _ _ ⟨rfl, hheard⟩
    -- there is an entry, since the size was not refused
    obtain ⟨hheardS, hheardT, hheardSame⟩ := hheard (swapEntries_ne_nil (by
      simp [ne_nil_of_size hleast harr, ne_nil_of_size hleast hout, ne_nil_of_size hleast hsizeS,
        ne_nil_of_size hleast hsizeT, ne_nil_of_size hleast hsizeN,
        ne_nil_of_size hleast hsizeO]))
    refine ⟨trivial, ?_⟩
    simp [Ledger.owe, Ledger.declare, hheardS, hheardT, hheardSame]

/-! ## Copies -/

variable (ha : W.Apart)
include ha

/-- An output of a child that is copied is heard. -/
theorem ensures_copy {role : Role} {out u : Signal} (hout : W.Has here role out)
    (hu : W.Outside here u) : (assign out (.ofSignal u) : Build σ Unit).Ensures W here g
      fun _ g' => g' = g ∧ W.Hears here u := by
  refine (ensures_assign out _).mono ?_
  rintro _ g' ⟨rfl, hemits⟩
  exact ⟨rfl, hemits.hears_copy hW (hu.mem hW) (hout.mem hW) (hu.uid_ne hW ha hout)⟩

/-- The last step of a sequence: the selected entry is the output. -/
theorem ensures_selected {role : Role} {out : Signal} (hout : W.Has here role out)
    (hg : g.owed = []) (seq : List Signal) (n : Signal) (bound : Value) : (do
      assign out (.ofSignal (← select seq n bound)) : Build σ Unit).Ensures W here g
        fun _ g' => True ∧ ∀ u ∈ g'.owed, W.Hears here u := by
  refine (ensures_entryAt hW "sel" seq bound n).bind ?_
  rintro u _ ⟨rfl, hu⟩
  refine (ensures_copy hW ha hout hu).mono ?_
  rintro _ _ ⟨rfl, hheard⟩
  simpa [Ledger.owe, hg] using hheard

theorem keeps_factorial (bound : Value) :
    Keeps W (factorial bound : Build σ Unit) fun _ => True := by
  intro id
  refine (ensures_checkBound bound 1).next fun _ _ => (ensures_signal _ _).bind ?_
  rintro n _ ⟨rfl, -⟩
  refine (ensures_signal _ _).bind ?_
  rintro out _ ⟨rfl, hout⟩
  refine (ensures_signals _ _ _).bind ?_
  rintro seq _ ⟨⟨bus, rfl, -⟩, -⟩
  split
  · exact ensures_throw _
  · refine (idle_const _).next fun _ => (idle_assign _ _).next fun _ => ?_
    refine (idle_chain ?_ _ _ _).next fun _ => ensures_selected hW ha hout rfl _ _ _
    exact fun i before => (idle_const _).bind fun _ => idle_times _ _

theorem keeps_fibonacci (bound : Value) :
    Keeps W (fibonacci bound : Build σ Unit) fun _ => True := by
  intro id
  refine (ensures_checkBound bound 2).next fun _ _ => (ensures_signal _ _).bind ?_
  rintro n _ ⟨rfl, -⟩
  refine (ensures_signal _ _).bind ?_
  rintro out _ ⟨rfl, hout⟩
  refine (ensures_signals _ _ _).bind ?_
  rintro seq _ ⟨⟨bus, rfl, -⟩, -⟩
  split
  · refine (idle_const _).next fun _ => (idle_assign _ _).next fun _ => ?_
    refine (idle_const _).next fun _ => (idle_assign _ _).next fun _ => ?_
    exact (idle_fibonacciFrom _ _ _).next fun _ => ensures_selected hW ha hout rfl _ _ _
  · exact ensures_throw _

theorem keeps_power (bound : Value) : Keeps W (power bound : Build σ Unit) fun _ => True := by
  intro id
  refine (ensures_checkBound bound 1).next fun _ _ => (ensures_signal _ _).bind ?_
  rintro base _ ⟨rfl, -⟩
  refine (ensures_signal _ _).bind ?_
  rintro n _ ⟨rfl, -⟩
  refine (ensures_signal _ _).bind ?_
  rintro out _ ⟨rfl, hout⟩
  refine (ensures_signals _ _ _).bind ?_
  rintro seq _ ⟨⟨bus, rfl, -⟩, -⟩
  split
  · exact ensures_throw _
  · refine (idle_const _).next fun _ => (idle_assign _ _).next fun _ => ?_
    refine (idle_chain ?_ _ _ _).next fun _ => ensures_selected hW ha hout rfl _ _ _
    exact fun i before => idle_times _ _

/-! ## Comparison -/

theorem keeps_byLessThan (n : Value) (sides : PrimeField → Signal → Signal → List Expr) :
    Keeps W (byLessThan n sides : Build σ Unit) fun _ => True := by
  intro id
  refine (ensures_signals _ _ _).bind ?_
  rintro xs _ ⟨⟨bus, rfl, -⟩, -⟩
  refine (ensures_signal _ _).bind ?_
  rintro out _ ⟨rfl, hout⟩
  refine (ensures_sole rfl (keeps_lessThan n)).bind ?_
  rintro lt _ ⟨u, rfl, hterminal, hu⟩
  split
  · refine (idle_terminalSignals _ _).next fun _ => idle_field.next fun _ => ?_
    refine (idle_assignAll _ _).next fun _ => (ensures_out hterminal).next ?_
    rintro _ rfl
    refine (ensures_copy hW ha hout hu).mono ?_
    rintro _ _ ⟨rfl, hheard⟩
    exact ⟨trivial, List.forall_mem_singleton.2 hheard⟩
  · exact ensures_throw _

/-! ## Matrices -/

omit ha in
/-- What is fed to a child from its siblings is heard. -/
theorem ensures_feed (bs : List (Signal × Signal))
    (hbs : ∀ p ∈ bs, p.1 ∈ W.signals ∧ p.2 ∈ W.signals ∧ p.1.uid ≠ p.2.uid)
    (as : List (Signal × Signal)) (hlength : bs.length ≤ as.length) :
    (feed as bs : Build σ Unit).Ensures W here g
      fun _ g' => g' = g ∧ ∀ p ∈ bs, W.Hears here p.2 := by
  induction bs generalizing as with
  | nil =>
    cases as with
    | nil => exact ensures_pure ⟨rfl, List.forall_mem_nil _⟩
    | cons a as => exact ensures_pure ⟨rfl, List.forall_mem_nil _⟩
  | cons p bs ih =>
    cases as with
    | nil => simp at hlength
    | cons a as =>
      rw [List.forall_mem_cons] at hbs
      obtain ⟨⟨hb, hd, hne⟩, hbs⟩ := hbs
      refine (idle_assign _ _).next fun _ => (ensures_assign _ _).next fun _ hemits => ?_
      have hheard := hemits.hears_copy hW hd hb hne
      refine (ih hbs as (by simpa using hlength)).mono ?_
      rintro _ _ ⟨rfl, hrest⟩
      exact ⟨rfl, List.forall_mem_cons.2 ⟨hheard, hrest⟩⟩

/-- **The columns of a multiplexer hear their inner products**, and each of them hears all
    indicators of the row. -/
theorem ensures_columnsFrom {ep : SlotArray} (howner : ep.owner = here) {n : Value} {k : Int}
    (hn : n.index = .ok k) {rows : List (List Signal)} (hrows : rows.length = k.toNat)
    {chosen : List Signal} (hchosen : ∀ d ∈ chosen, W.Outside here d)
    (hlength : chosen.length = k.toNat) (outs : List Signal)
    (houts : ∀ out ∈ outs, W.Has here .output out) (j : ℕ)
    (hj : ∀ row ∈ rows, j + outs.length ≤ row.length) :
    (columnsFrom ep n rows chosen j outs : Build σ Unit).Ensures W here g fun _ g' =>
      g' = g ∧ (outs ≠ [] → ∀ d ∈ chosen, W.Hears here d) := by
  induction outs generalizing g j with
  | nil => exact ensures_pure ⟨rfl, fun h => absurd rfl h⟩
  | cons out outs ih =>
    rw [List.forall_mem_cons] at houts
    simp only [List.length_cons] at hj
    refine Ensures.settle ?_
    refine (ensures_place (p := .slot ep j) howner (keeps_escalarProduct n)).bind ?_
    rintro c _ ⟨rfl, ⟨a, b, u, hc⟩, hne, hdecl⟩
    obtain ⟨k', hk', hlengthA, hlengthB⟩ := hc.length
    obtain rfl : k = k' := Except.ok.inj (hn.symm.trans hk')
    have hright := hc.right
    have hout := hc.sole.shows
    rw [hdecl] at hright hout
    have hu : W.Outside here u := ⟨c.id, hne, hout.has (List.mem_singleton_self u)⟩
    refine (ensures_terminalSignals c "in1").next ?_
    rintro _ ⟨bus, hbus, rfl⟩
    obtain rfl := Except.ok.inj (hc.left.terminal.symm.trans hbus)
    refine (ensures_terminalSignals c "in2").next ?_
    rintro _ ⟨bus, hbus, rfl⟩
    obtain rfl := Except.ok.inj (hc.right.terminal.symm.trans hbus)
    refine (ensures_feed hW _ ?_ _ ?_).next fun _ hheard => ?_
    · rintro ⟨x, d⟩ hp
      obtain ⟨hx, hd⟩ := List.of_mem_zip hp
      obtain ⟨i, -, hi⟩ := hchosen d hd
      have hx := hright.has hx
      exact ⟨hx.mem hW, hi.mem hW, hx.uid_ne_of_role hW hi (by decide)⟩
    · have hcolumn : (rows.filterMap (·[j]?)).length = rows.length :=
        length_column fun row hrow => by have := hj row hrow; omega
      rw [List.length_zip, List.length_zip, hcolumn]
      omega
    refine (ensures_out hc.sole.shows.terminal).next ?_
    rintro _ rfl
    refine (ensures_copy hW ha houts.1 hu).next fun _ hcopied => ?_
    refine (ih houts.2 (j + 1) fun row hrow => by have := hj row hrow; omega).mono ?_
    rintro _ _ ⟨rfl, -⟩
    refine ⟨rfl, ?_, fun _ d hd => ?_⟩
    · rw [hc.sole.outputs]
      exact owe_settled (by simpa using hcopied)
    · have hall : (b.flat.zip chosen).map Prod.snd = chosen := List.map_snd_zip (by omega)
      rw [← hall] at hd
      obtain ⟨p, hp, rfl⟩ := List.mem_map.1 hd
      exact hheard p hp

theorem keeps_multiplexer {w : Value} (hw : ∀ k, w.index = .ok k → 1 ≤ k) (n : Value) :
    Keeps W (multiplexer w n : Build σ Unit) fun _ => True := by
  intro id
  refine (ensures_matrix _ _ _ _).bind ?_
  rintro rows _ ⟨⟨bus, rfl⟩, -, k, l, hk, hl, hrows, hrow⟩
  refine (ensures_signal _ _).bind ?_
  rintro sel _ ⟨rfl, -⟩
  refine (ensures_signals _ _ _).bind ?_
  rintro outs _ ⟨⟨outBus, rfl, -⟩, houts, hsize⟩
  have hne := ne_nil_of_size hw hsize
  obtain ⟨l', hl', hlength⟩ := hsize
  obtain rfl : l = l' := Except.ok.inj (hl.symm.trans hl')
  refine (ensures_place (p := .named "dec") rfl (keeps_decoder n)).bind ?_
  rintro dec _ ⟨rfl, ⟨chosen, success, hdec⟩, hid, hdecl⟩
  obtain ⟨k', hk', hchosen⟩ := hdec.length
  obtain rfl : k = k' := Except.ok.inj (hk.symm.trans hk')
  have hout := hdec.out
  have hsuccess := hdec.success
  rw [hdecl] at hout hsuccess
  refine (idle_terminalSignal _ _).next fun _ => (idle_assign _ _).next fun _ => ?_
  refine (ensures_slots _ _).next fun ep howner => (ensures_terminalSignals dec "out").next ?_
  rintro _ ⟨bus', hbus', rfl⟩
  obtain rfl := Except.ok.inj (hdec.out.terminal.symm.trans hbus')
  refine (ensures_columnsFrom hW ha howner hk hrows ?_ hchosen outs houts 0 ?_).next
    fun _ hheard => ?_
  · exact fun d hd => ⟨dec.id, hid, hout.has hd⟩
  · intro row hmem
    rw [hrow row hmem]
    omega
  refine (ensures_terminalSignal dec "success").next fun x hx => ?_
  obtain rfl := Bus.single.inj (Except.ok.inj (hdec.success.terminal.symm.trans hx))
  refine (ensures_const _).next ?_
  rintro _ rfl
  have hsuccess := (hsuccess.has (List.mem_singleton_self _)).mem hW
  refine (ensures_fixed hW hsuccess 1).mono ?_
  rintro _ _ ⟨rfl, hfixed⟩
  refine ⟨trivial, ?_⟩
  intro u hu
  rw [hdec.outputs] at hu
  simp only [Ledger.owe, Ledger.declare, List.nil_append, List.mem_append, List.mem_singleton] at hu
  rcases hu with hu | rfl
  · exact hheard hne u hu
  · exact hfixed

end

end RankOne.Gadget
