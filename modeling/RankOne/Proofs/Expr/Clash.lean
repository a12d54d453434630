/-
  RankOne — sums of signals that share a declaration number.

  Coefficients are found by declaration number, so a sum could mistake one signal
  for another with the same number.  The look-ups behind a sum refuse exactly such
  mistakes: when they all succeed, the sum has the sum of the values under every
  valuation, whatever numbers the signals have.

  * `eq_of_checkTable`, `eq_of_checkRatio`: signals that were found under one
    number are one signal;
  * `mergeProductWith_eq_ok`, `add_eq_ok`, `sum_eq_ok`: what is not refused is the
    plain result, with the right value;
  * `add_ok`, `sum_ok`: signals with numbers of their own pass every look-up.
-/
import RankOne.Expr.Clash
import RankOne.Proofs.Expr.Canonical

namespace RankOne.Clash

variable {f : PrimeField} {v : Signal → ZMod f.p}

/-! ## Look-ups -/

/-- A look-up among signals with numbers of their own finds the signal itself. -/
theorem lookUpIn_eq_ok {stored : List Signal} {s : Signal} {found : Bool}
    (hn : (stored.map (·.uid)).Nodup) (h : lookUpIn stored s = .ok found) :
    (found = true ↔ ∃ t ∈ stored, t.uid = s.uid) ∧ ∀ t ∈ stored, t.uid = s.uid → t = s := by
  unfold lookUpIn at h
  split at h
  · next u hu =>
    split_ifs at h with he
    cases h
    have hmem := List.mem_of_find?_eq_some hu
    subst he
    exact ⟨by simpa using ⟨u, hmem, rfl⟩,
      fun t ht htu => List.inj_on_of_nodup_map hn ht hmem htu⟩
  · next hu =>
    cases h
    have hnone : ∀ t ∈ stored, t.uid ≠ s.uid := by
      simpa using List.find?_eq_none.1 hu
    exact ⟨by simpa using hnone, fun t ht htu => absurd htu (hnone t ht)⟩

theorem checkTable_eq_ok {stored : List Signal} : ∀ {ss : List Signal} {u : Unit},
    checkTable stored ss = .ok u → ∀ s ∈ ss, ∃ found, lookUpIn stored s = .ok found
  | [], _, _ => by simp
  | s :: ss, u, h => by
    obtain ⟨found, hs, h⟩ := bind_eq_ok.1 h
    exact List.forall_mem_cons.2 ⟨⟨found, hs⟩, checkTable_eq_ok h⟩

/-- Up to the first absent signal every one is looked up. -/
theorem checkPresent_eq_ok {stored : List Signal} (hn : (stored.map (·.uid)).Nodup) :
    ∀ {ss : List Signal} {u : Unit}, checkPresent stored ss = .ok u →
      (∀ s ∈ ss, ∃ t ∈ stored, t.uid = s.uid) → ∀ s ∈ ss, ∃ found, lookUpIn stored s = .ok found
  | [], _, _, _ => by simp
  | s :: ss, u, h, hp => by
    rw [List.forall_mem_cons] at hp
    obtain ⟨found, hs, h⟩ := bind_eq_ok.1 h
    rw [if_pos ((lookUpIn_eq_ok hn hs).1.2 hp.1)] at h
    exact List.forall_mem_cons.2 ⟨⟨found, hs⟩, checkPresent_eq_ok hn h hp.2⟩

theorem signalsOf_uids (ts : Terms) : (signalsOf ts).map (·.uid) = ts.uids := by
  simp [signalsOf, Terms.uids]

/-- Signals that were looked up are told apart by their numbers. -/
theorem eq_of_lookUps {l r : Terms} (hl : l.uids.Nodup)
    (h : ∀ s ∈ signalsOf r, ∃ found, lookUpIn (signalsOf l) s = .ok found) :
    ∀ t ∈ l, ∀ u ∈ r, t.1.uid = u.1.uid → t.1 = u.1 := by
  intro t ht u hu he
  obtain ⟨found, hf⟩ := h u.1 (List.mem_map_of_mem hu)
  exact (lookUpIn_eq_ok (by rwa [signalsOf_uids]) hf).2 t.1 (List.mem_map_of_mem ht) he

/-- Signals found while coefficients are merged are told apart by their numbers. -/
theorem eq_of_checkTable {l r : Terms} {u : Unit} (hl : l.uids.Nodup)
    (h : checkTable (signalsOf l) (signalsOf r) = .ok u) :
    ∀ t ∈ l, ∀ u ∈ r, t.1.uid = u.1.uid → t.1 = u.1 := eq_of_lookUps hl (checkTable_eq_ok h)

/-- Forms of one shape have the same numbers. -/
theorem uids_subset_of_ratio? {x y : Expr} {k : ℕ} (hy : y.linear.uids.Nodup)
    (h : Expr.ratio? x y = some k) : x.linear.uids ⊆ y.linear.uids := by
  obtain ⟨hs, -⟩ := Expr.ratio?_eq_some.1 h
  simp only [Expr.sameShape, Bool.and_eq_true, beq_iff_eq, List.all_eq_true] at hs
  have hsub : y.linear.uids ⊆ x.linear.uids := by
    intro n hn
    obtain ⟨t, ht, rfl⟩ := List.mem_map.1 hn
    obtain ⟨c, hc⟩ := Option.isSome_iff_exists.1 (hs.1.2 t ht)
    obtain ⟨l, r, u, hx, hu⟩ := Expr.coeff?_eq_some hc
    exact List.mem_map.2 ⟨(u, c), by rw [hx]; simp, hu⟩
  have hperm := (hy.subperm hsub).perm_of_length_le (by simp [Terms.uids, hs.1.1])
  exact hperm.symm.subset

/-- Signals found while two forms are compared are told apart by their numbers. -/
theorem eq_of_checkRatio {x y : Expr} {k : ℕ} {u : Unit} (hy : y.linear.uids.Nodup)
    (hk : Expr.ratio? x y = some k) (h : checkRatio x y = .ok u) :
    ∀ t ∈ x.linear, ∀ u ∈ y.linear, t.1.uid = u.1.uid → t.1 = u.1 := by
  have hlen : x.linear.length = y.linear.length := by
    obtain ⟨hs, -⟩ := Expr.ratio?_eq_some.1 hk
    simp only [Expr.sameShape, Bool.and_eq_true, beq_iff_eq] at hs
    exact hs.1.1
  rw [checkRatio, if_pos hlen] at h
  have hlook := checkPresent_eq_ok (by rwa [signalsOf_uids]) h fun s hs => by
    obtain ⟨t, ht, rfl⟩ := List.mem_map.1 hs
    obtain ⟨w, hw, hu⟩ := List.mem_map.1 (uids_subset_of_ratio? hy hk (List.mem_map_of_mem ht))
    exact ⟨w.1, List.mem_map_of_mem hw, hu⟩
  intro t ht u hu he
  exact (eq_of_lookUps hy hlook u hu t ht he.symm).symm

/-! ## Sums -/

theorem ratio_eq_ok {x y : Expr} {r : Option ℕ} (h : ratio x y = .ok r) :
    checkRatio x y = .ok () ∧ Expr.ratio? x y = r := by
  obtain ⟨_, hc, h⟩ := bind_eq_ok.1 h
  exact ⟨hc, by rw [Expr.ratio?, h]; cases r <;> rfl⟩

theorem merge_eq_ok {l r ts : Terms} (h : merge l r = .ok ts) :
    checkTable (signalsOf l) (signalsOf r) = .ok () ∧ l.merge r = ts := by
  obtain ⟨_, hc, h⟩ := bind_eq_ok.1 h
  exact ⟨hc, pure_eq_ok.1 h⟩

/-- The shared factor that is found, with the look-ups of the way that is taken. -/
theorem sharedFactorWith_eq_ok {x y a b : Expr} {r : Option (Expr × Expr × Expr)}
    (h : Expr.sharedFactorWith ratio x y a b = .ok r) :
    Expr.sharedFactor? x y a b = r ∧ ∀ s o e, r = some (s, o, e) → ∃ new rest k,
      ((s = x ∧ o = y) ∨ (s = y ∧ o = x)) ∧ ((new = a ∧ rest = b) ∨ (new = b ∧ rest = a)) ∧
      Expr.ratio? new s = some k ∧ checkRatio new s = .ok () ∧ e = Expr.scaleBy k rest := by
  have htaken {new rest s o : Expr} {k : ℕ} (hso : (s = x ∧ o = y) ∨ (s = y ∧ o = x))
      (hnew : (new = a ∧ rest = b) ∨ (new = b ∧ rest = a)) (hk : Expr.ratio? new s = some k)
      (hc : checkRatio new s = .ok ()) : ∀ s' o' e, some (s, o, Expr.scaleBy k rest) =
        some (s', o', e) → ∃ new rest k, ((s' = x ∧ o' = y) ∨ (s' = y ∧ o' = x)) ∧
        ((new = a ∧ rest = b) ∨ (new = b ∧ rest = a)) ∧ Expr.ratio? new s' = some k ∧
        checkRatio new s' = .ok () ∧ e = Expr.scaleBy k rest := by
    rintro _ _ _ ⟨⟩
    exact ⟨new, rest, k, hso, hnew, hk, hc, rfl⟩
  rw [Expr.sharedFactor?_eq]
  unfold Expr.sharedFactorWith at h
  obtain ⟨k₁, h₁, h⟩ := bind_eq_ok.1 h
  obtain ⟨hc₁, hk₁⟩ := ratio_eq_ok h₁
  rw [hk₁]
  cases k₁ with
  | some k => cases h; exact ⟨rfl, htaken (by simp) (by simp) hk₁ hc₁⟩
  | none =>
  obtain ⟨k₂, h₂, h⟩ := bind_eq_ok.1 h
  obtain ⟨hc₂, hk₂⟩ := ratio_eq_ok h₂
  rw [hk₂]
  cases k₂ with
  | some k => cases h; exact ⟨rfl, htaken (by simp) (by simp) hk₂ hc₂⟩
  | none =>
  obtain ⟨k₃, h₃, h⟩ := bind_eq_ok.1 h
  obtain ⟨hc₃, hk₃⟩ := ratio_eq_ok h₃
  rw [hk₃]
  cases k₃ with
  | some k => cases h; exact ⟨rfl, htaken (by simp) (by simp) hk₃ hc₃⟩
  | none =>
  obtain ⟨k₄, h₄, h⟩ := bind_eq_ok.1 h
  obtain ⟨hc₄, hk₄⟩ := ratio_eq_ok h₄
  rw [hk₄]
  cases k₄ with
  | some k => cases h; exact ⟨rfl, htaken (by simp) (by simp) hk₄ hc₄⟩
  | none => cases h; exact ⟨rfl, nofun⟩

/-- **Folding a product adds its value** when every look-up succeeds. -/
theorem mergeProductWith_eq_ok {check : Expr → Expr → Except Error Expr}
    {plus : Expr → Expr → Expr}
    (hplus : ∀ x y e : Expr, x.Affine f → y.Affine f → check x y = .ok e →
      plus x y = e ∧ e.value v = x.value v + y.value v) {a b : Expr} (ha : a.Affine f)
    (hb : b.Affine f) : ∀ {ps rs : List (Expr × Expr)},
      (∀ p ∈ ps, p.1.Affine f ∧ p.2.Affine f) →
      Expr.mergeProductWith ratio check a b ps = .ok rs →
      Expr.mergeProduct plus a b ps = rs ∧
        Expr.productsValue v rs = Expr.productsValue v ps + a.value v * b.value v
  | [], rs, _, h => by
    cases h
    simp [Expr.productsValue]
  | (x, y) :: ps, rs, hps, h => by
    rw [List.forall_mem_cons] at hps
    rw [Expr.mergeProduct_cons]
    rw [Expr.mergeProductWith] at h
    obtain ⟨r, hr, h⟩ := bind_eq_ok.1 h
    obtain ⟨hshared, hway⟩ := sharedFactorWith_eq_ok hr
    rw [hshared]
    rcases r with _ | ⟨s, o, e⟩
    · obtain ⟨rs, hrs, h⟩ := bind_eq_ok.1 h
      cases h
      obtain ⟨hmerge, hval⟩ := mergeProductWith_eq_ok hplus ha hb hps.2 hrs
      simp only [hmerge, Expr.productsValue, hval, true_and]
      ring
    · obtain ⟨new, rest, k, hso, hnew, hk, hc, rfl⟩ := hway _ _ _ rfl
      obtain ⟨q, hq, h⟩ := bind_eq_ok.1 h
      cases h
      obtain ⟨hsa, hoa, hea⟩ := Expr.sharedFactor?_affine hps.1.1 hps.1.2 ha hb hshared
      obtain ⟨hsum, hqv⟩ := hplus o _ q hoa hea hq
      have hn : new.Affine f ∧ rest.Affine f := by
        rcases hnew with ⟨rfl, rfl⟩ | ⟨rfl, rfl⟩
        · exact ⟨ha, hb⟩
        · exact ⟨hb, ha⟩
      have hagree : Terms.Agree v new.linear s.linear := fun t ht u hu he => by
        rw [eq_of_checkRatio hsa.distinct hk hc t ht u hu he]
      have hval := Expr.value_of_ratio? hagree hn.1.isLinear hsa.isLinear hk
      obtain ⟨hxy, hab⟩ := Expr.value_sharedFactor hn.2.isLinear hso hnew hval
      simp only [hsum, Expr.productsValue, hqv, true_and]
      linear_combination hxy + hab

/-- Products folded one after another, each with its look-ups. -/
theorem foldlM_mergeProductWith_eq_ok {check : Expr → Expr → Except Error Expr}
    {plus : Expr → Expr → Expr}
    (hplus : ∀ x y e : Expr, x.Affine f → y.Affine f → check x y = .ok e →
      plus x y = e ∧ e.value v = x.value v + y.value v)
    (haffine : ∀ x y : Expr, x.Affine f → y.Affine f → (plus x y).Affine f) :
    ∀ {qs ps rs : List (Expr × Expr)}, (∀ p ∈ qs, p.1.Affine f ∧ p.2.Affine f) →
      (∀ p ∈ ps, p.1.Affine f ∧ p.2.Affine f) →
      qs.foldlM (fun ps p => Expr.mergeProductWith ratio check p.1 p.2 ps) ps = .ok rs →
      qs.foldl (fun ps p => Expr.mergeProduct plus p.1 p.2 ps) ps = rs ∧
        Expr.productsValue v rs = Expr.productsValue v ps + Expr.productsValue v qs
  | [], ps, rs, _, _, h => by
    cases h
    simp [Expr.productsValue]
  | (a, b) :: qs, ps, rs, hqs, hps, h => by
    rw [List.forall_mem_cons] at hqs
    rw [List.foldlM_cons] at h
    obtain ⟨ps', hps', h⟩ := bind_eq_ok.1 h
    obtain ⟨rfl, hval⟩ := mergeProductWith_eq_ok hplus hqs.1.1 hqs.1.2 hps hps'
    obtain ⟨hfold, hval'⟩ := foldlM_mergeProductWith_eq_ok hplus haffine hqs.2
      (Expr.mergeProduct_affine haffine hqs.1.1 hqs.1.2 hps) h
    refine ⟨hfold, ?_⟩
    rw [hval', hval, Expr.productsValue]
    ring

theorem value_merge_of_checkTable {l r : Terms} {u : Unit} (hl : l.uids.Nodup)
    (hr : r.uids.Nodup) (h : checkTable (signalsOf l) (signalsOf r) = .ok u) :
    (Terms.merge l r).value v = l.value v + r.value v := by
  refine Terms.value_merge (fun t ht w hw he => ?_) hr
  rw [eq_of_checkTable hl h t ht w hw he]

/-- **What is not refused is the sum, with the sum of the values.** -/
theorem addWith_eq_ok (d : ℕ) {a b e : Expr} (ha : a.Canonical f) (hb : b.Canonical f)
    (h : Expr.addWith ratio merge d a b = .ok e) :
    Expr.addAt d a b = e ∧ e.value v = a.value v + b.value v := by
  induction d generalizing a b e with
  | zero =>
    obtain ⟨ts, hm, h⟩ := bind_eq_ok.1 h
    obtain ⟨ht, rfl⟩ := merge_eq_ok hm
    cases h
    refine ⟨Expr.addAt_zero a b, ?_⟩
    rw [ha.field, Expr.value_of, value_merge_of_checkTable ha.distinct hb.distinct ht,
      Expr.productsValue_append, Expr.value_eq, Expr.value_eq v b]
    push_cast; ring
  | succ d ih =>
    obtain ⟨ts, hm, h⟩ := bind_eq_ok.1 h
    obtain ⟨ht, rfl⟩ := merge_eq_ok hm
    obtain ⟨ps, hf, h⟩ := bind_eq_ok.1 h
    obtain ⟨hfold, hval⟩ := foldlM_mergeProductWith_eq_ok
      (fun _ _ _ hx hy => ih hx.canonical hy.canonical) (fun _ _ => Expr.Affine.addAt d) hb.factors
      ha.factors hf
    cases h
    refine ⟨by rw [Expr.addAt_succ, hfold], ?_⟩
    rw [ha.field, Expr.value_of, value_merge_of_checkTable ha.distinct hb.distinct ht, hval,
      Expr.value_eq, Expr.value_eq v b]
    push_cast; ring

theorem add_eq_ok {a b e : Expr} (ha : a.Canonical f) (hb : b.Canonical f)
    (h : add a b = .ok e) : a.add b = e ∧ e.value v = a.value v + b.value v :=
  addWith_eq_ok _ ha hb h

theorem sum_eq_ok : ∀ {es : List Expr} {a e : Expr}, a.Canonical f →
    (∀ x ∈ es, x.Canonical f) → sum a es = .ok e →
    es.foldl Expr.add a = e ∧ e.value v = a.value v + (es.map (·.value v)).sum
  | [], a, _, _, _, h => by cases h; simp
  | b :: es, a, e, ha, hes, h => by
    rw [List.forall_mem_cons] at hes
    rw [sum, List.foldlM_cons] at h
    obtain ⟨c, hc, h⟩ := bind_eq_ok.1 h
    obtain ⟨rfl, hval⟩ := add_eq_ok (v := v) ha hes.1 hc
    obtain ⟨hfold, hval'⟩ := sum_eq_ok (ha.add hes.1) hes.2 h
    refine ⟨hfold, ?_⟩
    rw [hval', hval, List.map_cons, List.sum_cons]
    ring

/-! ## Numbers of their own -/

section
variable {S : Set Signal} (hS : Set.InjOn Signal.uid S)
include hS

theorem lookUpIn_ok {stored : List Signal} (hs : ∀ t ∈ stored, t ∈ S) {s : Signal} (h : s ∈ S) :
    ∃ found, lookUpIn stored s = .ok found := by
  unfold lookUpIn
  split
  · next t ht =>
    have hu : t.uid = s.uid := by simpa using List.find?_some ht
    exact ⟨true, if_pos (hS (hs t (List.mem_of_find?_eq_some ht)) h hu)⟩
  · exact ⟨false, rfl⟩

theorem checkTable_ok {stored : List Signal} (hs : ∀ t ∈ stored, t ∈ S) :
    ∀ {ss : List Signal}, (∀ s ∈ ss, s ∈ S) → checkTable stored ss = .ok ()
  | [], _ => rfl
  | s :: ss, h => by
    rw [List.forall_mem_cons] at h
    obtain ⟨found, hf⟩ := lookUpIn_ok hS hs h.1
    rw [checkTable, hf]
    exact checkTable_ok hs h.2

theorem checkPresent_ok {stored : List Signal} (hs : ∀ t ∈ stored, t ∈ S) :
    ∀ {ss : List Signal}, (∀ s ∈ ss, s ∈ S) → checkPresent stored ss = .ok ()
  | [], _ => rfl
  | s :: ss, h => by
    rw [List.forall_mem_cons] at h
    obtain ⟨found, hf⟩ := lookUpIn_ok hS hs h.1
    rw [checkPresent, hf]
    cases found with
    | true => exact checkPresent_ok hs h.2
    | false => rfl

theorem checkSignals_ok : ∀ {ss seen : List Signal}, (∀ t ∈ seen, t ∈ S) → (∀ s ∈ ss, s ∈ S) →
    checkSignals seen ss = .ok ()
  | [], _, _, _ => rfl
  | s :: ss, seen, hseen, h => by
    rw [List.forall_mem_cons] at h
    obtain ⟨found, hf⟩ := lookUpIn_ok hS hseen h.1
    rw [checkSignals, hf]
    cases found with
    | true => exact checkSignals_ok hseen h.2
    | false => exact checkSignals_ok (List.forall_mem_cons.2 ⟨h.1, hseen⟩) h.2

omit hS in
theorem mem_signalsOf {e : Expr} (h : e.Over f S) : ∀ s ∈ signalsOf e.linear, s ∈ S := by
  intro s hs
  obtain ⟨t, ht, rfl⟩ := List.mem_map.1 hs
  exact h.linear t ht

omit hS in
theorem mem_mentioned {e : Expr} (h : e.Over f S) : ∀ s ∈ mentioned e, s ∈ S := by
  intro s hs
  rcases List.mem_append.1 hs with hs | hs
  · exact mem_signalsOf h s hs
  · obtain ⟨p, hp, hs⟩ := List.mem_flatMap.1 hs
    obtain ⟨ha, hb⟩ := h.products p hp
    exact (List.mem_append.1 hs).elim (mem_signalsOf ha s) (mem_signalsOf hb s)

theorem ratio_ok {x y : Expr} (hx : x.Affine f ∧ x.Over f S) (hy : y.Affine f ∧ y.Over f S) :
    ratio x y = .ok (Expr.ratio? x y) := by
  have hcheck : checkRatio x y = .ok () := by
    unfold checkRatio
    split_ifs
    · exact checkPresent_ok hS (mem_signalsOf hy.2) (mem_signalsOf hx.2)
    · rfl
  rw [ratio, hcheck]
  exact Expr.ratio_eq hx.1.toNormal hy.1.toNormal

theorem sharedFactorWith_ok {x y a b : Expr} (hx : x.Affine f ∧ x.Over f S)
    (hy : y.Affine f ∧ y.Over f S) (ha : a.Affine f ∧ a.Over f S) (hb : b.Affine f ∧ b.Over f S) :
    Expr.sharedFactorWith ratio x y a b = .ok (Expr.sharedFactor? x y a b) := by
  rw [Expr.sharedFactor?_eq, Expr.sharedFactorWith, ratio_ok hS ha hx, ratio_ok hS ha hy,
    ratio_ok hS hb hx, ratio_ok hS hb hy]
  cases Expr.ratio? a x <;> cases Expr.ratio? a y <;> cases Expr.ratio? b x <;>
    cases Expr.ratio? b y <;> rfl

omit hS in
/-- Folding a product keeps factors over the signals. -/
theorem mergeProduct_keeps {plus : Expr → Expr → Expr} (hplus : ∀ x y : Expr,
      x.Affine f ∧ x.Over f S → y.Affine f ∧ y.Over f S → (plus x y).Affine f ∧ (plus x y).Over f S)
    {a b : Expr} (ha : a.Affine f ∧ a.Over f S) (hb : b.Affine f ∧ b.Over f S)
    {ps : List (Expr × Expr)}
    (h : ∀ p ∈ ps, (p.1.Affine f ∧ p.1.Over f S) ∧ (p.2.Affine f ∧ p.2.Over f S)) :
    ∀ p ∈ Expr.mergeProduct plus a b ps,
      (p.1.Affine f ∧ p.1.Over f S) ∧ (p.2.Affine f ∧ p.2.Over f S) :=
  Expr.mergeProduct_induct (P := fun e => e.Affine f ∧ e.Over f S) hplus
    (fun hn hr hk => ⟨hr.1.scaleBy (Expr.ratio?_mod_ne_zero hn.1.toNormal hk),
      Expr.Over.scaleBy _ _ hr.2⟩) ha hb h

theorem mergeProductWith_ok {check : Expr → Expr → Except Error Expr} {plus : Expr → Expr → Expr}
    (hcheck : ∀ x y : Expr, x.Affine f ∧ x.Over f S → y.Affine f ∧ y.Over f S →
      check x y = .ok (plus x y)) {a b : Expr} (ha : a.Affine f ∧ a.Over f S)
    (hb : b.Affine f ∧ b.Over f S) : ∀ {ps : List (Expr × Expr)},
    (∀ p ∈ ps, (p.1.Affine f ∧ p.1.Over f S) ∧ (p.2.Affine f ∧ p.2.Over f S)) →
    Expr.mergeProductWith ratio check a b ps = .ok (Expr.mergeProduct plus a b ps)
  | [], _ => rfl
  | (x, y) :: ps, h => by
    rw [List.forall_mem_cons] at h
    rw [Expr.mergeProduct_cons, Expr.mergeProductWith, sharedFactorWith_ok hS h.1.1 h.1.2 ha hb,
      mergeProductWith_ok hcheck ha hb h.2]
    cases hs : Expr.sharedFactor? x y a b with
    | none => rfl
    | some r =>
      obtain ⟨s, o, e⟩ := r
      obtain ⟨-, ho, he⟩ := Expr.sharedFactor?_induct (P := fun e => e.Affine f ∧ e.Over f S) h.1.1
        h.1.2 ha hb (fun hn hr hk => ⟨hr.1.scaleBy (Expr.ratio?_mod_ne_zero hn.1.toNormal hk),
          Expr.Over.scaleBy _ _ hr.2⟩) hs
      simp only [bind, Except.bind, hcheck o e ho he]
      rfl

theorem foldlM_mergeProductWith_ok {check : Expr → Expr → Except Error Expr}
    {plus : Expr → Expr → Expr}
    (hcheck : ∀ x y : Expr, x.Affine f ∧ x.Over f S → y.Affine f ∧ y.Over f S →
      check x y = .ok (plus x y))
    (hplus : ∀ x y : Expr, x.Affine f ∧ x.Over f S → y.Affine f ∧ y.Over f S →
      (plus x y).Affine f ∧ (plus x y).Over f S) :
    ∀ {qs ps : List (Expr × Expr)},
      (∀ p ∈ qs, (p.1.Affine f ∧ p.1.Over f S) ∧ (p.2.Affine f ∧ p.2.Over f S)) →
      (∀ p ∈ ps, (p.1.Affine f ∧ p.1.Over f S) ∧ (p.2.Affine f ∧ p.2.Over f S)) →
      qs.foldlM (fun ps p => Expr.mergeProductWith ratio check p.1 p.2 ps) ps =
        .ok (qs.foldl (fun ps p => Expr.mergeProduct plus p.1 p.2 ps) ps)
  | [], _, _, _ => rfl
  | (a, b) :: qs, ps, hqs, hps => by
    rw [List.forall_mem_cons] at hqs
    rw [List.foldlM_cons, mergeProductWith_ok hS hcheck hqs.1.1 hqs.1.2 hps]
    exact foldlM_mergeProductWith_ok hcheck hplus hqs.2
      (mergeProduct_keeps hplus hqs.1.1 hqs.1.2 hps)

omit hS in
theorem factors_over {e : Expr} (hc : e.Canonical f) (ho : e.Over f S) :
    ∀ p ∈ e.products, (p.1.Affine f ∧ p.1.Over f S) ∧ (p.2.Affine f ∧ p.2.Over f S) :=
  fun p hp => ⟨⟨(hc.factors p hp).1, (ho.products p hp).1⟩,
    ⟨(hc.factors p hp).2, (ho.products p hp).2⟩⟩

/-- **Sums of signals with numbers of their own are never refused.** -/
theorem addWith_ok : ∀ (d : ℕ) {a b : Expr}, a.Canonical f → b.Canonical f → a.Over f S →
    b.Over f S → Expr.addWith ratio merge d a b = .ok (Expr.addAt d a b)
  | 0, a, b, _, _, ha, hb => by
    rw [Expr.addWith, Expr.addAt_zero, merge, checkTable_ok hS (mem_signalsOf ha) (mem_signalsOf hb)]
    rfl
  | d + 1, a, b, hca, hcb, ha, hb => by
    rw [Expr.addWith, Expr.addAt_succ, merge,
      checkTable_ok hS (mem_signalsOf ha) (mem_signalsOf hb),
      foldlM_mergeProductWith_ok hS
        (fun x y hx hy => addWith_ok d hx.1.canonical hy.1.canonical hx.2 hy.2)
        (fun x y hx hy => ⟨hx.1.addAt d hy.1, Expr.Over.addAt d hx.2 hy.2⟩)
        (factors_over hcb hb) (factors_over hca ha)]
    rfl

theorem add_ok {a b : Expr} (hca : a.Canonical f) (hcb : b.Canonical f) (ha : a.Over f S)
    (hb : b.Over f S) : add a b = .ok (a.add b) := addWith_ok hS _ hca hcb ha hb

theorem sum_ok : ∀ {es : List Expr} {a : Expr}, a.Canonical f → a.Over f S →
    (∀ e ∈ es, e.Canonical f ∧ e.Over f S) → sum a es = .ok (es.foldl Expr.add a)
  | [], _, _, _, _ => rfl
  | b :: es, a, hca, ha, hes => by
    rw [List.forall_mem_cons] at hes
    rw [sum, List.foldlM_cons, add_ok hS hca hes.1.1 ha hes.1.2]
    exact sum_ok (hca.add hes.1.1) (Expr.Over.addAt _ ha hes.1.2) hes.2

end

end RankOne.Clash
