/-
  RankOne — the signals that a row reads.

  Terms cancel and zero products are dropped while a row is made, so what a row reads
  is not what its statement mentions, but what is left in the row.

  * `term_of_ofExpr`, `ofExpr_term`: a combination has a term for a signal iff its form
    has one;
  * `Expr.Clean`: every signal stands once, with a nonzero coefficient, as in all
    canonical forms; differences and rows keep that;
  * `Constraint.Reads`, `Coherent.reads_iff`: a row has a nonzero coefficient at the
    signals that it lists, and a term for no other;
  * `isSatisfied_set`: a row does not hang on an entry for which it has no term.
-/
import RankOne.Proofs.Build.References
import RankOne.Proofs.Circuit.Sparse
import RankOne.Proofs.Expr.Canonical

namespace RankOne

namespace Combination

/-! ## Terms of combinations -/

theorem mem_accumulate_of_ne {p : ℕ} {i j : Int} {c k : ℕ} {ts : List (Int × ℕ)} (hij : i ≠ j)
    (h : (i, k) ∈ ts) : (i, k) ∈ accumulate p j c ts := by
  induction ts with
  | nil => cases h
  | cons t ts ih =>
    obtain ⟨n, d⟩ := t
    rw [accumulate]
    split_ifs with hn
    · rcases List.mem_cons.1 h with h | h
      · cases h; exact absurd hn hij
      · exact List.mem_cons_of_mem _ h
    · rcases List.mem_cons.1 h with h | h
      · rw [h]; exact List.mem_cons_self
      · exact List.mem_cons_of_mem _ (ih h)

theorem mem_accumulate_new {p : ℕ} {i : Int} {c : ℕ} {ts : List (Int × ℕ)}
    (h : i ∉ ts.map (·.1)) : (i, c % p) ∈ accumulate p i c ts := by
  induction ts with
  | nil => exact List.mem_singleton_self _
  | cons t ts ih =>
    obtain ⟨j, d⟩ := t
    simp only [List.map_cons, List.mem_cons, not_or] at h
    rw [accumulate, if_neg (Ne.symm h.1)]
    exact List.mem_cons_of_mem _ (ih h.2)

section
variable {index : Signal → Except Error Int} {e : Expr} {l : Combination}

/-- Where no two signals share a position, each keeps its coefficient. -/
theorem foldlM_accumulate_mem {p : ℕ} {t : Signal × ℕ} {i : Int} (hi : index t.1 = .ok i) :
    ∀ {linear : Terms} {acc ts : List (Int × ℕ)},
      linear.Pairwise (fun u v => index u.1 ≠ index v.1) → t ∈ linear → i ∉ acc.map (·.1) →
      linear.foldlM (fun acc t => do return accumulate p (← index t.1) t.2 acc) acc = .ok ts →
      (i, t.2 % p) ∈ ts
  | u :: linear, acc, ts, hdistinct, ht, hnew, h => by
    obtain ⟨hu, hdistinct⟩ := List.pairwise_cons.1 hdistinct
    rw [List.foldlM_cons, bind_eq_ok] at h
    obtain ⟨acc', hacc, h⟩ := h
    obtain ⟨j, hj, hacc⟩ := bind_eq_ok.1 hacc
    cases hacc
    rcases List.mem_cons.1 ht with rfl | ht
    · obtain rfl : i = j := Except.ok.inj (hi.symm.trans hj)
      -- no later signal comes to this position
      refine foldlM_accumulate_induct (P := fun ts => (i, t.2 % p) ∈ ts)
        (fun v hv k acc hk hacc => mem_accumulate_of_ne ?_ hacc) (mem_accumulate_new hnew) h
      rintro rfl
      exact hu v hv (hi.trans hk.symm)
    · have hij : i ≠ j := by
        rintro rfl
        exact hu t ht (hj.trans hi.symm)
      refine foldlM_accumulate_mem hi hdistinct ht ?_ h
      rw [positions_accumulate]
      split_ifs
      · exact hnew
      · simpa [hij] using hnew

/-- A signal of a form has a term in its combination. -/
theorem ofExpr_term (h : ofExpr index e = .ok l)
    (hdistinct : e.linear.Pairwise fun u v => index u.1 ≠ index v.1) {t : Signal × ℕ}
    (ht : t ∈ e.linear) (hcoeff : t.2 % e.field.p ≠ 0) {i : Int} (hi : index t.1 = .ok i)
    (h₀ : i ≠ 0) : (i, ((t.2 % e.field.p : ℕ) : Int)) ∈ l.terms := by
  obtain ⟨-, ts, hts, rfl⟩ := ofExpr_eq_ok h
  have hmem : (i, t.2 % e.field.p) ∈ ts := by
    refine foldlM_accumulate_mem hi hdistinct ht ?_ hts
    split_ifs <;> simp [h₀]
  refine List.mem_map.2 ⟨(i, t.2 % e.field.p), ?_, rfl⟩
  exact (sortTerms_perm ts).mem_iff.2 (List.mem_filter.2 ⟨hmem, by simpa using hcoeff⟩)

/-- A term of a combination is that of the constant, or of a signal of its form. -/
theorem term_of_ofExpr (h : ofExpr index e = .ok l) {t : Int × Int} (ht : t ∈ l.terms)
    (h₀ : t.1 ≠ 0) : ∃ u ∈ e.linear, index u.1 = .ok t.1 := by
  obtain ⟨-, ts, hts, rfl⟩ := ofExpr_eq_ok h
  have hsource : ∀ v ∈ ts, v.1 = 0 ∨ ∃ u ∈ e.linear, index u.1 = .ok v.1 := by
    refine foldlM_accumulate_induct
      (P := fun ts => ∀ v ∈ ts, v.1 = 0 ∨ ∃ u ∈ e.linear, index u.1 = .ok v.1)
      (fun u hu i acc hi hacc => ?_) ?_ hts
    · exact mem_accumulate (P := fun i => i = 0 ∨ ∃ u ∈ e.linear, index u.1 = .ok i)
        (Or.inr ⟨u, hu, hi⟩) hacc
    · split_ifs <;> simp
  obtain ⟨v, hv, rfl⟩ := List.mem_map.1 ht
  exact (hsource v (mem_sortTerms hv)).resolve_left h₀

end

end Combination

/-! ## Clean expressions -/

/-- Every signal stands once, with a coefficient that is no multiple of `p`. -/
def Terms.Clean (p : ℕ) (ts : Terms) : Prop := ts.uids.Nodup ∧ ∀ t ∈ ts, t.2 % p ≠ 0

instance (p : ℕ) (ts : Terms) : Decidable (ts.Clean p) :=
  inferInstanceAs (Decidable (ts.uids.Nodup ∧ ∀ t ∈ ts, t.2 % p ≠ 0))

theorem Terms.clean_reduce {p : ℕ} (hp : 0 < p) {ts : Terms} (h : ts.uids.Nodup) :
    (Terms.reduce p ts).Clean p := by
  refine ⟨(Terms.uids_reduce_sublist p ts).nodup h, fun t ht => ?_⟩
  obtain ⟨hpos, hlt⟩ := Terms.coeff_reduce hp ht
  rw [Nat.mod_eq_of_lt hlt]
  omega

namespace Expr

/-- The terms of the form and of its factors are clean, as the constructor leaves
    them. -/
structure Clean (e : Expr) : Prop where
  linear : e.linear.Clean e.field.p
  factors : ∀ q ∈ e.products, q.1.linear.Clean q.1.field.p ∧ q.2.linear.Clean q.2.field.p

instance (e : Expr) : Decidable e.Clean :=
  decidable_of_iff (e.linear.Clean e.field.p ∧
    ∀ q ∈ e.products, q.1.linear.Clean q.1.field.p ∧ q.2.linear.Clean q.2.field.p)
    ⟨fun h => ⟨h.1, h.2⟩, fun h => ⟨h.linear, h.factors⟩⟩

theorem clean_zero (f : PrimeField) : (zero f).linear.Clean (zero f).field.p :=
  ⟨List.nodup_nil, by simp [zero, ofInt]⟩

theorem Normal.clean {f : PrimeField} {e : Expr} (h : e.Normal f) :
    e.linear.Clean e.field.p := by
  refine ⟨h.distinct, fun t ht => ?_⟩
  obtain ⟨hpos, hlt⟩ := h.linear t ht
  rw [h.field, Nat.mod_eq_of_lt hlt]
  exact hpos.ne'

/-- What the operations give is clean. -/
theorem Canonical.clean {f : PrimeField} {e : Expr} (h : e.Canonical f) : e.Clean :=
  ⟨h.toNormal.clean, fun q hq => ⟨(h.factors q hq).1.clean, (h.factors q hq).2.clean⟩⟩

theorem Clean.ofSignal (s : Signal) : (ofSignal s).Clean := (Canonical.ofSignal rfl).clean

theorem clean_scaleBy {e : Expr} (k : ℕ) (h : e.linear.Clean e.field.p) :
    (scaleBy k e).linear.Clean (scaleBy k e).field.p := by
  obtain ⟨field, const, linear, products, degree⟩ := e
  rw [scaleBy]
  split_ifs
  · exact clean_zero field
  · exact h
  · exact Terms.clean_reduce field.p_pos (by rw [linear_scale_uids]; exact h.1)

/-- A sum is clean when its first part lists every signal once. -/
theorem clean_addAt (d : ℕ) {a : Expr} (b : Expr) (h : a.linear.Clean a.field.p) :
    (addAt d a b).linear.Clean (addAt d a b).field.p := by
  cases d <;> exact Terms.clean_reduce a.field.p_pos (Terms.nodup_merge h.1)

theorem Clean.neg {e : Expr} (h : e.Clean) : e.neg.Clean := by
  refine ⟨clean_scaleBy _ h.linear, ?_⟩
  obtain ⟨field, const, linear, products, degree⟩ := e
  rw [Expr.neg, scale, scaleBy]
  split_ifs
  · simp [zero, ofInt]
  · exact h.factors
  · intro q hq
    obtain ⟨r, hr, rfl⟩ := mem_scaleProducts hq
    obtain ⟨ha, hb⟩ := h.factors r hr
    exact ⟨clean_scaleBy _ ha, hb⟩

/-- **Differences of clean forms are clean**, however their products are folded. -/
theorem Clean.sub {a b : Expr} (ha : a.Clean) (hb : b.Clean) : (a.sub b).Clean := by
  refine ⟨clean_addAt _ _ ha.linear, ?_⟩
  rw [Expr.sub, add]
  cases b.neg.depth with
  | zero =>
    rw [addAt_zero]
    exact fun q hq => (List.mem_append.1 hq).elim (ha.factors q) (hb.neg.factors q)
  | succ d =>
    rw [addAt_succ]
    exact foldl_mergeProduct_induct (P := fun e => e.linear.Clean e.field.p)
      (fun _ _ hx _ => clean_addAt d _ hx) (fun _ hr _ => clean_scaleBy _ hr) hb.neg.factors
      ha.factors

/-- The sides of the row of a clean form are clean. -/
theorem Clean.toRow {e a b c : Expr} (h : e.Clean) (hr : e.toRow = .ok (a, b, c)) :
    ∀ x ∈ [a, b, c], x.linear.Clean x.field.p := by
  have hlin : e.linearPart.neg.linear.Clean e.linearPart.neg.field.p := clean_scaleBy _ h.linear
  obtain ⟨rfl, ⟨-, rfl, rfl⟩ | hl⟩ := toRow_cases hr
  · simp [clean_zero, hlin]
  · have hm : (a, b) ∈ e.liveProducts := by rw [hl]; exact List.mem_singleton_self _
    simpa [hlin] using h.factors (a, b) (List.mem_of_mem_filter hm)

theorem uid_mem_signals {e : Expr} (h : e.products = []) {u : ℤ} :
    u ∈ e.signals.map (·.uid) ↔ u ∈ e.linear.uids := by
  rw [Expr.signals, Signal.uid_mem_sorted, h, List.flatMap_nil, List.append_nil, List.map_map]
  rfl

end Expr

/-- The expressions of a statement are clean. -/
def Statement.Clean (st : Statement) : Prop := ∀ e ∈ st.exprs, e.Clean

instance (st : Statement) : Decidable st.Clean :=
  inferInstanceAs (Decidable (∀ e ∈ st.exprs, e.Clean))

/-! ## Rows -/

/-- The row has a coefficient at a position that is nonzero modulo `p`. -/
def Constraint.Reads (r : Constraint) (p : Int) (i : ℕ) : Prop :=
  ∃ l ∈ r.sides, ∃ t ∈ l.terms, t.1 = i ∧ ¬ p ∣ t.2

instance (r : Constraint) (p : Int) (i : ℕ) : Decidable (r.Reads p i) :=
  inferInstanceAs (Decidable (∃ l ∈ r.sides, ∃ t ∈ l.terms, t.1 = i ∧ ¬ p ∣ t.2))

theorem elementAt_setIfInBounds {α : Type} (xs : Array α) {i : ℕ} {j : Int} (x : α) (hj : 0 ≤ j)
    (hij : j ≠ i) : elementAt (xs.setIfInBounds i x) j = elementAt xs j := by
  have hne : i ≠ j.toNat := by omega
  have hget : (xs.setIfInBounds i x)[j.toNat]? = xs[j.toNat]? := by
    rw [Array.getElem?_setIfInBounds, if_neg hne]
  simp only [elementAt, position?, if_pos hj, Array.size_setIfInBounds]
  split_ifs
  · rw [Option.bind_some, Option.bind_some, hget]
  · rfl

theorem Combination.dot_congr {w w' : Array Int} : ∀ {ts : List (Int × Int)},
    (∀ t ∈ ts, elementAt w t.1 = elementAt w' t.1) → dot w ts = dot w' ts
  | [], _ => rfl
  | (i, c) :: ts, h => by
    rw [List.forall_mem_cons] at h
    rw [dot, dot, dot_congr h.2, h.1]

/-- A row does not hang on an entry for which it has no term. -/
theorem Constraint.isSatisfied_set {r : Constraint} {i : ℕ}
    (hr : ∀ l ∈ r.sides, ∀ t ∈ l.terms, 0 ≤ t.1 ∧ t.1 ≠ i) (w : Array Int) (x p : Int) :
    r.isSatisfied (w.setIfInBounds i x) p = r.isSatisfied w p := by
  have hside {l : Combination} (hl : l ∈ r.sides) :
      l.evaluate (w.setIfInBounds i x) p = l.evaluate w p := by
    have hdot : Combination.dot (w.setIfInBounds i x) l.terms = Combination.dot w l.terms :=
      Combination.dot_congr fun t ht =>
        elementAt_setIfInBounds w x (hr l hl t ht).1 (hr l hl t ht).2
    rw [Combination.evaluate, Combination.evaluate, hdot]
  have hmem : r.a ∈ r.sides ∧ r.b ∈ r.sides ∧ r.c ∈ r.sides := by simp [Constraint.sides]
  rw [isSatisfied, isSatisfied, hside hmem.1, hside hmem.2.1, hside hmem.2.2]

namespace Circuit

section
variable {c : Circuit} {sts : List Statement} {index : Signal → Except Error Int} {s : Signal}

theorem Coherent.place_ne_zero (hc : c.Coherent sts) (hs : s ∈ c.signals) (hk : s.kind ≠ .one) :
    c.place s ≠ 0 := by
  intro h₀
  have hone : c.place (Workspace.one c.field) = 0 := hc.place 0 _ hc.first
  have heq := hc.place_inj hs (Array.mem_of_getElem? hc.first) (h₀.trans hone.symm)
  exact hk (by rw [heq]; rfl)

/-- A term for a signal is there iff the form lists it, and then nonzero. -/
theorem Coherent.side_reads (hc : c.Coherent sts)
    (hi : ∀ s ∈ c.signals, index s = .ok (c.place s : Int)) {e : Expr} {l : Combination}
    (hl : Combination.ofExpr index e = .ok l) (he : e.Over c.field {s | s ∈ c.signals})
    (hclean : e.linear.Clean e.field.p) (hs : s ∈ c.signals) (hk : s.kind ≠ .one) :
    ((∃ t ∈ l.terms, t.1 = (c.place s : Int)) → s.uid ∈ e.linear.uids) ∧
      (s.uid ∈ e.linear.uids →
        ∃ t ∈ l.terms, t.1 = (c.place s : Int) ∧ ¬ (c.field.p : Int) ∣ t.2) := by
  have hplace : ((c.place s : ℕ) : Int) ≠ 0 := by
    exact_mod_cast hc.place_ne_zero hs hk
  have hinj {u v : Signal} (hu : u ∈ c.signals) (hv : v ∈ c.signals) (h : index u = index v) :
      u = v := by
    rw [hi u hu, hi v hv] at h
    exact hc.place_inj hu hv (by exact_mod_cast Except.ok.inj h)
  constructor
  · rintro ⟨t, ht, htp⟩
    obtain ⟨u, hu, hindex⟩ := Combination.term_of_ofExpr hl ht (htp ▸ hplace)
    obtain rfl : u.1 = s :=
      hinj (he.linear u hu) hs (by rw [hindex, hi s hs, htp])
    exact List.mem_map_of_mem hu
  · intro hmem
    obtain ⟨t, ht, hu⟩ := List.mem_map.1 hmem
    have hts : t.1 = s := hc.uid _ (he.linear t ht) s hs hu
    have hdistinct : e.linear.Pairwise fun u v => index u.1 ≠ index v.1 := by
      have hnodup : e.linear.Pairwise fun u v => u.1.uid ≠ v.1.uid := List.pairwise_map.1 hclean.1
      exact hnodup.imp_of_mem fun hu hv hne h =>
        hne (by rw [hinj (he.linear _ hu) (he.linear _ hv) h])
    have hcoeff := hclean.2 t ht
    have hterm := Combination.ofExpr_term hl hdistinct ht hcoeff
      (by rw [hts]; exact hi s hs) hplace
    refine ⟨_, hterm, rfl, fun hdvd => ?_⟩
    rw [← he.field] at hdvd
    have hle := Nat.le_of_dvd (Nat.pos_of_ne_zero hcoeff) (Int.natCast_dvd_natCast.1 hdvd)
    exact absurd hle (Nat.mod_lt _ e.field.p_pos).not_ge

/-- The sides of the row of a clean statement are clean. -/
theorem emits_clean {st : Statement} {row : Row} (hclean : st.Clean) (h : st.Emits row) :
    ∀ x ∈ [row.a, row.b, row.c], x.linear.Clean x.field.p := by
  cases h with
  | assign h => exact ((hclean _ List.mem_cons_self).sub (.ofSignal _)).toRow h
  | constrain h =>
    exact ((hclean _ List.mem_cons_self).sub
      (hclean _ (List.mem_cons_of_mem _ List.mem_cons_self))).toRow h

/-- **A row of a circuit has a term for a signal iff it lists the signal, and then a
    nonzero coefficient.** -/
theorem Coherent.reads_iff (hc : c.Coherent sts)
    (hi : ∀ s ∈ c.signals, index s = .ok (c.place s : Int)) {st : Statement} {row : Row}
    {r : Constraint} (hown : st.Own c) (hclean : st.Clean) (hrow : st.Emits row)
    (hlow : r.Lowers index row) (hs : s ∈ c.signals) (hk : s.kind ≠ .one) :
    ((∃ l ∈ r.sides, ∃ t ∈ l.terms, t.1 = (c.place s : Int)) → s.uid ∈ row.signals.map (·.uid)) ∧
      (s.uid ∈ row.signals.map (·.uid) → r.Reads c.field.p (c.place s)) := by
  obtain ⟨oa, ob, oc⟩ := emits_over hc hown hrow
  have hsides := emits_clean hclean hrow
  simp only [List.forall_mem_cons] at hsides
  have ha := hc.side_reads hi hlow.a oa hsides.1 hs hk
  have hb := hc.side_reads hi hlow.b ob hsides.2.1 hs hk
  have hd := hc.side_reads hi hlow.c oc hsides.2.2.1 hs hk
  rw [Row.signals, Signal.uid_mem_sorted, List.map_append, List.map_append, List.mem_append,
    List.mem_append, Expr.uid_mem_signals (Combination.ofExpr_eq_ok hlow.a).1,
    Expr.uid_mem_signals (Combination.ofExpr_eq_ok hlow.b).1,
    Expr.uid_mem_signals (Combination.ofExpr_eq_ok hlow.c).1]
  simp only [Constraint.Reads, Constraint.sides, List.mem_cons, List.not_mem_nil, or_false,
    exists_eq_or_imp, exists_eq_left]
  constructor
  · rintro (h | h | h)
    · exact Or.inl (Or.inl (ha.1 h))
    · exact Or.inl (Or.inr (hb.1 h))
    · exact Or.inr (hd.1 h)
  · rintro ((h | h) | h)
    · exact Or.inl (ha.2 h)
    · exact Or.inr (Or.inl (hb.2 h))
    · exact Or.inr (Or.inr (hd.2 h))

end

end Circuit

end RankOne
