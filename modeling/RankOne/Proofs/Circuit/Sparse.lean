/-
  RankOne — the rows of a system are sparse.

  * `ofExpr_sorted`, `ofExpr_pos`, `ofExpr_lt`, `ofExpr_below`: the positions of a
    combination increase strictly, its coefficients are nonzero and canonical, and its
    positions are those of signals;
  * `Expr.Reduced`: the constants of the factors are canonical, as the constructor
    leaves them; differences and rows keep that;
  * `Combination.Sparse`, `Coherent.sparse`: the three sides of every row.
-/
import RankOne.Proofs.Circuit.Meaning

namespace RankOne

namespace Combination

/-! ## Merging and sorting -/

/-- Merging adds a position at most once. -/
theorem positions_accumulate (p : ℕ) (i : Int) (c : ℕ) (ts : List (Int × ℕ)) :
    (accumulate p i c ts).map (·.1) =
      if i ∈ ts.map (·.1) then ts.map (·.1) else ts.map (·.1) ++ [i] := by
  induction ts with
  | nil => rfl
  | cons t ts ih =>
    obtain ⟨j, d⟩ := t
    rw [accumulate]
    by_cases hj : j = i
    · simp [hj]
    · rw [if_neg hj, List.map_cons, ih]
      by_cases hi : i ∈ ts.map (·.1) <;> simp [hi, Ne.symm hj]

theorem nodup_accumulate {p : ℕ} {i : Int} {c : ℕ} {ts : List (Int × ℕ)}
    (h : (ts.map (·.1)).Nodup) : ((accumulate p i c ts).map (·.1)).Nodup := by
  rw [positions_accumulate]
  split_ifs with hi
  · exact h
  · rw [← List.concat_eq_append]; exact h.concat hi

theorem coeff_accumulate {p : ℕ} (hp : 0 < p) {i : Int} {c : ℕ} {ts : List (Int × ℕ)}
    (h : ∀ t ∈ ts, t.2 < p) : ∀ t ∈ accumulate p i c ts, t.2 < p := by
  induction ts with
  | nil => simpa [accumulate] using Nat.mod_lt c hp
  | cons t ts ih =>
    obtain ⟨j, d⟩ := t
    rw [List.forall_mem_cons] at h
    rw [accumulate]
    split_ifs
    · exact List.forall_mem_cons.2 ⟨Nat.mod_lt _ hp, h.2⟩
    · exact List.forall_mem_cons.2 ⟨h.1, ih h.2⟩

theorem pairwise_insertSorted {t : Int × ℕ} {ts : List (Int × ℕ)}
    (hts : ts.Pairwise (·.1 < ·.1)) (ht : ∀ u ∈ ts, u.1 ≠ t.1) :
    (insertSorted t ts).Pairwise (·.1 < ·.1) := by
  induction ts with
  | nil => exact List.pairwise_singleton _ _
  | cons u ts ih =>
    rw [List.forall_mem_cons] at ht
    obtain ⟨hu, hrest⟩ := List.pairwise_cons.1 hts
    rw [insertSorted]
    split_ifs with hle
    · have htu : t.1 < u.1 := lt_of_le_of_ne hle (Ne.symm ht.1)
      exact List.pairwise_cons.2
        ⟨List.forall_mem_cons.2 ⟨htu, fun v hv => htu.trans (hu v hv)⟩, hts⟩
    · refine List.pairwise_cons.2 ⟨fun v hv => ?_, ih hrest ht.2⟩
      rcases mem_insertSorted hv with rfl | hv
      · exact not_le.1 hle
      · exact hu v hv

/-- Distinct positions are sorted strictly. -/
theorem pairwise_sortTerms {ts : List (Int × ℕ)} (h : (ts.map (·.1)).Nodup) :
    (sortTerms ts).Pairwise (·.1 < ·.1) := by
  have hsort : ∀ us : List (Int × ℕ), (us.map (·.1)).Nodup →
      (us.foldr insertSorted []).Pairwise (·.1 < ·.1) := by
    intro us
    induction us with
    | nil => exact fun _ => .nil
    | cons u us ih =>
      intro hus
      obtain ⟨hu, hus⟩ := List.nodup_cons.1 hus
      refine pairwise_insertSorted (ih hus) fun v hv heq => hu ?_
      exact List.mem_map.2 ⟨v, mem_foldr_insertSorted hv, heq⟩
  exact hsort _ (h.sublist (List.filter_sublist.map _))

theorem insertSorted_perm (t : Int × ℕ) : ∀ ts : List (Int × ℕ), (insertSorted t ts).Perm (t :: ts)
  | [] => .refl _
  | u :: ts => by
    rw [insertSorted]
    split_ifs
    · exact .refl _
    · exact ((insertSorted_perm t ts).cons u).trans (.swap t u ts)

theorem sortTerms_perm (ts : List (Int × ℕ)) : (sortTerms ts).Perm (ts.filter (·.2 ≠ 0)) := by
  unfold sortTerms
  induction ts.filter (·.2 ≠ 0) with
  | nil => exact .refl _
  | cons t ts ih => exact (insertSorted_perm t _).trans (ih.cons t)

theorem coeff_sortTerms {t : Int × ℕ} {ts : List (Int × ℕ)} (h : t ∈ sortTerms ts) : t.2 ≠ 0 := by
  simpa using (List.mem_filter.1 (mem_foldr_insertSorted h)).2

/-! ## Combinations -/

section
variable {index : Signal → Except Error Int} {e : Expr} {l : Combination}

/-- What merging one coefficient keeps, merging all keeps. -/
theorem foldlM_accumulate_induct {P : List (Int × ℕ) → Prop} {p : ℕ} :
    ∀ {linear : Terms} {acc ts : List (Int × ℕ)},
      (∀ t ∈ linear, ∀ i acc, index t.1 = .ok i → P acc → P (accumulate p i t.2 acc)) → P acc →
      linear.foldlM (fun acc t => do return accumulate p (← index t.1) t.2 acc) acc = .ok ts → P ts
  | [], _, _, _, h₀, h => by cases h; exact h₀
  | t :: linear, acc, ts, hstep, h₀, h => by
    rw [List.forall_mem_cons] at hstep
    rw [List.foldlM_cons, bind_eq_ok] at h
    obtain ⟨acc', hacc, h⟩ := h
    obtain ⟨i, hi, hacc⟩ := bind_eq_ok.1 hacc
    cases hacc
    exact foldlM_accumulate_induct hstep.2 (hstep.1 i acc hi h₀) h

/-- **The positions of a combination increase strictly.** -/
theorem ofExpr_sorted (h : ofExpr index e = .ok l) : l.indices.Pairwise (· < ·) := by
  obtain ⟨-, ts, hts, rfl⟩ := ofExpr_eq_ok h
  have hnodup : (ts.map (·.1)).Nodup := by
    refine foldlM_accumulate_induct (P := fun ts => (ts.map (·.1)).Nodup)
      (fun _ _ _ _ _ hacc => nodup_accumulate hacc) ?_ hts
    split_ifs <;> simp
  rw [indices, List.map_map, List.pairwise_map]
  exact pairwise_sortTerms hnodup

/-- No coefficient of a combination is zero. -/
theorem ofExpr_pos (h : ofExpr index e = .ok l) : ∀ t ∈ l.terms, 1 ≤ t.2 := by
  obtain ⟨-, ts, -, rfl⟩ := ofExpr_eq_ok h
  intro t ht
  obtain ⟨u, hu, rfl⟩ := List.mem_map.1 ht
  have h₀ := coeff_sortTerms hu
  simp only
  omega

/-- The coefficients of a combination are canonical. -/
theorem ofExpr_lt (h : ofExpr index e = .ok l) (hc : e.const < e.field.p) :
    ∀ t ∈ l.terms, t.2 < e.field.p := by
  obtain ⟨-, ts, hts, rfl⟩ := ofExpr_eq_ok h
  have hlt : ∀ t ∈ ts, t.2 < e.field.p := by
    refine foldlM_accumulate_induct (P := fun ts => ∀ t ∈ ts, t.2 < e.field.p)
      (fun _ _ _ _ _ hacc => coeff_accumulate e.field.p_pos hacc) ?_ hts
    split_ifs <;> simp [hc]
  intro t ht
  obtain ⟨u, hu, rfl⟩ := List.mem_map.1 ht
  exact Int.ofNat_lt.2 (hlt u (mem_sortTerms hu))

/-- The positions of a combination are those of its signals, and that of the
    constant. -/
theorem ofExpr_below {n : ℕ} (hn : 0 < n) (h : ofExpr index e = .ok l)
    (hi : ∀ t ∈ e.linear, ∃ i : ℕ, i < n ∧ index t.1 = .ok (i : Int)) :
    ∀ t ∈ l.terms, 0 ≤ t.1 ∧ t.1 < n := by
  obtain ⟨-, ts, hts, rfl⟩ := ofExpr_eq_ok h
  have hbelow : ∀ t ∈ ts, 0 ≤ t.1 ∧ t.1 < n := by
    refine foldlM_accumulate_induct (P := fun ts => ∀ t ∈ ts, 0 ≤ t.1 ∧ t.1 < (n : Int))
      (fun t ht i acc hindex hacc => ?_) ?_ hts
    · obtain ⟨k, hk, hk'⟩ := hi t ht
      obtain rfl : (k : Int) = i := Except.ok.inj (hk'.symm.trans hindex)
      exact mem_accumulate (P := fun i => 0 ≤ i ∧ i < (n : Int)) ⟨by omega, by omega⟩ hacc
    · split_ifs <;> simp [hn]
  intro t ht
  obtain ⟨u, hu, rfl⟩ := List.mem_map.1 ht
  exact hbelow u (mem_sortTerms hu)

end

end Combination

/-! ## Constants of factors -/

namespace Expr

/-- The constants of the factors are canonical. -/
def Reduced (e : Expr) : Prop :=
  ∀ q ∈ e.products, q.1.const < q.1.field.p ∧ q.2.const < q.2.field.p

instance (e : Expr) : Decidable e.Reduced :=
  inferInstanceAs (Decidable (∀ q ∈ e.products, q.1.const < q.1.field.p ∧ q.2.const < q.2.field.p))

theorem const_scaleBy_lt {e : Expr} (k : ℕ) (h : e.const < e.field.p) :
    (scaleBy k e).const < (scaleBy k e).field.p := by
  obtain ⟨field, const, linear, products, degree⟩ := e
  rw [scaleBy]
  split_ifs
  · exact field.reduce_lt 0
  · exact h
  · exact Nat.mod_lt _ field.p_pos

theorem const_addAt_lt (d : ℕ) (a b : Expr) : (addAt d a b).const < (addAt d a b).field.p := by
  cases d <;> exact Nat.mod_lt _ a.field.p_pos

theorem Reduced.neg {e : Expr} (h : e.Reduced) : e.neg.Reduced := by
  obtain ⟨field, const, linear, products, degree⟩ := e
  rw [Expr.neg, scale, scaleBy]
  split_ifs
  · simp [Reduced, zero, ofInt]
  · exact h
  · intro q hq
    obtain ⟨r, hr, rfl⟩ := mem_scaleProducts hq
    exact ⟨const_scaleBy_lt _ (h r hr).1, (h r hr).2⟩

/-- Folding products together leaves canonical constants. -/
theorem Reduced.sub {a b : Expr} (ha : a.Reduced) (hb : b.Reduced) : (a.sub b).Reduced := by
  rw [Expr.sub, add]
  cases b.neg.depth with
  | zero =>
    rw [addAt_zero]
    exact fun q hq => (List.mem_append.1 hq).elim (ha q) (hb.neg q)
  | succ d =>
    rw [addAt_succ]
    exact foldl_mergeProduct_induct (P := fun e => e.const < e.field.p)
      (fun _ _ _ _ => const_addAt_lt d _ _) (fun _ hr _ => const_scaleBy_lt _ hr) hb.neg ha

theorem const_sub_lt (a b : Expr) : (a.sub b).const < (a.sub b).field.p := const_addAt_lt _ _ _

/-- The sides of a row have canonical constants. -/
theorem Reduced.toRow {e a b c : Expr} (h : e.Reduced) (hc : e.const < e.field.p)
    (hr : e.toRow = .ok (a, b, c)) : ∀ x ∈ [a, b, c], x.const < x.field.p := by
  have hzero : (zero e.field).const < (zero e.field).field.p := e.field.reduce_lt 0
  have hlin : e.linearPart.neg.const < e.linearPart.neg.field.p := const_scaleBy_lt _ hc
  obtain ⟨rfl, ⟨-, rfl, rfl⟩ | hl⟩ := toRow_cases hr
  · simp [hzero, hlin]
  · have hm : (a, b) ∈ e.liveProducts := by rw [hl]; exact List.mem_singleton_self _
    simpa [hlin] using h (a, b) (List.mem_of_mem_filter hm)

end Expr

/-! ## Rows -/

/-- The three sides of a row. -/
def Constraint.sides (r : Constraint) : List Combination := [r.a, r.b, r.c]

/-- Strictly increasing positions below `n`, with nonzero canonical coefficients
    modulo `p`. -/
structure Combination.Sparse (p n : ℕ) (l : Combination) : Prop where
  sorted : l.indices.Pairwise (· < ·)
  below : ∀ t ∈ l.terms, 0 ≤ t.1 ∧ t.1 < n
  coeff : ∀ t ∈ l.terms, 1 ≤ t.2 ∧ t.2 < p

/-- The expressions of a statement have factors with canonical constants. -/
def Statement.Reduced (st : Statement) : Prop := ∀ e ∈ st.exprs, e.Reduced

instance (st : Statement) : Decidable st.Reduced :=
  inferInstanceAs (Decidable (∀ e ∈ st.exprs, e.Reduced))

namespace Circuit

variable {c : Circuit} {sts : List Statement}

/-- The difference that a statement with a row sets to zero. -/
theorem emits_difference {st : Statement} {row : Row} (hc : c.Coherent sts) (hown : st.Own c)
    (h : st.Emits row) :
    ∃ x y : Expr, (x.sub y).toRow = .ok (row.a, row.b, row.c) ∧
      (st.Reduced → (x.sub y).Reduced) ∧ (x.sub y).Over c.field {s | s ∈ c.signals} := by
  cases h with
  | @assign origin target e a b d h =>
    have ht := hown.target target rfl
    have hover := Expr.over_ofSignal (hc.field target ht) ht
    have hsignal : (Expr.ofSignal target).Reduced := by simp [Expr.Reduced, Expr.ofSignal]
    exact ⟨e, .ofSignal target, h, fun hred => (hred e List.mem_cons_self).sub hsignal,
      (hown.exprs e List.mem_cons_self).sub hover⟩
  | @constrain origin x y a b d h =>
    have hy : y ∈ [x, y] := List.mem_cons_of_mem _ List.mem_cons_self
    exact ⟨x, y, h, fun hred => (hred x List.mem_cons_self).sub (hred y hy),
      (hown.exprs x List.mem_cons_self).sub (hown.exprs y hy)⟩

/-- The sides of a row speak of the signals of the circuit. -/
theorem emits_over {st : Statement} {row : Row} (hc : c.Coherent sts) (hown : st.Own c)
    (h : st.Emits row) : row.a.Over c.field {s | s ∈ c.signals} ∧
      row.b.Over c.field {s | s ∈ c.signals} ∧ row.c.Over c.field {s | s ∈ c.signals} := by
  obtain ⟨x, y, htoRow, -, hover⟩ := emits_difference hc hown h
  exact Expr.toRow_over hover htoRow

/-- The positions of an expression over the signals of a circuit are those of its
    witness. -/
theorem Coherent.below (hc : c.Coherent sts) {index : Signal → Except Error Int}
    (hi : ∀ s ∈ c.signals, index s = .ok (c.place s : Int)) {e : Expr} {l : Combination}
    (hl : Combination.ofExpr index e = .ok l) (he : e.Over c.field {s | s ∈ c.signals}) :
    ∀ t ∈ l.terms, 0 ≤ t.1 ∧ t.1 < c.system.signals := by
  have hpos : 0 < c.system.signals := by
    rw [hc.size]; exact (Array.getElem?_eq_some_iff.1 hc.first).1
  exact Combination.ofExpr_below hpos hl fun t ht =>
    ⟨c.place t.1, hc.place_lt (he.linear t ht), hi t.1 (he.linear t ht)⟩

/-- The positions of every side of every row increase strictly, and no coefficient
    is zero. -/
theorem Coherent.sorted (hc : c.Coherent sts) : ∀ r ∈ c.system.constraints, ∀ l ∈ r.sides,
    l.indices.Pairwise (· < ·) ∧ ∀ t ∈ l.terms, 1 ≤ t.2 := by
  intro r hr
  obtain ⟨index, -, hrows⟩ := hc.rows
  obtain ⟨st, -, row, -, hlow⟩ := forall₂_mem_right hrows hr
  have hside {e : Expr} {l : Combination} (hl : Combination.ofExpr index e = .ok l) :
      l.indices.Pairwise (· < ·) ∧ ∀ t ∈ l.terms, 1 ≤ t.2 :=
    ⟨Combination.ofExpr_sorted hl, Combination.ofExpr_pos hl⟩
  simp only [Constraint.sides, List.forall_mem_cons]
  exact ⟨hside hlow.a, hside hlow.b, hside hlow.c, by simp⟩

/-- **The rows of a circuit are sparse.** -/
theorem Coherent.sparse (hc : c.Coherent sts) (hown : ∀ st ∈ sts, st.Own c)
    (hred : ∀ st ∈ sts, st.Reduced) :
    ∀ r ∈ c.system.constraints, ∀ l ∈ r.sides, l.Sparse c.field.p c.system.signals := by
  intro r hr
  obtain ⟨index, hi, hrows⟩ := hc.rows
  obtain ⟨st, hst, row, hrow, hlow⟩ := forall₂_mem_right hrows hr
  have hst := List.mem_of_mem_filter hst
  obtain ⟨x, y, htoRow, hreduced, -⟩ := emits_difference hc (hown st hst) hrow
  have hconst := (hreduced (hred st hst)).toRow (Expr.const_sub_lt x y) htoRow
  obtain ⟨ha, hb, hd⟩ := emits_over hc (hown st hst) hrow
  have hside {e : Expr} {l : Combination} (hl : Combination.ofExpr index e = .ok l)
      (he : e.Over c.field {s | s ∈ c.signals}) (hce : e.const < e.field.p) :
      l.Sparse c.field.p c.system.signals :=
    { sorted := Combination.ofExpr_sorted hl
      below := hc.below hi hl he
      coeff := fun t ht =>
        ⟨Combination.ofExpr_pos hl t ht, he.field ▸ Combination.ofExpr_lt hl hce t ht⟩ }
  simp only [Constraint.sides, List.forall_mem_cons] at hconst ⊢
  exact ⟨hside hlow.a ha hconst.1, hside hlow.b hb hconst.2.1, hside hlow.c hd hconst.2.2.1,
    by simp⟩

end Circuit

end RankOne
