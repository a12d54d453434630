/-
  RankOne — sums keep their meaning, however products are folded.

  A sum merges coefficients signal by signal, and folds a product into an
  earlier one when a factor of the one is a multiple of a factor of the other.
  For expressions in quadratic form this changes no value.

  * `ByUid`: valuations that tell signals apart by declaration number only, as
    every witness does;
  * `Expr.IsLinear`, `Expr.IsQuadratic`: forms without products, and forms whose
    products have such factors;
  * `value_of_ratio?`: the scalar that `ratio?` finds is one;
  * `productsValue_mergeProduct`, `value_addAt`, `value_sub`: folding a product,
    sums, and differences.
-/
import RankOne.Proofs.Expr.Value

namespace RankOne

/-- Signals with the same declaration number have the same value. -/
def ByUid {R : Type*} (v : Signal → R) : Prop := ∀ s t : Signal, s.uid = t.uid → v s = v t

theorem Signal.same_iff {s t : Signal} : s.same t = true ↔ s.uid = t.uid := by simp [Signal.same]

variable {f : PrimeField} {v : Signal → ZMod f.p}

theorem cast_mod (n : ℕ) : ((n % f.p : ℕ) : ZMod f.p) = n := ZMod.natCast_mod n f.p

/-! ## Coefficients -/

namespace Terms

/-- Signals of two lists with the same declaration number have the same value. -/
def Agree (v : Signal → ZMod f.p) (l r : Terms) : Prop :=
  ∀ t ∈ l, ∀ u ∈ r, t.1.uid = u.1.uid → v t.1 = v u.1

theorem value_add {s : Signal} {ts : Terms} (c : ℕ)
    (hv : ∀ t ∈ ts, t.1.uid = s.uid → v t.1 = v s) :
    (Terms.add s c ts).value v = ts.value v + c * v s := by
  induction ts with
  | nil => simp [Terms.add, Terms.value]
  | cons t ts ih =>
    obtain ⟨t, d⟩ := t
    rw [List.forall_mem_cons] at hv
    rw [Terms.add]
    split
    · next h => rw [Terms.value, Terms.value, hv.1 (Signal.same_iff.1 h)]; push_cast; ring
    · rw [Terms.value, Terms.value, ih hv.2]; ring

theorem value_reduce (ts : Terms) : (Terms.reduce f.p ts).value v = ts.value v := by
  induction ts with
  | nil => rfl
  | cons t ts ih =>
    obtain ⟨t, d⟩ := t
    unfold Terms.reduce at ih ⊢
    by_cases h : d % f.p = 0
    · have hd : ((d : ℕ) : ZMod f.p) = 0 := by rw [← cast_mod, h, Nat.cast_zero]
      rw [List.filterMap_cons_none (by simp [h]), ih, Terms.value, hd, zero_mul, zero_add]
    · rw [List.filterMap_cons_some (b := (t, d % f.p)) (by simp [h]), Terms.value, Terms.value, ih,
        cast_mod]

theorem value_scale (k : ℕ) (ts : Terms) :
    Terms.value v (ts.map fun t => (t.1, t.2 * k)) = k * ts.value v := by
  induction ts with
  | nil => simp [Terms.value]
  | cons t ts ih => rw [List.map_cons, Terms.value, ih, Terms.value]; push_cast; ring

/-- The declaration numbers of the signals. -/
def uids (ts : Terms) : List Int := ts.map (·.1.uid)

theorem uids_add (s : Signal) (c : ℕ) (ts : Terms) :
    (Terms.add s c ts).uids = if s.uid ∈ ts.uids then ts.uids else ts.uids ++ [s.uid] := by
  induction ts with
  | nil => simp [Terms.add, uids]
  | cons t ts ih =>
    obtain ⟨t, d⟩ := t
    rw [Terms.add]
    by_cases h : t.uid = s.uid
    · rw [if_pos (Signal.same_iff.2 h)]; simp [uids, h]
    · rw [if_neg (fun h' => h (Signal.same_iff.1 h'))]
      simp only [uids, List.map_cons, List.mem_cons, Ne.symm h, false_or] at ih ⊢
      rw [ih]; by_cases hs : s.uid ∈ ts.map fun t => t.1.uid <;> simp [hs]

theorem nodup_add {s : Signal} {c : ℕ} {ts : Terms} (h : ts.uids.Nodup) :
    (Terms.add s c ts).uids.Nodup := by
  rw [uids_add]
  split_ifs with hs
  · exact h
  · exact List.nodup_append.2 ⟨h, by simp, fun a ha b hb => by
      rw [List.mem_singleton] at hb; rintro rfl; exact hs (hb ▸ ha)⟩

theorem nodup_merge {l r : Terms} (h : l.uids.Nodup) : (Terms.merge l r).uids.Nodup := by
  unfold Terms.merge
  induction r generalizing l with
  | nil => exact h
  | cons t r ih => exact ih (nodup_add h)

theorem uids_reduce_sublist (p : ℕ) (ts : Terms) : (Terms.reduce p ts).uids.Sublist ts.uids := by
  unfold Terms.reduce
  induction ts with
  | nil => simp [uids]
  | cons t ts ih =>
    rw [List.filterMap_cons]
    split
    · exact ih.trans (List.sublist_cons_self _ _)
    · next u h =>
      split_ifs at h
      cases h
      exact ih.cons_cons _

theorem mem_add {s : Signal} {c : ℕ} {ts : Terms} {S : Set Signal} (hs : s ∈ S)
    (h : ∀ t ∈ ts, t.1 ∈ S) : ∀ t ∈ Terms.add s c ts, t.1 ∈ S := by
  induction ts with
  | nil => simpa [Terms.add] using hs
  | cons u ts ih =>
    obtain ⟨u, d⟩ := u
    rw [Terms.add]
    split
    · intro t ht
      rcases List.mem_cons.1 ht with rfl | ht
      · exact h (u, d) List.mem_cons_self
      · exact h t (List.mem_cons_of_mem _ ht)
    · intro t ht
      rcases List.mem_cons.1 ht with rfl | ht
      · exact h (u, d) List.mem_cons_self
      · exact ih (fun t ht => h t (List.mem_cons_of_mem _ ht)) t ht

theorem mem_merge {l r : Terms} {S : Set Signal} (hl : ∀ t ∈ l, t.1 ∈ S)
    (hr : ∀ t ∈ r, t.1 ∈ S) : ∀ t ∈ Terms.merge l r, t.1 ∈ S := by
  unfold Terms.merge
  induction r generalizing l with
  | nil => exact hl
  | cons u r ih =>
    exact ih (mem_add (hr u List.mem_cons_self) hl) fun t ht => hr t (List.mem_cons_of_mem _ ht)

theorem mem_reduce {p : ℕ} {ts : Terms} {S : Set Signal} (h : ∀ t ∈ ts, t.1 ∈ S) :
    ∀ t ∈ Terms.reduce p ts, t.1 ∈ S := by
  intro t ht
  obtain ⟨u, hu, htu⟩ := List.mem_filterMap.1 ht
  split_ifs at htu
  cases htu
  exact h u hu

/-- Merged coefficients add up, as long as a signal is only merged into one of its
    value. -/
theorem value_merge {l r : Terms} (hv : Agree v l r) (hr : r.uids.Nodup) :
    (Terms.merge l r).value v = l.value v + r.value v := by
  unfold Terms.merge
  induction r generalizing l with
  | nil => simp [Terms.value]
  | cons u r ih =>
    rw [uids, List.map_cons, List.nodup_cons] at hr
    -- a later signal of `r` has another number than `u`
    have hv' : Agree v (Terms.add u.1 u.2 l) r := by
      have hmem : ∀ t ∈ Terms.add u.1 u.2 l, t.1 ∈ {s | s = u.1 ∨ ∃ t ∈ l, t.1 = s} :=
        mem_add (Or.inl rfl) fun t ht => Or.inr ⟨t, ht, rfl⟩
      intro t ht w hw he
      rcases hmem t ht with hu | ⟨t', ht', h'⟩
      · exact absurd (List.mem_map.2 ⟨w, hw, by rw [← he, hu]⟩) hr.1
      · rw [← h'] at he ⊢
        exact hv t' ht' w (List.mem_cons_of_mem _ hw) he
    rw [List.foldl_cons, ih hv' hr.2, value_add u.2 fun t ht => hv t ht u List.mem_cons_self,
      Terms.value]
    ring

end Terms

theorem ByUid.agree (hv : ByUid v) (l r : Terms) : Terms.Agree v l r :=
  fun t _ u _ => hv t.1 u.1

namespace Expr

/-! ## Forms and multiples -/

/-- A linear form over `f`: no products, and every signal at most once. -/
structure IsLinear (f : PrimeField) (e : Expr) : Prop where
  field : e.field = f
  products : e.products = []
  distinct : e.linear.uids.Nodup

/-- A quadratic form over `f`: every signal at most once, and products of linear
    forms. -/
structure IsQuadratic (f : PrimeField) (e : Expr) : Prop where
  field : e.field = f
  distinct : e.linear.uids.Nodup
  factors : ∀ p ∈ e.products, p.1.IsLinear f ∧ p.2.IsLinear f

theorem IsLinear.quadratic {e : Expr} (h : e.IsLinear f) : e.IsQuadratic f :=
  ⟨h.field, h.distinct, by simp [h.products]⟩

theorem IsLinear.value {e : Expr} (h : e.IsLinear f) (v : Signal → ZMod f.p) :
    e.value v = e.const + e.linear.value v := by
  rw [value_eq, h.products, productsValue, add_zero]

theorem IsQuadratic.over {e : Expr} (h : e.IsQuadratic f) : e.Over f Set.univ := by
  refine over_iff.2 ⟨h.field, fun _ _ => Set.mem_univ _, productsOver_iff.2 fun p hp => ?_⟩
  have hl (x : Expr) (hx : x.IsLinear f) : x.Over f Set.univ :=
    over_iff.2 ⟨hx.field, fun _ _ => Set.mem_univ _, by rw [hx.products]; trivial⟩
  exact ⟨hl _ (h.factors p hp).1, hl _ (h.factors p hp).2⟩

theorem productsValue_append (ps qs : List (Expr × Expr)) :
    productsValue v (ps ++ qs) = productsValue v ps + productsValue v qs := by
  induction ps with
  | nil => simp [productsValue]
  | cons p ps ih =>
    obtain ⟨a, b⟩ := p
    rw [List.cons_append, productsValue, ih, productsValue, add_assoc]

theorem value_of (const : ℕ) (linear : Terms) (products : List (Expr × Expr)) (degree : Int) :
    (of f const linear products degree).value v =
      const + linear.value v + productsValue v products := by
  rw [of, value, Terms.value_reduce, cast_mod]

@[simp] theorem value_zero : (zero f).value v = 0 := by
  simp [zero, ofInt, value, Terms.value, productsValue]

@[simp] theorem value_ofSignal (s : Signal) : (ofSignal s).value v = v s := by
  simp [ofSignal, value, Terms.value, productsValue]

mutual

/-- A multiple has the multiple of the value. -/
theorem value_scaleBy (k : ℕ) {S : Set Signal} : ∀ (e : Expr), e.Over f S →
    (scaleBy k e).value v = k * e.value v
  | ⟨field, const, linear, products, degree⟩, h => by
    rw [Over] at h
    have hk : ((k % field.p : ℕ) : ZMod f.p) = k := by rw [h.1, cast_mod]
    rw [scaleBy]
    split_ifs with h₀ h₁
    · rw [h.1, value_zero, ← hk, h₀, Nat.cast_zero, zero_mul]
    · rw [← hk, h₁, Nat.cast_one, one_mul]
    · rw [← hk, h.1, value_of, Terms.value_scale,
        productsValue_scaleProducts (k % f.p) products h.2.2, value]
      push_cast; ring

theorem productsValue_scaleProducts (k : ℕ) {S : Set Signal} :
    ∀ (ps : List (Expr × Expr)), ProductsOver f S ps →
      productsValue v (scaleProducts k ps) = k * productsValue v ps
  | [], _ => by simp [scaleProducts, productsValue]
  | (a, b) :: ps, h => by
    rw [ProductsOver] at h
    rw [scaleProducts, productsValue, value_scaleBy k a h.1,
      productsValue_scaleProducts k ps h.2.2, productsValue]
    ring

end

theorem linear_scale_uids (k : ℕ) (ts : Terms) :
    Terms.uids (ts.map fun t => (t.1, t.2 * k)) = ts.uids := by simp [Terms.uids]

theorem IsLinear.scaleBy {e : Expr} (h : e.IsLinear f) (k : ℕ) : (scaleBy k e).IsLinear f := by
  obtain ⟨field, const, linear, products, degree⟩ := e
  obtain ⟨rfl, hp, hd⟩ := h
  simp only at hp hd
  rw [Expr.scaleBy]
  split_ifs
  · exact ⟨rfl, rfl, List.nodup_nil⟩
  · exact ⟨rfl, hp, hd⟩
  · refine ⟨rfl, by rw [hp]; rfl, (Terms.uids_reduce_sublist _ _).nodup ?_⟩
    rwa [linear_scale_uids]

theorem mem_scaleProducts {k : ℕ} {p : Expr × Expr} : ∀ {ps : List (Expr × Expr)},
    p ∈ scaleProducts k ps → ∃ q ∈ ps, p = (Expr.scaleBy k q.1, q.2)
  | [], h => by simp [scaleProducts] at h
  | (a, b) :: ps, h => by
    rw [scaleProducts] at h
    rcases List.mem_cons.1 h with rfl | h
    · exact ⟨(a, b), List.mem_cons_self, rfl⟩
    · obtain ⟨q, hq, rfl⟩ := mem_scaleProducts h
      exact ⟨q, List.mem_cons_of_mem _ hq, rfl⟩

theorem IsQuadratic.scaleBy {e : Expr} (h : e.IsQuadratic f) (k : ℕ) :
    (scaleBy k e).IsQuadratic f := by
  obtain ⟨field, const, linear, products, degree⟩ := e
  obtain ⟨rfl, hd, hp⟩ := h
  simp only at hp hd
  rw [Expr.scaleBy]
  split_ifs
  · exact ⟨rfl, List.nodup_nil, by simp [zero, ofInt]⟩
  · exact ⟨rfl, hd, hp⟩
  · refine ⟨rfl, (Terms.uids_reduce_sublist _ _).nodup (by rwa [linear_scale_uids]),
      fun p hp' => ?_⟩
    obtain ⟨q, hq, rfl⟩ := mem_scaleProducts hp'
    exact ⟨(hp q hq).1.scaleBy _, (hp q hq).2⟩

/-! ## Shared factors -/

theorem coeff?_eq_some {xs : Terms} {s : Signal} {c : ℕ} (h : xs.coeff? s = some c) :
    ∃ l r t, xs = l ++ (t, c) :: r ∧ t.uid = s.uid := by
  obtain ⟨⟨t, d⟩, ht, rfl⟩ := Option.map_eq_some_iff.1 h
  obtain ⟨hs, l, r, rfl, -⟩ := List.find?_eq_some_iff_append.1 ht
  exact ⟨l, r, t, rfl, Signal.same_iff.1 hs⟩

theorem coeff?_drop {l r : Terms} {t s : Signal} {c : ℕ} (h : t.uid ≠ s.uid) :
    Terms.coeff? (l ++ (t, c) :: r) s = Terms.coeff? (l ++ r) s := by
  have ht : t.same s = false := by simpa [Signal.same] using h
  simp [Terms.coeff?, List.find?_append, ht]

/-- Coefficients that are `k` times others, signal by signal. -/
theorem value_of_multiple {k : ℕ} : ∀ {ys xs : Terms}, Terms.Agree v xs ys → ys.uids.Nodup →
    xs.length = ys.length →
    (∀ t ∈ ys, ∃ c, xs.coeff? t.1 = some c ∧ ((c : ℕ) : ZMod f.p) = k * t.2) →
    xs.value v = k * ys.value v
  | [], xs, _, _, hl, _ => by
    rw [List.length_eq_zero_iff.1 hl]; simp [Terms.value]
  | (s, d) :: ys, xs, hv, hn, hl, h => by
    rw [Terms.uids, List.map_cons, List.nodup_cons] at hn
    obtain ⟨c, hc, hk⟩ := h _ List.mem_cons_self
    obtain ⟨l, r, t, rfl, hts⟩ := coeff?_eq_some hc
    -- the signal of the first term is found once, and the others in what remains
    have ih : Terms.value v (l ++ r) = k * Terms.value v ys := by
      refine value_of_multiple (fun t ht u hu => hv t ?_ u (List.mem_cons_of_mem _ hu)) hn.2
        (by simp at hl ⊢; omega) fun u hu => ?_
      · simp only [List.mem_append, List.mem_cons] at ht ⊢; tauto
      obtain ⟨c', hc', hk'⟩ := h u (List.mem_cons_of_mem _ hu)
      refine ⟨c', ?_, hk'⟩
      rw [← hc', coeff?_drop]
      rw [hts]; rintro he
      exact hn.1 (List.mem_map.2 ⟨u, hu, he.symm⟩)
    rw [Terms.value_append] at ih
    rw [Terms.value_append, Terms.value, Terms.value,
      hv (t, c) (by simp) (s, d) List.mem_cons_self hts, hk]
    linear_combination ih

theorem toOption_join_eq_some {ε α : Type} {r : Except ε (Option α)} {a : α} :
    r.toOption.join = some a ↔ r = .ok (some a) := by
  rcases r with e | _ | b <;> simp [Except.toOption]

/-- A scalar is found where the quotient at the pivot fits every coefficient. -/
theorem ratio?_eq_some {x y : Expr} {k : ℕ} : ratio? x y = some k ↔
    x.sameShape y = true ∧ x.isMultiple y k = true ∧
      ∃ q, pivot? x y = some q ∧ x.field.div q.1 q.2 = .ok k := by
  rw [ratio?, toOption_join_eq_some, ratio]
  split_ifs with hs
  · cases hq : pivot? x y with
    | none => simp
    | some q =>
      simp only [Option.elim_some, bind_eq_ok, pure_eq_ok, hs, true_and, Option.some.injEq,
        exists_eq_left']
      constructor
      · rintro ⟨n, hn, h⟩
        split_ifs at h with hm
        cases h
        exact ⟨hm, hn⟩
      · rintro ⟨hm, hn⟩
        exact ⟨k, hn, if_pos hm⟩
  · simp [hs]

/-- **The ratio of two linear forms is the scalar between them.** -/
theorem value_of_ratio? {x y : Expr} {k : ℕ} (hv : Terms.Agree v x.linear y.linear)
    (hx : x.IsLinear f) (hy : y.IsLinear f) (h : ratio? x y = some k) :
    x.value v = k * y.value v := by
  obtain ⟨hs, hm, -⟩ := ratio?_eq_some.1 h
  simp only [sameShape, Bool.and_eq_true, beq_iff_eq, List.all_eq_true] at hs
  simp only [isMultiple, Bool.and_eq_true, beq_iff_eq, List.all_eq_true, hx.field] at hm
  have hconst : ((x.const : ℕ) : ZMod f.p) = k * y.const := by
    rw [← cast_mod, ← hm.2, cast_mod, Nat.cast_mul]
  have hlinear : x.linear.value v = k * y.linear.value v := by
    refine value_of_multiple hv hy.distinct hs.1.1 fun t ht => ?_
    obtain ⟨c, hc⟩ := Option.isSome_iff_exists.1 (hs.1.2 t ht)
    have hkc := hm.1 t ht
    rw [hc, Option.getD_some] at hkc
    exact ⟨c, hc, by rw [← cast_mod, ← hkc, cast_mod, Nat.cast_mul]⟩
  rw [hx.value, hy.value, hconst, hlinear]; ring

/-- The ways to share a factor: one factor of the new product is a multiple of one
    of the earlier product. -/
theorem sharedFactor?_cases {x y a b s o e : Expr} (h : sharedFactor? x y a b = some (s, o, e)) :
    ∃ new rest k, ((s = x ∧ o = y) ∨ (s = y ∧ o = x)) ∧
      ((new = a ∧ rest = b) ∨ (new = b ∧ rest = a)) ∧ ratio? new s = some k ∧
      e = scaleBy k rest := by
  rw [sharedFactor?_eq] at h
  split at h
  · next k hk => cases h; exact ⟨a, b, k, Or.inl ⟨rfl, rfl⟩, Or.inl ⟨rfl, rfl⟩, hk, rfl⟩
  split at h
  · next k hk => cases h; exact ⟨a, b, k, Or.inr ⟨rfl, rfl⟩, Or.inl ⟨rfl, rfl⟩, hk, rfl⟩
  split at h
  · next k hk => cases h; exact ⟨b, a, k, Or.inl ⟨rfl, rfl⟩, Or.inr ⟨rfl, rfl⟩, hk, rfl⟩
  split at h
  · next k hk => cases h; exact ⟨b, a, k, Or.inr ⟨rfl, rfl⟩, Or.inr ⟨rfl, rfl⟩, hk, rfl⟩
  · cases h

/-- Properties of all factors are those of the parts that a new product is folded
    with. -/
theorem sharedFactor?_induct {P : Expr → Prop} {x y a b s o e : Expr} (hx : P x) (hy : P y)
    (ha : P a) (hb : P b) (hscale : ∀ {n r : Expr} {k : ℕ}, P n → P r → ratio? n s = some k →
      P (scaleBy k r)) (h : sharedFactor? x y a b = some (s, o, e)) : P s ∧ P o ∧ P e := by
  obtain ⟨new, rest, k, ⟨rfl, rfl⟩ | ⟨rfl, rfl⟩, ⟨rfl, rfl⟩ | ⟨rfl, rfl⟩, hk, rfl⟩ :=
    sharedFactor?_cases h
  · exact ⟨hx, hy, hscale ha hb hk⟩
  · exact ⟨hx, hy, hscale hb ha hk⟩
  · exact ⟨hy, hx, hscale ha hb hk⟩
  · exact ⟨hy, hx, hscale hb ha hk⟩

section
variable {P : Expr → Prop} {plus : Expr → Expr → Expr}
  (hplus : ∀ x y, P x → P y → P (plus x y))
  (hscale : ∀ {n r s : Expr} {k : ℕ}, P n → P r → ratio? n s = some k → P (scaleBy k r))
include hplus hscale

/-- Folding a product in keeps what sums and multiples of factors keep. -/
theorem mergeProduct_induct {a b : Expr} (ha : P a) (hb : P b) : ∀ {ps : List (Expr × Expr)},
    (∀ p ∈ ps, P p.1 ∧ P p.2) → ∀ p ∈ mergeProduct plus a b ps, P p.1 ∧ P p.2
  | [], _ => by simpa using ⟨ha, hb⟩
  | (x, y) :: ps, h => by
    rw [List.forall_mem_cons] at h
    rw [mergeProduct_cons]
    split
    · next s o e he =>
      obtain ⟨hs, ho, he⟩ := sharedFactor?_induct h.1.1 h.1.2 ha hb hscale he
      exact List.forall_mem_cons.2 ⟨⟨hs, hplus o e ho he⟩, h.2⟩
    · exact List.forall_mem_cons.2 ⟨h.1, mergeProduct_induct ha hb h.2⟩

theorem foldl_mergeProduct_induct : ∀ {qs ps : List (Expr × Expr)},
    (∀ p ∈ qs, P p.1 ∧ P p.2) → (∀ p ∈ ps, P p.1 ∧ P p.2) →
    ∀ p ∈ qs.foldl (fun ps p => mergeProduct plus p.1 p.2 ps) ps, P p.1 ∧ P p.2
  | [], _, _, hps => hps
  | (a, b) :: qs, ps, hqs, hps => by
    rw [List.forall_mem_cons] at hqs
    rw [List.foldl_cons]
    exact foldl_mergeProduct_induct hqs.2
      (mergeProduct_induct hplus hscale hqs.1.1 hqs.1.2 hps)

end

/-- A shared factor takes both products along, when the scalar is the ratio. -/
theorem value_sharedFactor {x y a b s o new rest : Expr} {k : ℕ} (hr : rest.IsLinear f)
    (hso : (s = x ∧ o = y) ∨ (s = y ∧ o = x))
    (hnew : (new = a ∧ rest = b) ∨ (new = b ∧ rest = a)) (hk : new.value v = k * s.value v) :
    s.value v * o.value v = x.value v * y.value v ∧
      s.value v * (scaleBy k rest).value v = a.value v * b.value v := by
  have hab : new.value v * rest.value v = a.value v * b.value v := by
    rcases hnew with ⟨rfl, rfl⟩ | ⟨rfl, rfl⟩
    · rfl
    · exact mul_comm _ _
  constructor
  · rcases hso with ⟨rfl, rfl⟩ | ⟨rfl, rfl⟩
    · rfl
    · exact mul_comm _ _
  · rw [value_scaleBy k rest hr.quadratic.over, ← hab, hk]; ring

theorem sharedFactor?_spec (hv : ByUid v) {x y a b s o e : Expr} (hx : x.IsLinear f)
    (hy : y.IsLinear f) (ha : a.IsLinear f) (hb : b.IsLinear f)
    (h : sharedFactor? x y a b = some (s, o, e)) :
    (s.IsLinear f ∧ o.IsLinear f ∧ e.IsLinear f) ∧
      s.value v * o.value v = x.value v * y.value v ∧
      s.value v * e.value v = a.value v * b.value v := by
  have hlin := sharedFactor?_induct hx hy ha hb (fun _ hr _ => hr.scaleBy _) h
  refine ⟨hlin, ?_⟩
  obtain ⟨new, rest, k, hso, hnew, hk, rfl⟩ := sharedFactor?_cases h
  have hn : new.IsLinear f ∧ rest.IsLinear f := by
    rcases hnew with ⟨rfl, rfl⟩ | ⟨rfl, rfl⟩
    · exact ⟨ha, hb⟩
    · exact ⟨hb, ha⟩
  exact value_sharedFactor hn.2 hso hnew (value_of_ratio? (hv.agree _ _) hn.1 hlin.1 hk)

/-- **Folding a product into earlier ones adds its value**, when `plus` adds
    linear forms. -/
theorem productsValue_mergeProduct (hv : ByUid v) {plus : Expr → Expr → Expr}
    (hplus : ∀ x y : Expr, x.IsLinear f → y.IsLinear f →
      (plus x y).IsLinear f ∧ (plus x y).value v = x.value v + y.value v)
    {a b : Expr} (ha : a.IsLinear f) (hb : b.IsLinear f) :
    ∀ {ps : List (Expr × Expr)}, (∀ p ∈ ps, p.1.IsLinear f ∧ p.2.IsLinear f) →
      (∀ p ∈ mergeProduct plus a b ps, p.1.IsLinear f ∧ p.2.IsLinear f) ∧
        productsValue v (mergeProduct plus a b ps) = productsValue v ps + a.value v * b.value v
  | [], _ => by
    refine ⟨fun p hp => ?_, by simp [productsValue]⟩
    rw [mergeProduct_nil, List.mem_singleton] at hp
    subst hp; exact ⟨ha, hb⟩
  | (x, y) :: ps, h => by
    obtain ⟨hx, hy⟩ := h _ List.mem_cons_self
    have hps : ∀ p ∈ ps, p.1.IsLinear f ∧ p.2.IsLinear f :=
      fun p hp => h p (List.mem_cons_of_mem _ hp)
    rw [mergeProduct_cons]
    split
    · next s o e he =>
      obtain ⟨⟨hs, ho, hel⟩, hso, hse⟩ := sharedFactor?_spec hv hx hy ha hb he
      obtain ⟨hl, hsum⟩ := hplus o e ho hel
      refine ⟨fun p hp => ?_, ?_⟩
      · rcases List.mem_cons.1 hp with rfl | hp
        · exact ⟨hs, hl⟩
        · exact hps p hp
      · rw [productsValue, productsValue, hsum]; linear_combination hso + hse
    · obtain ⟨hl, hsum⟩ := productsValue_mergeProduct hv hplus ha hb hps
      refine ⟨fun p hp => ?_, ?_⟩
      · rcases List.mem_cons.1 hp with rfl | hp
        · exact ⟨hx, hy⟩
        · exact hl p hp
      · rw [productsValue, productsValue, hsum]; ring

/-! ## Sums and differences -/

/-- A sum without products on the right keeps the products on the left. -/
theorem addAt_of_linear (d : ℕ) {a b : Expr} (hb : b.products = []) :
    addAt d a b = of a.field (a.const + b.const) (a.linear.merge b.linear) a.products
      (max a.degree b.degree) := by
  cases d with
  | zero => rw [addAt_zero, hb, List.append_nil]
  | succ d => rw [addAt_succ, hb, List.foldl_nil]

theorem value_add_of_linear (hv : ByUid v) {a b : Expr} (ha : a.field = f) (hb : b.IsLinear f) :
    (a.add b).value v = a.value v + b.value v := by
  rw [add, addAt_of_linear _ hb.products, ha, value_of,
    Terms.value_merge (hv.agree _ _) hb.distinct, value_eq, hb.value]
  push_cast; ring

theorem IsLinear.addAt (hv : ByUid v) (d : ℕ) {x y : Expr} (hx : x.IsLinear f)
    (hy : y.IsLinear f) :
    (addAt d x y).IsLinear f ∧ (Expr.addAt d x y).value v = x.value v + y.value v := by
  rw [addAt_of_linear d hy.products]
  refine ⟨⟨hx.field, hx.products, ?_⟩, ?_⟩
  · exact (Terms.uids_reduce_sublist _ _).nodup (Terms.nodup_merge hx.distinct)
  · rw [hx.field, value_of, Terms.value_merge (hv.agree _ _) hy.distinct, hx.products, hx.value,
      hy.value, productsValue]
    push_cast; ring

/-- Folding products one after another adds their values. -/
theorem productsValue_foldl (hv : ByUid v) (d : ℕ) : ∀ {qs ps : List (Expr × Expr)},
    (∀ p ∈ qs, p.1.IsLinear f ∧ p.2.IsLinear f) → (∀ p ∈ ps, p.1.IsLinear f ∧ p.2.IsLinear f) →
    (∀ p ∈ qs.foldl (fun ps p => mergeProduct (Expr.addAt d) p.1 p.2 ps) ps,
      p.1.IsLinear f ∧ p.2.IsLinear f) ∧
      productsValue v (qs.foldl (fun ps p => mergeProduct (Expr.addAt d) p.1 p.2 ps) ps) =
        productsValue v ps + productsValue v qs
  | [], ps, _, hps => ⟨hps, by simp [productsValue]⟩
  | (a, b) :: qs, ps, hqs, hps => by
    obtain ⟨ha, hb⟩ := hqs _ List.mem_cons_self
    obtain ⟨hl, hsum⟩ := productsValue_mergeProduct hv (fun x y => IsLinear.addAt hv d) ha hb hps
    obtain ⟨hl', hsum'⟩ :=
      productsValue_foldl hv d (fun p hp => hqs p (List.mem_cons_of_mem _ hp)) hl
    exact ⟨hl', by rw [List.foldl_cons, hsum', hsum, productsValue]; ring⟩

/-- **Sums of quadratic forms are quadratic forms with the sum of the values.** -/
theorem value_addAt (hv : ByUid v) (d : ℕ) {a b : Expr} (ha : a.IsQuadratic f)
    (hb : b.IsQuadratic f) :
    (addAt d a b).IsQuadratic f ∧ (addAt d a b).value v = a.value v + b.value v := by
  have hd : (Terms.reduce f.p (a.linear.merge b.linear)).uids.Nodup :=
    (Terms.uids_reduce_sublist _ _).nodup (Terms.nodup_merge ha.distinct)
  cases d with
  | zero =>
    rw [addAt_zero, ha.field]
    refine ⟨⟨rfl, hd, fun p hp => ?_⟩, ?_⟩
    · rcases List.mem_append.1 hp with hp | hp
      · exact ha.factors p hp
      · exact hb.factors p hp
    · rw [value_of, Terms.value_merge (hv.agree _ _) hb.distinct, productsValue_append, value_eq,
        value_eq v b]
      push_cast; ring
  | succ d =>
    obtain ⟨hl, hsum⟩ := productsValue_foldl hv d hb.factors ha.factors
    rw [addAt_succ, ha.field]
    refine ⟨⟨rfl, hd, hl⟩, ?_⟩
    rw [value_of, Terms.value_merge (hv.agree _ _) hb.distinct, hsum, value_eq, value_eq v b]
    push_cast; ring

theorem value_neg {S : Set Signal} {e : Expr} (h : e.Over f S) : e.neg.value v = -e.value v := by
  rw [neg, scale, value_scaleBy _ e h, h.field, f.cast_reduce]; push_cast; ring

/-- **The difference of quadratic forms has the difference of the values.** -/
theorem value_sub (hv : ByUid v) {a b : Expr} (ha : a.IsQuadratic f) (hb : b.IsQuadratic f) :
    (a.sub b).value v = a.value v - b.value v := by
  have hn : b.neg.IsQuadratic f := hb.scaleBy _
  rw [sub, add, (value_addAt hv _ ha hn).2, value_neg hb.over]; ring

theorem isLinear_neg_ofSignal {s : Signal} (hs : s.field = f) : (ofSignal s).neg.IsLinear f := by
  have h : (ofSignal s).IsLinear f := ⟨hs, rfl, List.nodup_singleton _⟩
  exact h.scaleBy _

theorem neg_ofSignal_products (s : Signal) : (ofSignal s).neg.products = [] :=
  (isLinear_neg_ofSignal rfl).products

/-- The difference of any form and a signal has the difference of the values. -/
theorem value_sub_ofSignal (hv : ByUid v) {e : Expr} {s : Signal} (he : e.field = f)
    (hs : s.field = f) : (e.sub (ofSignal s)).value v = e.value v - v s := by
  have ho : (ofSignal s).Over f Set.univ :=
    over_iff.2 ⟨hs, fun _ _ => Set.mem_univ _, trivial⟩
  rw [sub, value_add_of_linear hv he (isLinear_neg_ofSignal hs), value_neg ho, value_ofSignal]
  ring

end Expr

end RankOne
