/-
  RankOne — expressions that one row can hold.

  A statement is accepted when its expression has at most one product.  The gadgets
  build such expressions by a few operations, and each of them keeps the form and
  tells the value.

  * `Expr.Form f T e d`: over signals in `T`, with at most one product, and of value `d`;
  * `Expr.Line f T e d`: the same without a product;
  * `Line.mul`, `Line.sub_form`, `Form.add`, …: the operations;
  * `Form.toRow`, `Draft.assign_of_form`, `Draft.constrain_of_form`: such statements are
    accepted.
-/
import RankOne.Proofs.Expr.Homomorphism

namespace RankOne

namespace Expr

variable {f : PrimeField} {T U : Set Signal} {a b e : Expr}
  {d d' : (Signal → ZMod f.p) → ZMod f.p}

/-- An expression over some signals with at most one product, and its value. -/
structure Form (f : PrimeField) (T : Set Signal) (e : Expr)
    (d : (Signal → ZMod f.p) → ZMod f.p) : Prop where
  proper : e.Proper f T
  single : e.products.length ≤ 1
  value : ∀ v, ByUid v → e.value v = d v

/-- An expression over some signals without a product, and its value. -/
structure Line (f : PrimeField) (T : Set Signal) (e : Expr)
    (d : (Signal → ZMod f.p) → ZMod f.p) : Prop extends Form f T e d where
  degree : e.degree ≤ 1

/-! ## Forms -/

theorem Proper.mono (h : e.Proper f T) (hsub : T ⊆ U) : e.Proper f U :=
  ⟨h.canonical, h.isOver.mono hsub⟩

theorem Form.mono (h : e.Form f T d) (hsub : T ⊆ U) : e.Form f U d :=
  ⟨h.proper.mono hsub, h.single, h.value⟩

theorem Line.mono (h : e.Line f T d) (hsub : T ⊆ U) : e.Line f U d :=
  ⟨h.toForm.mono hsub, h.degree⟩

theorem Form.congr (h : e.Form f T d) (hd : ∀ v, d v = d' v) : e.Form f T d' :=
  ⟨h.proper, h.single, fun v hv => (h.value v hv).trans (hd v)⟩

theorem Line.congr (h : e.Line f T d) (hd : ∀ v, d v = d' v) : e.Line f T d' :=
  ⟨h.toForm.congr hd, h.degree⟩

theorem Line.products_eq (h : e.Line f T d) : e.products = [] :=
  h.proper.canonical.products h.degree

theorem Form.field (h : e.Form f T d) : e.field = f := h.proper.canonical.field

theorem Form.degree_le (h : e.Form f T d) : e.degree ≤ 2 := by
  have := h.proper.canonical.degree
  omega

/-- The signals of a form are among those it is over. -/
theorem Form.signals (h : e.Form f T d) : ∀ s ∈ e.signals, s ∈ T := h.proper.isOver.signals

theorem degree_add (a b : Expr) : (a.add b).degree = max a.degree b.degree := degree_addAt _ a b

@[simp] theorem degree_ofSignal (s : Signal) : (ofSignal s).degree = 1 := rfl

@[simp] theorem degree_ofInt (f : PrimeField) (n : Int) : (ofInt f n).degree = 0 := rfl

/-! ## Operations -/

theorem Line.ofInt (n : Int) : (Expr.ofInt f n).Line f T fun _ => (n : ZMod f.p) where
  proper := .ofInt n
  single := Nat.zero_le _
  value := fun _ _ => value_ofInt n
  degree := by simp

theorem Line.ofSignal {s : Signal} (hs : s ∈ T) (hf : s.field = f) :
    (Expr.ofSignal s).Line f T fun v => v s where
  proper := .ofSignal hs hf
  single := Nat.zero_le _
  value := fun _ _ => value_ofSignal s
  degree := le_rfl

/-- A sum with a linear form keeps the products. -/
theorem Form.add (ha : a.Form f T d) (hb : b.Line f T d') :
    (a.add b).Form f T fun v => d v + d' v where
  proper := ha.proper.add hb.proper
  single := by
    rw [Expr.add, addAt_of_linear _ hb.products_eq]
    exact ha.single
  value := fun v hv => by
    rw [Expr.add, (value_addAt hv _ ha.proper.canonical.isQuadratic
      hb.proper.canonical.isQuadratic).2, ha.value v hv, hb.value v hv]

theorem Line.add (ha : a.Line f T d) (hb : b.Line f T d') :
    (a.add b).Line f T fun v => d v + d' v :=
  ⟨ha.toForm.add hb, by rw [degree_add]; exact max_le ha.degree hb.degree⟩

theorem Line.scale (h : e.Line f T d) (k : Int) :
    (e.scale k).Line f T fun v => (k : ZMod f.p) * d v := by
  have hproper := h.proper.scale k
  have hdegree : (e.scale k).degree ≤ 1 := by
    by_cases hk : e.field.reduce k % e.field.p = 0
    · obtain ⟨field, const, linear, products, degree⟩ := e
      rw [Expr.scale, scaleBy, if_pos hk]
      exact zero_le_one
    · rw [Expr.scale, degree_scaleBy hk]
      exact h.degree
  refine ⟨⟨hproper, ?_, fun v hv => ?_⟩, hdegree⟩
  · rw [hproper.canonical.products hdegree]
    exact Nat.zero_le _
  · rw [h.proper.canonical.value_scale, h.value v hv]

theorem Line.sub (ha : a.Line f T d) (hb : b.Line f T d') :
    (a.sub b).Line f T fun v => d v - d' v :=
  (ha.add (hb.scale (-1))).congr fun v => by push_cast; ring

theorem length_scaleProducts (k : ℕ) : ∀ ps : List (Expr × Expr),
    (scaleProducts k ps).length = ps.length
  | [] => rfl
  | (a, b) :: ps => by rw [scaleProducts, List.length_cons, length_scaleProducts k ps]; rfl

theorem length_products_neg (e : Expr) : e.neg.products.length = e.products.length := by
  obtain ⟨field, const, linear, products, degree⟩ := e
  rw [neg, Expr.scale, scaleBy, if_neg reduce_neg_one_mod]
  split_ifs
  · rfl
  · exact length_scaleProducts _ products

/-- A linear form on the left brings no product. -/
theorem products_addAt_of_linear (n : ℕ) (ha : a.products = []) (hb : b.products.length ≤ 1) :
    (addAt n a b).products.length ≤ 1 := by
  cases n with
  | zero =>
    rw [addAt_zero, ha]
    exact hb
  | succ n =>
    rw [addAt_succ, ha]
    cases hp : b.products with
    | nil => exact Nat.zero_le _
    | cons p ps =>
      rw [hp, List.length_cons] at hb
      obtain rfl : ps = [] := List.length_eq_zero_iff.1 (by omega)
      exact le_rfl

/-- The difference of a linear form and a form. -/
theorem Line.sub_form (ha : a.Line f T d) (hb : b.Form f T d') :
    (a.sub b).Form f T fun v => d v - d' v where
  proper := ha.proper.sub hb.proper
  single := products_addAt_of_linear _ ha.products_eq
    ((length_products_neg b).trans_le hb.single)
  value := fun v hv => by
    rw [value_sub hv ha.proper.canonical.isQuadratic hb.proper.canonical.isQuadratic,
      ha.value v hv, hb.value v hv]

/-- **The product of two linear forms.** -/
theorem Line.mul (ha : a.Line f T d) (hb : b.Line f T d') :
    ∃ e, a.mul b = .ok e ∧ e.Form f T (fun v => d v * d' v) ∧
      (a.degree = 1 → b.degree = 1 → e.degree = 2) := by
  have hdegree : ¬ a.degree + b.degree > 2 := by
    have := ha.degree
    have := hb.degree
    omega
  have hok : ∃ e, a.mul b = .ok e ∧ e.products.length ≤ 1 ∧
      (a.degree = 1 → b.degree = 1 → e.degree = 2) := by
    unfold Expr.mul
    split_ifs with hda hdb
    · refine ⟨_, rfl, (hb.scale _).single, fun h => ?_⟩
      rw [h] at hda
      cases hda
    · refine ⟨_, rfl, (ha.scale _).single, fun _ h => ?_⟩
      rw [h] at hdb
      cases hdb
    · refine ⟨_, rfl, le_rfl, fun h₁ h₂ => ?_⟩
      rw [of, h₁, h₂]
      rfl
  obtain ⟨e, he, hsingle, htwo⟩ := hok
  refine ⟨e, he, ⟨ha.proper.mul hb.proper he, hsingle, fun v hv => ?_⟩, htwo⟩
  rw [ha.proper.canonical.value_mul hb.proper.canonical he, ha.value v hv, hb.value v hv]

/-! ## Rows -/

theorem exists_toRow (h : e.products.length ≤ 1) : ∃ a b c, e.toRow = .ok (a, b, c) := by
  have hlive : e.liveProducts.length ≤ 1 := (List.length_filter_le _ _).trans h
  unfold toRow
  split
  · exact ⟨_, _, _, rfl⟩
  · exact ⟨_, _, _, rfl⟩
  · next ps hnil hone =>
    exfalso
    cases hp : e.liveProducts with
    | nil => exact hnil hp
    | cons p ps =>
      rw [hp, List.length_cons] at hlive
      obtain rfl : ps = [] := List.length_eq_zero_iff.1 (by omega)
      exact hone p.1 p.2 hp

/-- A form minus a linear form makes a row. -/
theorem Form.toRow (hl : a.Form f T d) (hr : b.Line f U d') :
    ∃ x y z, (a.sub b).toRow = .ok (x, y, z) := by
  have hneg : b.neg.products = [] := by
    have := length_products_neg b
    rw [hr.products_eq] at this
    exact List.length_eq_zero_iff.1 this
  refine exists_toRow ?_
  rw [Expr.sub, Expr.add, addAt_of_linear _ hneg]
  exact hl.single

end Expr

/-! ## Statements -/

theorem combine_sub_ok {a b : Operand} {x y : Expr} (ha : ∀ f, a.toExpr f = .ok x)
    (hb : ∀ f, b.toExpr f = .ok y) (hx : a.field? = some x.field) (hy : b.field? = some y.field)
    (h : x.field = y.field) : combine "sub" [a, b] = .ok (x.sub y) := by
  have hcommon : Operand.commonField [a, b] = .ok (some y.field) := by
    simp only [Operand.commonField, List.foldlM_cons, List.foldlM_nil, hx, hy, h]
    rw [bind_eq_ok]
    exact ⟨some y.field, rfl, bind_eq_ok.2 ⟨some y.field, if_pos rfl, rfl⟩⟩
  refine combine_eq_ok.2 ⟨y.field, [x, y], .sub, hcommon, ?_, rfl, rfl⟩
  rw [mapM_eq_ok]
  exact .cons (ha _) (.cons (hb _) .nil)

namespace Draft

variable {f : PrimeField} {T U : Set Signal} (draft : Draft) {target : Signal} {e l r : Expr}
  {d d' : (Signal → ZMod f.p) → ZMod f.p}

theorem checkUnassigned_of_none (h : draft.rule? target = none) (how : String) :
    draft.checkUnassigned target how = .ok () := by
  rw [checkUnassigned, h]

theorem checkDegree_of_form (h : e.Form f T d) : checkDegree e = .ok () := by
  have := h.degree_le
  exact if_neg (by omega)

/-- **An assignment of a form to a signal without a rule is accepted.** -/
theorem assign_of_form (he : e.Form f T d) (hf : target.field = f)
    (hnone : draft.rule? target = none) (origin : String) :
    ∃ row draft', draft.assign target e origin = .ok (row, draft') := by
  have hfield : e.field = target.field := he.field.trans hf.symm
  obtain ⟨a, b, c, hrow⟩ := he.toRow (Expr.Line.ofSignal (Set.mem_singleton target) hf)
  refine ⟨draft.rows.size, _, bind_eq_ok.2 ⟨(), checkDegree_of_form he, bind_eq_ok.2
    ⟨(), checkUnassigned_of_none draft hnone _, bind_eq_ok.2 ⟨_, combine_sub_ok (fun _ => rfl)
      (fun _ => rfl) rfl rfl hfield, bind_eq_ok.2 ⟨_, bind_eq_ok.2 ⟨_, hrow, rfl⟩, rfl⟩⟩⟩⟩⟩

/-- **An equality of a form and a linear form is accepted**, unless both are
    constants. -/
theorem constrain_of_form (hl : l.Form f T d) (hr : r.Line f U d')
    (hd : max l.degree r.degree ≠ 0) (origin : String) :
    ∃ row draft', draft.constrain l r origin = .ok (row, draft') := by
  have hfield : l.field = r.field := hl.field.trans hr.toForm.field.symm
  have hconst : (l.sub r).isConstant = false := by
    rw [Expr.isConstant, Expr.degree_sub, beq_eq_false_iff_ne]
    exact hd
  obtain ⟨a, b, c, hrow⟩ := hl.toRow hr
  refine ⟨some draft.rows.size, { draft with rows := draft.rows.push { a, b, c, origin } },
    bind_eq_ok.2 ⟨(), checkDegree_of_form hl, bind_eq_ok.2 ⟨(), checkDegree_of_form hr.toForm,
      bind_eq_ok.2 ⟨_, combine_sub_ok (fun _ => rfl) (fun _ => rfl) rfl rfl hfield, ?_⟩⟩⟩⟩
  rw [hconst, if_neg Bool.false_ne_true]
  exact bind_eq_ok.2 ⟨_, bind_eq_ok.2 ⟨_, hrow, rfl⟩, rfl⟩

/-- A hint for a signal without a rule is accepted. -/
theorem hint_of_none (hnone : draft.rule? target = none) (h : Hint) (deps : List Expr)
    (origin : String) : ∃ draft', draft.hint target h (.ok deps) origin = .ok draft' :=
  ⟨_, bind_eq_ok.2 ⟨(), checkUnassigned_of_none draft hnone _, bind_eq_ok.2 ⟨deps, rfl, rfl⟩⟩⟩

end Draft

end RankOne
