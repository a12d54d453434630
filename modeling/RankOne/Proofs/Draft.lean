/-
  RankOne — what statements add to a draft.

  * `combine_sub`: a difference taken by name is one within a field;
  * `rule?_of_mem`: rules are found by their targets;
  * `assign_eq_ok`, `constrain_eq_ok`, `hint_eq_ok`: when a statement is
    accepted, and what it adds.
-/
import RankOne.Draft
import RankOne.Proofs.Expr.Row

namespace RankOne

/-! ## Differences -/

namespace Expr

variable {f : PrimeField}

theorem reduce_neg_one : f.reduce (-1) = f.p - 1 := by
  have hp := f.one_lt_p
  rw [PrimeField.reduce, Int.neg_emod_eq_sub_emod, Int.emod_eq_of_lt (by omega) (by omega)]
  omega

/-- Minus one is no multiple of the modulus. -/
theorem reduce_neg_one_mod : f.reduce (-1) % f.p ≠ 0 := by
  have hp := f.one_lt_p
  rw [reduce_neg_one, Nat.mod_eq_of_lt (by omega)]
  omega

theorem degree_neg (e : Expr) : e.neg.degree = e.degree := by
  obtain ⟨field, const, linear, products, degree⟩ := e
  rw [neg, scale, scaleBy, if_neg reduce_neg_one_mod]
  split_ifs <;> rfl

theorem degree_sub (a b : Expr) : (a.sub b).degree = max a.degree b.degree := by
  rw [sub, add, ← degree_neg b]
  cases b.neg.depth <;> rfl

theorem const_neg {e : Expr} (he : e.field = f) :
    (e.neg.const : ZMod f.p) = -(e.const : ZMod f.p) := by
  subst he
  obtain ⟨field, const, linear, products, degree⟩ := e
  have hk : ((field.reduce (-1) % field.p : ℕ) : ZMod field.p) = -1 := by
    rw [cast_mod, PrimeField.cast_reduce]; push_cast; rfl
  rw [neg, scale, scaleBy, if_neg reduce_neg_one_mod]
  split_ifs with h
  · rw [h] at hk
    push_cast at hk
    linear_combination (const : ZMod field.p) * hk
  · rw [of, cast_mod, Nat.cast_mul, hk, mul_neg_one]

/-- The constant of a difference. -/
theorem const_sub {a b : Expr} (ha : a.field = f) (hb : b.field = f) :
    ((a.sub b).const : ZMod f.p) = a.const - b.const := by
  have h : (a.sub b).const = (a.const + b.neg.const) % f.p := by
    rw [sub, add, ← ha]; cases b.neg.depth <;> rfl
  rw [h, cast_mod, Nat.cast_add, const_neg hb, sub_eq_add_neg]

end Expr

/-- A difference taken by name. -/
theorem combine_sub {a b : Operand} {x y e : Expr} (ha : ∀ f, a.toExpr f = .ok x)
    (hb : ∀ f, b.toExpr f = .ok y) (hx : a.field? = some x.field) (hy : b.field? = some y.field)
    (h : combine "sub" [a, b] = .ok e) : x.field = y.field ∧ e = x.sub y := by
  obtain ⟨g, hg, h⟩ := bind_eq_ok.1 h
  simp only [Operand.commonField, List.foldlM_cons, List.foldlM_nil, hx, hy, bind_eq_ok] at hg
  obtain ⟨_, h₁, _, h₂, h₃⟩ := hg
  cases h₁
  dsimp only at h₂
  split_ifs at h₂ with hf
  cases h₂; cases h₃
  simp only [List.mapM_cons, List.mapM_nil, ha, hb, Operation.ofName?, Operation.apply] at h
  cases h
  exact ⟨hf, rfl⟩

/-! ## Statements -/

/-- Under distinct keys an item is found by its key. -/
theorem find?_of_nodup {α κ : Type} [DecidableEq κ] {key : α → κ} {xs : List α}
    (h : (xs.map key).Nodup) {a : α} (ha : a ∈ xs) : xs.find? (key · == key a) = some a := by
  cases hf : xs.find? (key · == key a) with
  | none => exact absurd (List.find?_eq_none.1 hf a ha) (by simp)
  | some b =>
    rw [List.inj_on_of_nodup_map h (List.mem_of_find?_eq_some hf) ha
      (by simpa using List.find?_some hf)]

namespace Draft

variable {d d' : Draft} {origin : String}

theorem checkDegree_eq_ok {e : Expr} {u : Unit} (h : checkDegree e = .ok u) : e.degree ≤ 2 := by
  unfold checkDegree at h
  split_ifs at h with hd
  omega

theorem checkUnassigned_eq_ok {s : Signal} {how : String} {u : Unit}
    (h : d.checkUnassigned s how = .ok u) : d.rule? s = none := by
  unfold checkUnassigned at h
  split at h
  · split_ifs at h
  · assumption

theorem ne_of_rule?_eq_none {s : Signal} (h : d.rule? s = none) :
    ∀ r ∈ d.rules.toList, r.target.uid ≠ s.uid := by
  intro r hr
  have := Array.find?_eq_none.1 h r (Array.mem_toList_iff.1 hr)
  simpa [Signal.same_iff] using this

/-- Where no two rules have one target, each is found by its target. -/
theorem rule?_of_mem {r : Rule} (hsingle : (d.rules.toList.map (·.target.uid)).Nodup)
    (hr : r ∈ d.rules.toList) : d.rule? r.target = some r := by
  rw [rule?, ← Array.find?_toList]
  exact find?_of_nodup hsingle hr

theorem append_eq_ok {e : Expr} {row : ℕ} (h : d.append e origin = .ok (row, d')) :
    row = d.rows.size ∧ ∃ a b c, e.toRow = .ok (a, b, c) ∧
      d' = { d with rows := d.rows.push { a, b, c, origin } } := by
  obtain ⟨⟨a, b, c⟩, hr, h⟩ := bind_eq_ok.1 h
  cases h
  exact ⟨rfl, a, b, c, hr, rfl⟩

/-- An accepted assignment. -/
theorem assign_eq_ok {target : Signal} {e : Expr} {row : ℕ}
    (h : d.assign target e origin = .ok (row, d')) :
    d.rule? target = none ∧ e.field = target.field ∧ row = d.rows.size ∧
    ∃ a b c, (e.sub (.ofSignal target)).toRow = .ok (a, b, c) ∧
      d' = { d with
        rows := d.rows.push { a, b, c, origin }
        rules := d.rules.push { target, action := .assign e, origin } } := by
  simp only [assign, bind_eq_ok] at h
  obtain ⟨-, -, u, hu, e', he, ⟨n, d₁⟩, ha, h⟩ := h
  obtain ⟨hf, rfl⟩ := combine_sub (x := e) (y := .ofSignal target) (fun _ => rfl) (fun _ => rfl)
    rfl rfl he
  obtain ⟨rfl, a, b, c, hr, rfl⟩ := append_eq_ok ha
  cases h
  exact ⟨checkUnassigned_eq_ok hu, hf, rfl, a, b, c, hr, rfl⟩

/-- An accepted equality: the constant difference is zero, or there is a row. -/
theorem constrain_eq_ok {l r : Expr} {row : Option ℕ}
    (h : d.constrain l r origin = .ok (row, d')) :
    l.degree ≤ 2 ∧ r.degree ≤ 2 ∧ l.field = r.field ∧
    ((max l.degree r.degree = 0 ∧ (l.sub r).const = 0 ∧ row = none ∧ d' = d) ∨
      (max l.degree r.degree ≠ 0 ∧ row = some d.rows.size ∧
        ∃ a b c, (l.sub r).toRow = .ok (a, b, c) ∧
        d' = { d with rows := d.rows.push { a, b, c, origin } })) := by
  simp only [constrain, bind_eq_ok] at h
  obtain ⟨_, hl, _, hr, e, he, h⟩ := h
  obtain ⟨hf, rfl⟩ := combine_sub (x := l) (y := r) (fun _ => rfl) (fun _ => rfl) rfl rfl he
  refine ⟨checkDegree_eq_ok hl, checkDegree_eq_ok hr, hf, ?_⟩
  simp only [Expr.isConstant, Expr.degree_sub, beq_iff_eq] at h
  split_ifs at h with hd hc
  · cases h; exact Or.inl ⟨hd, not_not.1 hc, rfl, rfl⟩
  · obtain ⟨⟨n, d₁⟩, ha, h⟩ := bind_eq_ok.1 h
    obtain ⟨rfl, a, b, c, hr, rfl⟩ := append_eq_ok ha
    cases h
    exact Or.inr ⟨hd, rfl, a, b, c, hr, rfl⟩

/-- An accepted hint. -/
theorem hint_eq_ok {target : Signal} {hint : Hint} {deps : Except Error (List Expr)}
    (h : d.hint target hint deps origin = .ok d') :
    d.rule? target = none ∧ ∃ es, deps = .ok es ∧
      d' = { d with rules := d.rules.push { target, action := .hint hint es, origin } } := by
  obtain ⟨_, hu, h⟩ := bind_eq_ok.1 h
  obtain ⟨es, hd, h⟩ := bind_eq_ok.1 h
  cases h
  exact ⟨checkUnassigned_eq_ok hu, es, hd, rfl⟩

end Draft

end RankOne
