/-
  RankOne — what operators do with operands.

  An operand is an integer, a truth value, a signal or an expression.  Between
  operands an operator is arithmetic of expressions, a power, or a host
  operation on the constants that stand for them.

  * `binary_of_isOperand`: operands need none of the rules for sequences, grids
    and numbers of fixed width;
  * `binary_eq_expr`, `unary_eq_expr`: where an expression comes from;
  * `binary_cases`: the host operation behind every other result;
  * `binary_lt_of_index`: sizes are compared as the integers they are.
-/
import RankOne.Proofs.Expr.Value
import RankOne.Value.Operators

namespace RankOne

/-- An operator that no expression takes part in. -/
def Binary.isHostOnly : Binary → Bool
  | add | sub | mul | div | pow => false
  | _ => true

namespace Value

/-! ## Operands -/

/-- An integer or a truth value. -/
def isInteger : Value → Bool
  | int _ | bool _ => true
  | _ => false

theorem operand_cases {a : Value} (h : a.isOperand = true) :
    a.isInteger = true ∨ (∃ s, a = signal s) ∨ ∃ e m, a = expr e m := by
  cases a <;> simp_all [isOperand, operand, isInteger]

theorem isInteger_of_isOperand {a : Value} (ha : a.isOperand = true)
    (hs : a.isSymbolic = false) : a.isInteger = true := by
  cases a <;> simp_all [isOperand, operand, isSymbolic, isInteger]

theorem isOperand_of_isInteger {a : Value} (ha : a.isInteger = true) : a.isOperand = true := by
  cases a <;> simp_all [isOperand, operand, isInteger]

theorem isSymbolic_of_isInteger {a : Value} (ha : a.isInteger = true) : a.isSymbolic = false := by
  cases a <;> simp_all [isSymbolic, isInteger]

theorem isFixed_of_isOperand {a : Value} (ha : a.isOperand = true) : a.isFixed = false := by
  cases a <;> simp_all [isOperand, operand, isFixed]

theorem ordered_of_isOperand {a : Value} (op : Binary) (b : Value) (ha : a.isOperand = true) :
    ordered op a b = flatBinary op a b := by
  cases a <;> simp_all [isOperand, operand, ordered]

theorem binary_of_isOperand {a b : Value} (op : Binary) (ha : a.isOperand = true)
    (hb : b.isOperand = true) : binary op a b = plainBinary op a b := by
  have hflat : flatBinary op a b = plainBinary op a b := by
    unfold flatBinary
    split
    · cases ha
    · simp [isFixed_of_isOperand ha, isFixed_of_isOperand hb]
  rw [← hflat]
  unfold binary
  split
  all_goals first | rfl | exact ordered_of_isOperand _ b ha

/-! ## Host operations -/

/-- Host operations take operands without signals: integers as they are, and
    expressions of degree zero by their constant. -/
theorem hostOperand_eq_ok {op : String} {a x : Value} : hostOperand op a = .ok x ↔
    (a.isSymbolic = false ∧ x = a) ∨ ∃ e m, a = expr e m ∧ e.degree ≤ 0 ∧ x = .int e.const := by
  cases a <;> simp only [hostOperand, isSymbolic, Except.ok.injEq, reduceCtorEq, eq_comm (a := x),
    true_and, false_and, or_false, false_or, expr.injEq, exists_false, Bool.true_eq_false]
  case expr e m =>
    split_ifs with hd
    · simp only [false_iff]
      rintro ⟨e, m, ⟨rfl, rfl⟩, hd', -⟩
      omega
    · simp only [Except.ok.injEq]
      constructor
      · rintro rfl; exact ⟨e, m, ⟨rfl, rfl⟩, by omega, rfl⟩
      · rintro ⟨e, m, ⟨rfl, rfl⟩, -, rfl⟩; rfl

/-- The constant of an operand does not depend on the operator that asks for it. -/
theorem hostOperand_congr {a x : Value} {op op' : String} (h : hostOperand op a = .ok x) :
    hostOperand op' a = .ok x := hostOperand_eq_ok.2 (hostOperand_eq_ok.1 h)

theorem hostOperand_isInteger {a x : Value} {op : String} (ha : a.isOperand = true)
    (h : hostOperand op a = .ok x) : x.isInteger = true := by
  rcases hostOperand_eq_ok.1 h with ⟨hs, rfl⟩ | ⟨e, m, -, -, rfl⟩
  · exact isInteger_of_isOperand ha hs
  · rfl

theorem hostOperand_of_isInteger {a : Value} (op : String) (ha : a.isInteger = true) :
    hostOperand op a = .ok a := hostOperand_eq_ok.2 (Or.inl ⟨isSymbolic_of_isInteger ha, rfl⟩)

theorem ofValue?_of_isInteger {a : Value} (ha : a.isInteger = true) :
    ∃ n : Int, Number.ofValue? a = some (.int n) := by
  cases a <;> simp_all [isInteger, Number.ofValue?]

/-- Integers are equal as numbers are. -/
theorem isEqual_of_isInteger {a b : Value} {m n : Int} (ha : a.isInteger = true)
    (hb : b.isInteger = true) (hm : Number.ofValue? a = some (.int m))
    (hn : Number.ofValue? b = some (.int n)) :
    isEqual a b = .ok (Number.test .eq (.int m) (.int n)) := by
  cases a <;> simp only [isInteger, Bool.false_eq_true] at ha <;>
    cases b <;> simp only [isInteger, Bool.false_eq_true] at hb <;>
    simp [isEqual, flatEqual, leafEqual, isGrid, isFixed, isRow, hm, hn]

/-- A comparison of integers is one of numbers. -/
theorem hostBinary_comparison {op : Binary} {a b : Value} {m n : Int}
    (hop : op.isComparison = true) (ha : a.isInteger = true) (hb : b.isInteger = true)
    (hm : Number.ofValue? a = some (.int m)) (hn : Number.ofValue? b = some (.int n)) :
    hostBinary op a b = .ok (.bool (Number.test op (.int m) (.int n))) := by
  have he := isEqual_of_isInteger ha hb hm hn
  have hne (o : Ordering) : Binary.holds .ne o = !Binary.holds .eq o := by cases o <;> rfl
  cases op <;> simp only [Binary.isComparison, Bool.false_eq_true] at hop
  case eq => rw [hostBinary, he]; rfl
  case ne =>
    rw [hostBinary, he]
    simp [Number.test, Number.compare, hne, bind, Except.bind, pure, Except.pure]
  all_goals
    cases a <;> simp only [isInteger, Bool.false_eq_true] at ha <;>
      cases b <;> simp only [isInteger, Bool.false_eq_true] at hb <;>
      simp [hostBinary, numbers, hm, hn, Binary.isComparison, isSequence]

/-- A comparison can be read from the other side. -/
theorem hostBinary_swapped {op : Binary} {a b : Value} (hop : op.isComparison = true)
    (ha : a.isInteger = true) (hb : b.isInteger = true) :
    hostBinary op.swapped b a = hostBinary op a b := by
  obtain ⟨m, hm⟩ := ofValue?_of_isInteger ha
  obtain ⟨n, hn⟩ := ofValue?_of_isInteger hb
  have hop' : op.swapped.isComparison = true := by cases op <;> first | rfl | cases hop
  rw [hostBinary_comparison hop ha hb hm hn, hostBinary_comparison hop' hb ha hn hm]
  have hc : compare n m = (compare m n).swap := Std.OrientedCmp.eq_swap
  have hholds (o : Ordering) : op.swapped.holds o.swap = op.holds o := by
    cases op <;> cases o <;> rfl
  simp only [Number.test, Number.compare, hc, hholds]

theorem toValue_ne_expr (x : Number) (e : Expr) (m : Mark) : x.toValue ≠ .expr e m := by
  cases x <;> simp [Number.toValue]

/-- No host operation on integers gives an expression. -/
theorem hostBinary_ne_expr {op : Binary} {a b : Value} {e : Expr} {m : Mark}
    (ha : a.isInteger = true) (hb : b.isInteger = true) :
    hostBinary op a b ≠ .ok (.expr e m) := by
  have hn : numbers op a b ≠ .ok (.expr e m) := by
    intro h
    unfold numbers at h
    split at h
    · split_ifs at h
      · cases h
      · obtain ⟨x, -, h⟩ := bind_eq_ok.1 h
        exact toValue_ne_expr x e m (pure_eq_ok.1 h)
    · cases h
  by_cases hop : op.isComparison = true
  · obtain ⟨m, hm⟩ := ofValue?_of_isInteger ha
    obtain ⟨n, hn⟩ := ofValue?_of_isInteger hb
    rw [hostBinary_comparison hop ha hb hm hn]; simp
  · cases a <;> simp only [isInteger, Bool.false_eq_true] at ha <;>
      cases b <;> simp only [isInteger, Bool.false_eq_true] at hb <;>
      cases op <;> simp_all [hostBinary, isSequence, Binary.isComparison]

/-! ## Results of operators -/

theorem combined_eq_expr {name : String} {vs : List Value} {e : Expr} {m : Mark}
    (h : combined name vs = .ok (.expr e m)) : combine name (vs.map operand) = .ok e := by
  obtain ⟨e', he, h⟩ := bind_eq_ok.1 h
  cases h
  exact he

theorem power_eq_ok {base : Expr} {mark : Mark} {k v : Value} (hk : k.isOperand = true)
    (h : power base mark k = .ok v) :
    ∃ y, hostOperand "**" k = .ok y ∧ power base mark y = .ok v := by
  obtain ⟨y, hy, -⟩ := bind_eq_ok.1 h
  refine ⟨y, hy, ?_⟩
  rw [power, hostOperand_of_isInteger _ (hostOperand_isInteger hk hy)]
  rwa [power, hy] at h

theorem power_eq_expr {base e : Expr} {mark m : Mark} {k : Value}
    (h : power base mark k = .ok (.expr e m)) : ∃ n, base.pow n = .ok e := by
  have hpow {n : ℕ} (h : powered base mark n = .ok (.expr e m)) : base.pow n = .ok e := by
    obtain ⟨e', he, h⟩ := bind_eq_ok.1 h
    cases h
    exact he
  obtain ⟨y, -, h⟩ := bind_eq_ok.1 h
  split at h
  · split_ifs at h with hn
    · exact ⟨_, hpow h⟩
    · cases h
  · exact ⟨_, hpow h⟩
  · cases h

/-- The result of a host operation on operands of which one is symbolic. -/
theorem hostOn_eq_ok {op : Binary} {a b v : Value} (ha : a.isOperand = true)
    (hb : b.isOperand = true) (h : hostOn op a b = .ok v) :
    ∃ x y, hostOperand op.symbol a = .ok x ∧ hostOperand op.symbol b = .ok y ∧
      hostBinary op x y = .ok v := by
  simp only [hostOn, ha, hb, Bool.and_self, if_true, bind_eq_ok] at h
  obtain ⟨x, hx, y, hy, h⟩ := h
  exact ⟨x, y, hx, hy, h⟩

theorem plainBinary_of_isInteger {op : Binary} {a b : Value} (ha : a.isInteger = true)
    (hb : b.isInteger = true) : plainBinary op a b = hostBinary op a b := by
  unfold plainBinary
  simp [isSymbolic_of_isInteger ha, isSymbolic_of_isInteger hb]

theorem binary_of_isInteger {op : Binary} {a b : Value} (ha : a.isInteger = true)
    (hb : b.isInteger = true) : binary op a b = hostBinary op a b := by
  rw [binary_of_isOperand op (isOperand_of_isInteger ha) (isOperand_of_isInteger hb),
    plainBinary_of_isInteger ha hb]

/-- A signal is equal to itself only. -/
theorem leafEqual_signal {s : Signal} {v : Value} {t : Bool}
    (h : leafEqual (signal s) v = .ok t) : v = signal s := by
  cases v <;> simp only [leafEqual, reduceCtorEq] at h
  split_ifs at h with hs
  rw [hs]

/-- **What an operator on operands can be**: arithmetic of expressions, a power, a
    signal compared with itself, or a host operation on constants. -/
theorem binary_cases {op : Binary} {a b v : Value} (ha : a.isOperand = true)
    (hb : b.isOperand = true) (h : binary op a b = .ok v) :
    (∃ name, operationName? op = some name ∧ combined name [a, b] = .ok v) ∨
    (op = .pow ∧ ∃ base m, a.operand.toExpr Option.none = .ok base ∧ a.isSymbolic = true ∧
      power base m b = .ok v) ∨
    ((op = .eq ∨ op = .ne) ∧ ∃ s t, a = signal s ∧ b = signal s ∧ v = bool t) ∨
    ∃ x y, hostOperand op.symbol a = .ok x ∧ hostOperand op.symbol b = .ok y ∧
      hostBinary op x y = .ok v := by
  rw [binary_of_isOperand op ha hb] at h
  by_cases hs : (!a.isSymbolic && !b.isSymbolic) = true
  · rw [Bool.and_eq_true, Bool.not_eq_true', Bool.not_eq_true'] at hs
    have hx := isInteger_of_isOperand ha hs.1
    have hy := isInteger_of_isOperand hb hs.2
    rw [plainBinary_of_isInteger hx hy] at h
    exact Or.inr (Or.inr (Or.inr
      ⟨a, b, hostOperand_of_isInteger _ hx, hostOperand_of_isInteger _ hy, h⟩))
  unfold plainBinary at h
  rw [if_neg hs] at h
  split at h
  · next name hname =>
    rw [ha, hb, Bool.and_self, if_pos rfl] at h
    exact Or.inl ⟨name, hname, h⟩
  refine Or.inr ?_
  split at h
  · exact Or.inl ⟨rfl, _, _, rfl, rfl, h⟩
  · exact Or.inl ⟨rfl, _, _, rfl, rfl, h⟩
  · cases h
  · obtain ⟨t, ht, h⟩ := bind_eq_ok.1 h
    exact Or.inr (Or.inl ⟨Or.inl rfl, _, _, rfl, leafEqual_signal ht, (pure_eq_ok.1 h).symm⟩)
  · obtain ⟨t, ht, h⟩ := bind_eq_ok.1 h
    exact Or.inr (Or.inl ⟨Or.inr rfl, _, _, rfl, leafEqual_signal ht, (pure_eq_ok.1 h).symm⟩)
  · split_ifs at h
    exact Or.inr (Or.inr (hostOn_eq_ok ha hb h))
  · split_ifs at h
    exact Or.inr (Or.inr (hostOn_eq_ok ha hb h))
  · split_ifs at h with hc
    · -- the comparison was asked of the right operand
      rw [Bool.and_eq_true] at hc
      obtain ⟨y, x, hy, hx, h⟩ := hostOn_eq_ok hb ha h
      rw [hostBinary_swapped hc.1 (hostOperand_isInteger ha hx) (hostOperand_isInteger hb hy)] at h
      exact Or.inr (Or.inr ⟨x, y, hostOperand_congr hx, hostOperand_congr hy, h⟩)
    · exact Or.inr (Or.inr (hostOn_eq_ok ha hb h))

/-- An operator gives an expression by arithmetic or by a power. -/
theorem binary_eq_expr {op : Binary} {a b : Value} {e : Expr} {m : Mark}
    (ha : a.isOperand = true) (hb : b.isOperand = true) (h : binary op a b = .ok (.expr e m)) :
    (∃ name, combine name [a.operand, b.operand] = .ok e) ∨
      ∃ base k, a.operand.toExpr Option.none = .ok base ∧ base.pow k = .ok e := by
  rcases binary_cases ha hb h with ⟨name, -, h⟩ | ⟨-, base, m, hbase, -, h⟩ |
    ⟨-, s, t, -, -, hv⟩ | ⟨x, y, hx, hy, h⟩
  · exact Or.inl ⟨name, combined_eq_expr h⟩
  · obtain ⟨k, hk⟩ := power_eq_expr h
    exact Or.inr ⟨base, k, hbase, hk⟩
  · cases hv
  · exact absurd h (hostBinary_ne_expr (hostOperand_isInteger ha hx) (hostOperand_isInteger hb hy))

/-- A complement is one of an integer. -/
theorem invert_eq_ok {a v : Value} (ha : a.isOperand = true) (h : unary .invert a = .ok v) :
    ∃ x, hostOperand "~" a = .ok x ∧ unary .invert x = .ok v ∧ ∃ n, v = .int n := by
  have hhost : unary .invert a = hostOperand "~" a >>= unary .invert := by
    rcases operand_cases ha with hi | ⟨s, rfl⟩ | ⟨e, m, rfl⟩
    · rw [hostOperand_of_isInteger _ hi]; rfl
    · rfl
    · show (hostOperand "~" (expr e m) >>= _) = _
      rw [hostOperand]
      split_ifs <;> rfl
  rw [hhost] at h
  obtain ⟨x, hx, h⟩ := bind_eq_ok.1 h
  refine ⟨x, hx, h, ?_⟩
  have hi := hostOperand_isInteger ha hx
  cases x <;> simp only [isInteger, Bool.false_eq_true] at hi <;> exact ⟨_, (Except.ok.inj h).symm⟩

/-- An operator on one operand gives an expression by negation, or as it is. -/
theorem unary_eq_expr {op : Unary} {a : Value} {e : Expr} {m : Mark} (ha : a.isOperand = true)
    (h : unary op a = .ok (.expr e m)) :
    combine "neg" [a.operand] = .ok e ∨ a.operand.toExpr Option.none = .ok e := by
  have hi : op ≠ .invert := by
    rintro rfl
    obtain ⟨-, -, -, n, hn⟩ := invert_eq_ok ha h
    cases hn
  rcases operand_cases ha with ha | ⟨s, rfl⟩ | ⟨x, k, rfl⟩
  · cases a <;> simp only [isInteger, Bool.false_eq_true] at ha <;>
      cases op <;> simp [unary, itemUnary, Number.ofValue?] at h hi
  · cases op with
    | neg => exact Or.inl (combined_eq_expr h)
    | pos => cases h; exact Or.inr rfl
    | invert => exact absurd rfl hi
  · cases op with
    | neg => exact Or.inl (combined_eq_expr h)
    | pos => cases h; exact Or.inr rfl
    | invert => exact absurd rfl hi

/-! ## Sizes -/

theorem test_lt (a b : Int) : Number.test .lt (.int a) (.int b) = decide (a < b) := by
  change (compare a b == .lt) = _
  rw [Bool.eq_iff_iff, beq_iff_eq, compare_lt_iff_lt, decide_eq_true_iff]

/-- An item without dimensions is compared as what it holds. -/
theorem binary_lt_cell (k m : Int) :
    binary .lt (.cell (.int k)) (.int m) = itemBinary .lt (scalar (.int k)) (.int m) := by
  have hshape : (scalar (.int k)).shapeOf = [] := by
    rw [scalar]
    split_ifs <;> rfl
  change spread (itemBinary .lt) (.cell (.int k)) (.int m) = _
  simp only [spread, asGrid, bind, Except.bind, hshape]
  rfl

theorem binary_lt_expr {e : Expr} (he : ¬ e.degree > 0) (mark : Mark) (m : Int) :
    binary .lt (.expr e mark) (.int m) = hostBinary .lt (.int e.const) (.int m) := by
  rw [binary_of_isOperand _ rfl rfl]
  change hostOn .lt (.expr e mark) (.int m) = _
  have hoperands : ((expr e mark).isOperand && (int m).isOperand) = true := rfl
  simp only [hostOn, if_pos hoperands, hostOperand, if_neg he]
  rfl

/-- **What can be a size is compared as the size it is.** -/
theorem binary_lt_of_index {n : Value} {k : Int} (h : n.index = .ok k) (m : Int) :
    ∃ v, binary .lt n (.int m) = .ok v ∧ v.truth = .ok (decide (k < m)) := by
  rw [← test_lt]
  unfold index at h
  split at h
  · cases h; exact ⟨_, rfl, rfl⟩
  · cases h; exact ⟨_, rfl, rfl⟩
  · cases h; exact ⟨_, rfl, rfl⟩
  · cases h
    rw [binary_lt_cell, scalar]
    split_ifs <;> exact ⟨_, rfl, rfl⟩
  · cases h
  · unfold staticExpr at h
    split_ifs at h with hd
    cases h
    rw [binary_lt_expr hd]
    exact ⟨_, rfl, rfl⟩
  · cases h

end Value

end RankOne
