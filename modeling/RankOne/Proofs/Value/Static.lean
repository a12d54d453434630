/-
  RankOne — what is known at compile time.

  The degree of an expression says which of its uses are allowed: a host
  operation, a condition and a size need degree zero, and a product at most
  degree two.  As expressions are in canonical form, the degree cannot be wrong
  about the signals that an expression refers to.

  * `Value.Stands`: the host value that an operand without signals has under
    every assignment;
  * `stands_of_hostOperand`: host operations use that value;
  * `combine_eq_error`, `product_degree_iff`: when a combination exceeds the
    degree;
  * `canonical_form_and_static_use`: the canonical form, and what follows.
-/
import RankOne.Proofs.Expr.Built

namespace RankOne

variable {f : PrimeField} {S : Set Signal}

/-! ## Constants -/

namespace Expr

theorem Canonical.allSignals_eq_nil {e : Expr} (h : e.Canonical f) (hd : e.degree ≤ 0) :
    e.allSignals = [] := by
  have hd : e.degree = 0 := by have := h.degree_nonneg; omega
  have hl := h.constant hd
  have hp := h.products_of_degree_zero hd
  obtain ⟨field, const, linear, products, degree⟩ := e
  simp only at hl hp
  rw [allSignals, hl, hp]; rfl

/-- A constant has its value under every assignment. -/
theorem Canonical.evaluate_eq_const {e : Expr} (h : e.Canonical f) (hd : e.degree ≤ 0)
    (read : Signal → Except Error Int) : e.evaluate read = .ok e.const := by
  have hd : e.degree = 0 := by have := h.degree_nonneg; omega
  have hl := h.constant hd
  have hp := h.products_of_degree_zero hd
  have hc := h.const
  obtain ⟨field, const, linear, products, degree⟩ := e
  obtain rfl : field = f := h.field
  simp only at hl hp hc
  rw [evaluate, hl, hp]
  simp only [evaluateTerms, evaluateProducts, bind, Except.bind, pure, Except.pure, add_zero]
  rw [field.reduce_natCast hc]

end Expr

namespace Value

/-- `x` is the host value of the operand `a`, which refers to no signal and has this
    value under every assignment. -/
def Stands : Value → Value → Prop
  | signal _, _ => False
  | expr e _, x => e.allSignals = [] ∧ ∃ n : ℕ, x = .int n ∧ ∀ read, e.evaluate read = .ok n
  | a, x => x = a

theorem stands_expr {e : Expr} {m : Mark} (h : (Operand.expr e).Built f S) (hd : e.degree ≤ 0) :
    (expr e m).Stands (.int e.const) :=
  have hc := (Operand.proper_expr.1 h.proper).canonical
  ⟨hc.allSignals_eq_nil hd, e.const, rfl, hc.evaluate_eq_const hd⟩

theorem stands_of_isInteger {a : Value} (h : a.isInteger = true) : a.Stands a := by
  cases a <;> first | rfl | cases h

/-- What a host operation takes for an operand stands for it. -/
theorem stands_of_hostOperand {a x : Value} {op : String} (ha : a.operand.Built f S)
    (h : hostOperand op a = .ok x) : a.Stands x := by
  rcases hostOperand_eq_ok.1 h with ⟨hs, rfl⟩ | ⟨e, m, rfl, hd, rfl⟩
  · exact stands_of_isInteger (isInteger_of_isOperand ha.isOperand hs)
  · exact stands_expr ha hd

/-! ## Host operations, conditions and sizes -/

/-- A host operation uses the values of its operands, a signal compared with itself
    apart. -/
theorem stands_of_binary {g : PrimeField} {T : Set Signal} {op : Binary} {a b v : Value}
    (hop : op.isHostOnly = true) (ha : a.operand.Built f S) (hb : b.operand.Built g T)
    (h : binary op a b = .ok v) :
    ((op = .eq ∨ op = .ne) ∧ ∃ s, a = signal s ∧ b = signal s) ∨
      ∃ x y, a.Stands x ∧ b.Stands y ∧ binary op x y = .ok v := by
  rcases binary_cases ha.isOperand hb.isOperand h with ⟨name, hname, -⟩ | ⟨rfl, -⟩ |
    ⟨he, s, t, hs, ht, -⟩ | ⟨x, y, hx, hy, h⟩
  · cases op <;> simp [Binary.isHostOnly, operationName?] at hop hname
  · cases hop
  · exact Or.inl ⟨he, s, hs, ht⟩
  · refine Or.inr ⟨x, y, stands_of_hostOperand ha hx, stands_of_hostOperand hb hy, ?_⟩
    rwa [binary_of_isInteger (hostOperand_isInteger ha.isOperand hx)
      (hostOperand_isInteger hb.isOperand hy)]

theorem stands_of_invert {a v : Value} (ha : a.operand.Built f S) (h : unary .invert a = .ok v) :
    ∃ x, a.Stands x ∧ unary .invert x = .ok v := by
  obtain ⟨x, hx, h, -⟩ := invert_eq_ok ha.isOperand h
  exact ⟨x, stands_of_hostOperand ha hx, h⟩

/-- A power uses the value of its exponent. -/
theorem stands_of_exponent {g : PrimeField} {T : Set Signal} {a b v : Value}
    (ha : a.operand.Built f S) (hb : b.operand.Built g T) (h : binary .pow a b = .ok v) :
    ∃ y, b.Stands y ∧ binary .pow a y = .ok v := by
  have hpower {base : Expr} {m : Mark} (ha : ∀ k : Value, k.isOperand = true →
      binary .pow a k = power base m k) : ∃ y, b.Stands y ∧ binary .pow a y = .ok v := by
    rw [ha b hb.isOperand] at h
    obtain ⟨y, hy, h⟩ := power_eq_ok hb.isOperand h
    refine ⟨y, stands_of_hostOperand hb hy, ?_⟩
    rwa [ha y (isOperand_of_isInteger (hostOperand_isInteger hb.isOperand hy))]
  rcases operand_cases ha.isOperand with hi | ⟨s, rfl⟩ | ⟨e, m, rfl⟩
  · rcases binary_cases ha.isOperand hb.isOperand h with ⟨name, hname, -⟩ | ⟨-, _, _, -, hs, -⟩ |
      ⟨he, -⟩ | ⟨x, y, hx, hy, h⟩
    · cases hname
    · rw [isSymbolic_of_isInteger hi] at hs; cases hs
    · simp at he
    · obtain rfl := Except.ok.inj ((hostOperand_of_isInteger _ hi).symm.trans hx)
      refine ⟨y, stands_of_hostOperand hb hy, ?_⟩
      rwa [binary_of_isInteger hi (hostOperand_isInteger hb.isOperand hy)]
  · exact hpower fun k hk => by rw [binary_of_isOperand _ ha.isOperand hk]; rfl
  · exact hpower fun k hk => by rw [binary_of_isOperand _ ha.isOperand hk]; rfl

/-- An integer use takes expressions of degree zero by their constant. -/
theorem staticExpr_eq_ok {what : String} {e : Expr} {n : Int} (h : staticExpr what e = .ok n) :
    e.degree ≤ 0 ∧ n = e.const := by
  unfold staticExpr at h
  split_ifs at h with hd
  exact ⟨by omega, (Except.ok.inj h).symm⟩

theorem stands_of_index {a : Value} {n : Int} (ha : a.operand.Built f S) (h : a.index = .ok n) :
    ∃ x, a.Stands x ∧ x.index = .ok n := by
  rcases operand_cases ha.isOperand with hi | ⟨s, rfl⟩ | ⟨e, m, rfl⟩
  · exact ⟨a, stands_of_isInteger hi, h⟩
  · cases h
  · obtain ⟨hd, rfl⟩ := staticExpr_eq_ok h
    exact ⟨.int e.const, stands_expr ha hd, rfl⟩

theorem stands_of_toInt {a : Value} {n : Int} (ha : a.operand.Built f S) (h : a.toInt = .ok n) :
    ∃ x, a.Stands x ∧ x.toInt = .ok n := by
  rcases operand_cases ha.isOperand with hi | ⟨s, rfl⟩ | ⟨e, m, rfl⟩
  · exact ⟨a, stands_of_isInteger hi, h⟩
  · cases h
  · obtain ⟨hd, rfl⟩ := staticExpr_eq_ok h
    exact ⟨.int e.const, stands_expr ha hd, rfl⟩

theorem stands_of_truth {a : Value} {t : Bool} (ha : a.operand.Built f S) (h : a.truth = .ok t) :
    ∃ x, a.Stands x ∧ x.truth = .ok t := by
  rcases operand_cases ha.isOperand with hi | ⟨s, rfl⟩ | ⟨e, m, rfl⟩
  · exact ⟨a, stands_of_isInteger hi, h⟩
  · cases h
  · rw [truth] at h
    cases hn : staticExpr "truth value" e with
    | error err => rw [hn] at h; cases h
    | ok n =>
      rw [hn] at h
      obtain ⟨hd, rfl⟩ := staticExpr_eq_ok hn
      exact ⟨.int e.const, stands_expr ha hd, h⟩

end Value

/-! ## Degrees -/

theorem exists_of_mapM_eq_error {ε α β : Type} {g : α → Except ε β} {e : ε} : ∀ {xs : List α},
    xs.mapM g = .error e → ∃ x ∈ xs, g x = .error e
  | [], h => by cases h
  | x :: xs, h => by
    rw [List.mapM_cons, bind_eq_error] at h
    rcases h with h | ⟨y, -, h⟩
    · exact ⟨x, List.mem_cons_self, h⟩
    · rcases bind_eq_error.1 h with h | ⟨ys, -, h⟩
      · obtain ⟨z, hz, h⟩ := exists_of_mapM_eq_error h
        exact ⟨z, List.mem_cons_of_mem _ hz, h⟩
      · cases h

namespace Operand

/-- The degree of an operand as an expression. -/
def degree : Operand → Int
  | signal _ => 1
  | expr e => e.degree
  | _ => 0

theorem degree_toExpr {o : Operand} {g : Option PrimeField} {e : Expr} (h : o.toExpr g = .ok e) :
    e.degree = o.degree := by
  cases o with
  | const n =>
    cases g with
    | none => cases h
    | some g => cases h; rfl
  | signal s => cases h; rfl
  | expr e => cases h; rfl
  | other type => cases h

theorem kind_of_toExpr_eq_error {o : Operand} {g : Option PrimeField} {err : Error}
    (h : o.toExpr g = .error err) : err.kind = .badType := by
  cases o with
  | const n =>
    cases g with
    | none => cases h; rfl
    | some g => cases h
  | signal s => cases h
  | expr e => cases h
  | other type => cases h; rfl

theorem kind_of_commonField_eq_error {os : List Operand} {err : Error}
    (h : commonField os = .error err) : err.kind = .badValue := by
  unfold commonField at h
  generalize (none : Option PrimeField) = acc at h
  induction os generalizing acc with
  | nil => cases h
  | cons o os ih =>
    rw [List.foldlM_cons, bind_eq_error] at h
    rcases h with h | ⟨acc', -, h⟩
    · split at h
      · split_ifs at h
        cases h; rfl
      · cases h
      · cases h
    · exact ih acc' h

end Operand

theorem Operand.Built.degree_nonneg {o : Operand} (ho : o.Built f S) : 0 ≤ o.degree := by
  obtain ⟨-, e, he, hp⟩ := ho.proper
  rw [← Operand.degree_toExpr he]
  exact hp.canonical.degree_nonneg

/-- A failed combination has no common field, an operand that is none, no operation
    of its name, or fails in the operation. -/
theorem combine_eq_error {name : String} {os : List Operand} {err : Error}
    (h : combine name os = .error err) : err.kind = .badValue ∨ err.kind = .badType ∨
      ∃ g es op, os.mapM (·.toExpr (some g)) = .ok es ∧ Operation.ofName? name = some op ∧
        op.apply es = .error err := by
  rw [combine, bind_eq_error] at h
  rcases h with h | ⟨g, -, h⟩
  · exact Or.inl (Operand.kind_of_commonField_eq_error h)
  cases g with
  | none => cases h; exact Or.inr (Or.inl rfl)
  | some g =>
    rcases bind_eq_error.1 h with h | ⟨es, hes, h⟩
    · obtain ⟨o, -, h⟩ := exists_of_mapM_eq_error h
      exact Or.inr (Or.inl (Operand.kind_of_toExpr_eq_error h))
    · split at h
      · next op hop => exact Or.inr (Or.inr ⟨g, es, op, hes, hop, h⟩)
      · cases h; exact Or.inl rfl

/-- Sums, differences, negations and multiples never exceed the degree. -/
theorem kind_ne_degree_of_combine {name : String} (hname : name ∈ ["sum", "sub", "neg", "scalar"])
    {os : List Operand} {err : Error} (h : combine name os = .error err) : err.kind ≠ .degree := by
  rcases combine_eq_error h with hk | hk | ⟨g, es, op, -, hop, h⟩
  · rw [hk]; decide
  · rw [hk]; decide
  · have hop' : op ≠ .product ∧ op ≠ .div := by
      simp only [List.mem_cons, List.not_mem_nil, or_false] at hname
      rcases hname with rfl | rfl | rfl | rfl <;> cases hop <;> decide
    unfold Operation.apply at h
    split at h
    · cases h
    · exact absurd rfl hop'.1
    · cases h
    · cases h
    · rcases bind_eq_error.1 h with h | ⟨k, -, h⟩
      · unfold Expr.constantValue at h
        split_ifs at h
        cases h; simp [Error.kind]
      · cases h
    · exact absurd rfl hop'.2
    · cases h; decide

theorem Expr.mul_degree_iff {a b : Expr} :
    (∃ err, a.mul b = .error err ∧ err.kind = .degree) ↔
      a.degree ≠ 0 ∧ b.degree ≠ 0 ∧ 2 < a.degree + b.degree := by
  unfold Expr.mul
  split_ifs with h₁ h₂ h₃
  · simp [h₁]
  · simp [h₂]
  · simp [h₁, h₂, h₃, Error.kind]
  · simp [h₁, h₂, h₃]

theorem apply_product_pair (x y : Expr) : Operation.apply .product [x, y] = x.mul y := by
  show (x.mul y >>= pure) = x.mul y
  cases x.mul y <;> rfl

/-- An operand of positive degree brings its field along. -/
theorem Operand.Built.field?_of_degree {o : Operand} (ho : o.Built f S) (hd : 0 < o.degree) :
    o.field? = some f ∧ ∃ x, ∀ g, o.toExpr g = .ok x := by
  cases o with
  | const n => exact absurd hd (lt_irrefl 0)
  | signal s =>
    cases ho with
    | signal hs hf => exact ⟨congrArg some hf, _, fun _ => rfl⟩
  | expr e => exact ⟨congrArg some (proper_expr.1 ho.proper).isOver.field, e, fun _ => rfl⟩
  | other type => exact absurd hd (lt_irrefl 0)

/-- **A product of two operands exceeds the degree iff both degrees are positive and
    their sum is more than two.** -/
theorem product_degree_iff {a b : Operand} (ha : a.Built f S) (hb : b.Built f S) :
    (∃ err, combine "product" [a, b] = .error err ∧ err.kind = .degree) ↔
      0 < a.degree ∧ 0 < b.degree ∧ 2 < a.degree + b.degree := by
  constructor
  · rintro ⟨err, h, hk⟩
    rcases combine_eq_error h with hk' | hk' | ⟨g, es, op, hes, hop, h⟩
    · rw [hk] at hk'; cases hk'
    · rw [hk] at hk'; cases hk'
    · cases hop
      rw [mapM_eq_ok] at hes
      rcases hes with _ | ⟨hx, _ | ⟨hy, _ | _⟩⟩
      next x y =>
      rw [apply_product_pair] at h
      obtain ⟨hx₀, hy₀, hsum⟩ := Expr.mul_degree_iff.1 ⟨err, h, hk⟩
      rw [Operand.degree_toExpr hx, Operand.degree_toExpr hy] at *
      have hna := ha.degree_nonneg
      have hnb := hb.degree_nonneg
      omega
  · rintro ⟨h₁, h₂, h₃⟩
    obtain ⟨hfa, x, hx⟩ := ha.field?_of_degree h₁
    obtain ⟨hfb, y, hy⟩ := hb.field?_of_degree h₂
    obtain ⟨err, h, hk⟩ := (Expr.mul_degree_iff (a := x) (b := y)).2 (by
      rw [Operand.degree_toExpr (hx none), Operand.degree_toExpr (hy none)]; omega)
    refine ⟨err, ?_, hk⟩
    rw [← h, ← apply_product_pair]
    simp [combine, Operand.commonField, hfa, hfb, hx, hy, Operation.ofName?, bind, Except.bind,
      pure, Except.pure]

/-! ## Form and use -/

/-- **The canonical form and its consequences.**  Every expression built from
    integers and signals is in canonical form, with factors of degree one in
    canonical form.  A host operation, a complement, a condition or an integer use
    that gives a value took each operand by the value it has under every assignment,
    a signal compared with itself apart.  A product of two operands exceeds the
    degree iff both degrees are positive with a sum above two, and sums, differences,
    negations and multiples never do. -/
theorem canonical_form_and_static_use :
    (∀ {f S e}, (Operand.expr e).Built f S → e.Canonical f ∧ ∀ p ∈ e.products,
      (p.1.Canonical f ∧ p.1.degree = 1) ∧ (p.2.Canonical f ∧ p.2.degree = 1)) ∧
    (∀ {f g S T op a b v}, a.operand.Built f S → b.operand.Built g T →
      Value.binary op a b = .ok v →
      (op.isHostOnly = true → ((op = .eq ∨ op = .ne) ∧ ∃ s, a = .signal s ∧ b = .signal s) ∨
        ∃ x y, a.Stands x ∧ b.Stands y ∧ Value.binary op x y = .ok v) ∧
      (op = .pow → ∃ y, b.Stands y ∧ Value.binary .pow a y = .ok v)) ∧
    (∀ {f S a}, a.operand.Built f S →
      (∀ v, Value.unary .invert a = .ok v → ∃ x, a.Stands x ∧ Value.unary .invert x = .ok v) ∧
      (∀ t, a.truth = .ok t → ∃ x, a.Stands x ∧ x.truth = .ok t) ∧
      (∀ n, a.index = .ok n → ∃ x, a.Stands x ∧ x.index = .ok n) ∧
      (∀ n, a.toInt = .ok n → ∃ x, a.Stands x ∧ x.toInt = .ok n)) ∧
    (∀ {f S} {a b : Operand}, a.Built f S → b.Built f S →
      ((∃ err, combine "product" [a, b] = .error err ∧ err.kind = .degree) ↔
        0 < a.degree ∧ 0 < b.degree ∧ 2 < a.degree + b.degree)) ∧
    (∀ name ∈ ["sum", "sub", "neg", "scalar"], ∀ os err, combine name os = .error err →
      err.kind ≠ .degree) := by
  refine ⟨fun h => ?_, fun ha hb h => ⟨fun hop => Value.stands_of_binary hop ha hb h, ?_⟩,
    fun ha => ⟨fun _ => Value.stands_of_invert ha, fun _ => Value.stands_of_truth ha,
      fun _ => Value.stands_of_index ha, fun _ => Value.stands_of_toInt ha⟩,
    product_degree_iff, fun _ hname _ _ => kind_ne_degree_of_combine hname⟩
  · have hc := (Operand.proper_expr.1 h.proper).canonical
    exact ⟨hc, hc.factor⟩
  · rintro rfl; exact Value.stands_of_exponent ha hb h

/-- Modulo seven: `x * x` is canonical and has no product with `x`, and the constant
    `8` is odd, as it stands for one. -/
theorem square_and_constant_mod7 :
    let f : PrimeField := ⟨7, by decide⟩
    let x := signalMod7 1
    let square := Expr.of f 0 [] [(.ofSignal x, .ofSignal x)] 2
    let eight := Value.expr (.ofInt f 8)
    square.Canonical f ∧
      (∃ err, combine "product" [.expr square, .signal x] = .error err ∧ err.kind = .degree) ∧
      Value.binary .mod eight (.int 2) = .ok (.int 1) ∧
      ∃ a b, eight.Stands a ∧ (Value.int 2).Stands b ∧ Value.binary .mod a b = .ok (.int 1) := by
  have hmod : Value.binary .mod (.expr (.ofInt ⟨7, by decide⟩ 8)) (.int 2) = .ok (.int 1) := by rfl
  intro f x square eight
  obtain ⟨hform, hhost, -, hdegree, -⟩ := canonical_form_and_static_use
  have hsquare : (Operand.expr square).Built f Set.univ :=
    @Operand.Built.combined f _ "product" [.signal x, .signal x] _
      (by simpa using built_signalMod7 1) rfl
  have height : eight.operand.Built f Set.univ := .coerced (.const 8) rfl
  refine ⟨(hform hsquare).1, (hdegree hsquare (built_signalMod7 1)).2 (by decide), hmod, ?_⟩
  exact ((hhost height (.const 2 : Operand.Built f Set.univ _) hmod).1 rfl).resolve_left (by simp)

end RankOne
