/-
  RankOne — arithmetic of expressions is arithmetic of residues.

  Evaluation takes every operation on expressions to the same operation on
  residues modulo the prime, whatever products were folded into each other and
  whatever terms were cancelled on the way.

  * `value_mul`, `value_div`, `value_pow`: products, quotients and powers;
  * `Operation.Yields`: what an operation makes of residues;
  * `Operation.apply_value`: what it makes of expressions has that value;
  * `evaluate_combine_and_pow`: the same of evaluation.
-/
import RankOne.Proofs.Expr.Built
import RankOne.Proofs.Expr.Clash
import RankOne.Script.Clash

namespace RankOne

variable {f : PrimeField} {v : Signal → ZMod f.p}

namespace Expr

variable {a b e : Expr}

/-! ## Products, quotients and powers -/

@[simp] theorem value_ofInt (n : Int) : (ofInt f n).value v = n := by
  simp [ofInt, value, Terms.value, productsValue]

theorem Canonical.value_scale (h : e.Canonical f) (k : Int) :
    (e.scale k).value v = k * e.value v := by
  rw [Expr.scale, value_scaleBy _ e h.isQuadratic.over, h.field, f.cast_reduce]

theorem Canonical.value_mul (ha : a.Canonical f) (hb : b.Canonical f) (h : a.mul b = .ok e) :
    e.value v = a.value v * b.value v := by
  unfold Expr.mul at h
  split_ifs at h with h₁ h₂
  · cases h
    rw [hb.value_scale, ha.value_const h₁, Int.cast_natCast]
  · cases h
    rw [ha.value_scale, hb.value_const h₂, Int.cast_natCast, mul_comm]
  · cases h
    rw [ha.field, value_of, Terms.value, productsValue, productsValue, Nat.cast_zero]
    ring

/-- Modulo a prime the quotient times the divisor is the dividend. -/
theorem Canonical.value_div (hp : f.p.Prime) (ha : a.Canonical f) (hb : b.Canonical f)
    (h : a.div b = .ok e) : b.value v ≠ 0 ∧ e.value v * b.value v = a.value v := by
  unfold Expr.div at h
  split_ifs at h with h₁ h₂
  cases h
  have hd : b.degree = 0 := by have := hb.degree_nonneg; omega
  have hc : ((b.const : Int) : ZMod f.p) ≠ 0 := by
    rw [Int.cast_natCast, Ne, ZMod.natCast_eq_zero_iff]
    exact fun hdvd => h₂ (Nat.eq_zero_of_dvd_of_lt hdvd hb.const)
  have hv : b.value v = ((b.const : Int) : ZMod f.p) := by
    rw [hb.value_const hd, Int.cast_natCast]
  have hinv := f.cast_inverse_mul hp hc
  refine ⟨by rwa [hv], ?_⟩
  rw [ha.value_scale, hv, hb.field, Int.cast_natCast]
  linear_combination a.value v * hinv

theorem Canonical.value_mulTimes (he : e.Canonical f) : ∀ {k : ℕ} {acc r : Expr},
    acc.Canonical f → Expr.mulTimes e acc k = .ok r → r.value v = acc.value v * e.value v ^ k
  | 0, acc, r, _, h => by rw [Expr.mulTimes] at h; cases h; rw [pow_zero, mul_one]
  | k + 1, acc, r, ha, h => by
    rw [Expr.mulTimes] at h
    obtain ⟨m, hm, h⟩ := bind_eq_ok.1 h
    rw [he.value_mulTimes (ha.mul he hm) h, ha.value_mul he hm, pow_succ]
    ring

theorem Canonical.value_pow {k : ℕ} {r : Expr} (he : e.Canonical f) (h : e.pow k = .ok r) :
    r.value v = e.value v ^ k := by
  rw [Expr.pow, he.field] at h
  rw [he.value_mulTimes (.ofInt f 1) h, value_ofInt, Int.cast_one, one_mul]

theorem value_foldlM_mul : ∀ {es : List Expr} {a e : Expr}, a.Canonical f →
    (∀ x ∈ es, x.Canonical f) → es.foldlM Expr.mul a = .ok e →
    e.value v = a.value v * (es.map (·.value v)).prod
  | [], a, e, _, _, h => by cases h; simp
  | b :: es, a, e, ha, hes, h => by
    rw [List.forall_mem_cons] at hes
    obtain ⟨c, hc, h⟩ := bind_eq_ok.1 h
    rw [value_foldlM_mul (ha.mul hes.1 hc) hes.2 h, ha.value_mul hes.1 hc, List.map_cons,
      List.prod_cons, mul_assoc]

end Expr

/-! ## Operations -/

namespace Operation

/-- What an operation makes of residues: a quotient is told by its product with
    the divisor. -/
def Yields {R : Type*} [CommRing R] : Operation → List R → R → Prop
  | .sum, xs, r => r = xs.sum
  | .product, xs, r => r = xs.prod
  | .neg, x :: _, r => r = -x
  | .sub, [x, y], r => r = x - y
  | .scalar, [k, x], r => r = k * x
  | .div, [x, y], r => y ≠ 0 ∧ r * y = x
  | _, _, _ => False

/-- The look-ups behind an operation. -/
def lookUps : Operation → List Expr → Except Error Unit
  | .sum, e :: es => do let _ ← Clash.sum e es
  | .sub, [a, b] => do let _ ← Clash.add a b.neg
  | _, _ => .ok ()

/-- Signals with numbers of their own pass every look-up. -/
theorem lookUps_ok {S : Set Signal} (hS : Set.InjOn Signal.uid S) (op : Operation)
    {es : List Expr} (hes : ∀ x ∈ es, x.Proper f S) : op.lookUps es = .ok () := by
  unfold lookUps
  split
  · rw [List.forall_mem_cons] at hes
    rw [Clash.sum_ok hS hes.1.canonical hes.1.isOver fun x hx =>
      ⟨(hes.2 x hx).canonical, (hes.2 x hx).isOver⟩]
    rfl
  · next a b =>
    have ha := hes a (by simp)
    have hb := hes b (by simp)
    rw [Clash.add_ok hS ha.canonical hb.canonical.neg ha.isOver hb.isOver.neg]
    rfl
  · rfl

/-- **An operation on expressions has the value of the operation on residues.** -/
theorem apply_value (hp : f.p.Prime) {op : Operation} {es : List Expr} {e : Expr}
    (hes : ∀ x ∈ es, x.Canonical f) (hl : op.lookUps es = .ok ()) (h : op.apply es = .ok e) :
    op.Yields (es.map (·.value v)) (e.value v) := by
  unfold apply at h
  split at h
  · rw [List.forall_mem_cons] at hes
    cases h
    obtain ⟨e, he, -⟩ := bind_eq_ok.1 hl
    obtain ⟨rfl, hval⟩ := Clash.sum_eq_ok (v := v) hes.1 hes.2 he
    exact hval
  · rw [List.forall_mem_cons] at hes
    exact Expr.value_foldlM_mul hes.1 hes.2 h
  · cases h
    exact Expr.value_neg (hes _ List.mem_cons_self).isQuadratic.over
  · next a b =>
    have ha := hes a (by simp)
    have hb := hes b (by simp)
    cases h
    obtain ⟨e, he, -⟩ := bind_eq_ok.1 hl
    obtain ⟨rfl, hval⟩ := Clash.add_eq_ok (v := v) ha hb.neg he
    show (a.sub b).value v = a.value v - b.value v
    rw [Expr.sub, hval, Expr.value_neg hb.isQuadratic.over, sub_eq_add_neg]
  · next k a =>
    have hk := hes k (by simp)
    obtain ⟨c, hc, h⟩ := bind_eq_ok.1 h
    obtain rfl := pure_eq_ok.1 h
    unfold Expr.constantValue at hc
    split_ifs at hc with hd
    obtain rfl := Except.ok.inj hc
    show (a.scale k.const).value v = k.value v * a.value v
    rw [(hes a (by simp)).value_scale, hk.value_const (by simpa [Expr.isConstant] using hd),
      Int.cast_natCast]
  · next a b => exact (hes a (by simp)).value_div hp (hes b (by simp)) h
  · cases h

end Operation

/-- The look-ups of a combination are those of its operation. -/
theorem Clash.checkCombine_eq {name : String} {vs : List Value} {g : PrimeField} {es : List Expr}
    {op : Operation} (hg : Operand.commonField (vs.map Value.operand) = .ok (some g))
    (hes : (vs.map Value.operand).mapM (·.toExpr (some g)) = .ok es)
    (hop : Operation.ofName? name = some op) :
    Clash.checkCombine name vs = op.lookUps es := by
  have hes' : vs.mapM (fun v => v.operand.toExpr (some g)) = .ok es := by
    rw [mapM_eq_ok] at hes ⊢
    exact List.forall₂_map_left_iff.1 hes
  rw [Clash.checkCombine, hg]
  show (vs.mapM (fun v => v.operand.toExpr (some g)) >>= _) = _
  rw [hes']
  unfold Operation.ofName? at hop
  split at hop <;> cases hop <;> rcases es with _ | ⟨a, _ | ⟨b, _ | ⟨c, es⟩⟩⟩ <;> rfl

/-! ## Evaluation -/

/-- The value of an operand under an assignment of integers to signals. -/
def Operand.evaluate (read : Signal → Except Error Int) : Operand → Except Error Int
  | .const n => .ok n
  | .signal s => read s
  | .expr e => do return (← e.evaluate read : ℕ)
  | .other _ => .error (.fault .type)

/-- An operand has the value of the expression that it is taken as. -/
theorem Operand.evaluate_toExpr {S : Set Signal} {read : Signal → Except Error Int}
    {x : Signal → Int} (hr : ∀ s ∈ S, read s = .ok (x s)) {o : Operand} (ho : o.Built f S)
    {e : Expr} (h : o.toExpr (some f) = .ok e) :
    ∃ n, o.evaluate read = .ok n ∧ (n : ZMod f.p) = e.value fun s => (x s : ZMod f.p) := by
  cases o with
  | const n =>
    obtain rfl := Except.ok.inj h
    exact ⟨n, rfl, (Expr.value_ofInt n).symm⟩
  | signal s =>
    obtain rfl := Except.ok.inj h
    cases ho with
    | signal hs hf => exact ⟨x s, hr s hs, by rw [Expr.value_ofSignal]⟩
  | expr e' =>
    obtain rfl := Except.ok.inj h
    obtain ⟨n, hn, -, hv⟩ := Expr.evaluate_value hr e' (proper_expr.1 ho.proper).isOver
    exact ⟨n, bind_eq_ok.2 ⟨n, hn, rfl⟩, by rw [← hv, Int.cast_natCast]⟩
  | other type => cases h

/-- The operands of a combination, as integers with the values of the expressions
    that they are taken as. -/
theorem Operand.mapM_evaluate {S : Set Signal} {read : Signal → Except Error Int}
    {x : Signal → Int} (hr : ∀ s ∈ S, read s = .ok (x s)) {os : List Operand} {es : List Expr}
    (hos : ∀ o ∈ os, o.Built f S)
    (h : List.Forall₂ (fun o e => o.toExpr (some f) = .ok e) os es) :
    ∃ ns, os.mapM (·.evaluate read) = .ok ns ∧
      ns.map (fun n : Int => (n : ZMod f.p)) = es.map (·.value fun s => (x s : ZMod f.p)) := by
  induction h with
  | nil => exact ⟨[], rfl, rfl⟩
  | cons ho _ ih =>
    rw [List.forall_mem_cons] at hos
    obtain ⟨n, hn, hv⟩ := evaluate_toExpr hr hos.1 ho
    obtain ⟨ns, hns, hvs⟩ := ih hos.2
    refine ⟨n :: ns, ?_, by rw [List.map_cons, List.map_cons, hv, hvs]⟩
    rw [List.mapM_cons, hn, hns]; rfl

/-- **Evaluation is a homomorphism to the residues modulo the prime.**  Whatever
    `combine` returns evaluates to the operation on the values of the operands, and
    `e ^ k` to the power of the value of `e`.  A sum of signals that share a
    declaration number also needs its look-ups to succeed, as they always do for
    signals with numbers of their own. -/
theorem evaluate_combine_and_pow (hp : f.p.Prime) {S : Set Signal}
    {read : Signal → Except Error Int} (hread : ∀ s ∈ S, ∃ x, read s = .ok x) :
    (∀ (name : String) (vs : List Value) (e : Expr), (∀ v ∈ vs, v.operand.Built f S) →
      combine name (vs.map Value.operand) = .ok e →
      (Clash.checkCombine name vs = .ok () →
        ∃ op xs n, Operation.ofName? name = some op ∧
          (vs.map Value.operand).mapM (·.evaluate read) = .ok xs ∧ e.evaluate read = .ok n ∧
          op.Yields (xs.map fun x : Int => (x : ZMod f.p)) (n : ZMod f.p)) ∧
      (Set.InjOn Signal.uid S → Clash.checkCombine name vs = .ok ())) ∧
    ∀ (e r : Expr) (k : ℕ), (Operand.expr e).Built f S → e.pow k = .ok r →
      ∃ m n, e.evaluate read = .ok m ∧ r.evaluate read = .ok n ∧
        (n : ZMod f.p) = (m : ZMod f.p) ^ k := by
  choose! x hx using hread
  refine ⟨fun name vs e hvs h => ?_, fun e r k he h => ?_⟩
  · have hos : ∀ o ∈ vs.map Value.operand, o.Built f S := by simpa using hvs
    obtain ⟨es, op, hcommon, hall, hes, hop, happly⟩ :=
      Operand.Proper.combine (fun o ho => (hos o ho).proper) h
    rw [Clash.checkCombine_eq hcommon (mapM_eq_ok.2 hall) hop]
    refine ⟨fun hl => ?_, fun hS => op.lookUps_ok hS hes⟩
    obtain ⟨ns, hns, hvals⟩ := Operand.mapM_evaluate hx hos hall
    obtain ⟨n, hn, -, hnv⟩ := Expr.evaluate_value hx e (Expr.Proper.apply hes happly).isOver
    refine ⟨op, ns, n, hop, hns, hn, ?_⟩
    rw [hvals, hnv]
    exact Operation.apply_value hp (fun x hx => (hes x hx).canonical) hl happly
  · have hpe := Operand.proper_expr.1 he.proper
    obtain ⟨m, hm, -, hmv⟩ := Expr.evaluate_value hx e hpe.isOver
    obtain ⟨n, hn, -, hnv⟩ := Expr.evaluate_value hx r (hpe.pow h).isOver
    exact ⟨m, n, hm, hn, by rw [hmv, hnv, hpe.canonical.value_pow h]⟩

/-- The sum of `x₁ * x₂` and `(3 * x₁) * x₃` folds into one product, and a linear
    form has a square: both evaluate as they should where `xᵢ` is `i + 2`. -/
theorem evaluate_folded_sum_and_square :
    let f : PrimeField := ⟨7, by decide⟩
    let x := fun n => Expr.ofSignal (signalMod7 n)
    let a := Expr.of f 0 [] [(x 1, x 2)] 2
    let b := Expr.of f 0 [] [((x 1).scale 3, x 3)] 2
    let read := fun s : Signal => (.ok (s.uid + 2) : Except Error Int)
    ∃ e r, combine "sum" [.expr a, .expr b] = .ok e ∧ e.products.length = 1 ∧
      (x 1).pow 2 = .ok r ∧
      (∃ xs n, [a, b].mapM (fun e => (Operand.expr e).evaluate read) = .ok xs ∧
        e.evaluate read = .ok n ∧ (n : ZMod 7) = (xs.map fun x : Int => (x : ZMod 7)).sum) ∧
      ∃ m n, (x 1).evaluate read = .ok m ∧ r.evaluate read = .ok n ∧ (n : ZMod 7) = m ^ 2 := by
  intro f x a b read
  have hp : f.p.Prime := by decide
  obtain ⟨e, he, hlen⟩ : ∃ e, combine "sum" [.expr a, .expr b] = .ok e ∧ e.products.length = 1 :=
    exists_ok (by decide +kernel)
  have hx (n : Int) : (Operand.expr (x n)).Built f Set.univ := .coerced (built_signalMod7 n) rfl
  have h3 : (Operand.expr ((x 1).scale 3)).Built f Set.univ :=
    @Operand.Built.combined f _ "scalar" [.const 3, .expr (x 1)] _
      (by simp [hx, Operand.Built.const]) rfl
  have ha : (Operand.expr a).Built f Set.univ :=
    @Operand.Built.combined f _ "product" [.expr (x 1), .expr (x 2)] _ (by simp [hx]) rfl
  have hb : (Operand.expr b).Built f Set.univ :=
    @Operand.Built.combined f _ "product" [.expr ((x 1).scale 3), .expr (x 3)] _
      (by simp [hx, h3]) rfl
  obtain ⟨hcombine, hpow⟩ :=
    @evaluate_combine_and_pow f hp Set.univ read fun s _ => ⟨s.uid + 2, rfl⟩
  obtain ⟨op, xs, n, hop, hxs, hn, hy⟩ :=
    (hcombine "sum" [.expr a [], .expr b []] e (by simpa using ⟨ha, hb⟩) he).1 (by decide +kernel)
  obtain rfl : op = .sum := by simpa [Operation.ofName?] using hop.symm
  exact ⟨e, _, he, hlen, rfl, ⟨xs, n, hxs, hn, hy⟩, hpow _ _ 2 (hx 1) rfl⟩

end RankOne
