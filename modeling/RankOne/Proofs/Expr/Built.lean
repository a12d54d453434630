/-
  RankOne — expressions built from integers and signals.

  * `Operand.Built f S`: what can be made of integers and of signals in `S` over
    the field `f` by the operations on expressions and by operators on values;
  * `combine_eq_ok`, `apply_induct`: the parts of a combination, and a property
    that sums, multiples and products keep;
  * `Operand.Built.proper`: everything built is in canonical form, over the field
    and the signals it was built from.
-/
import RankOne.Proofs.Expr.Clash
import RankOne.Proofs.Value.Operators

namespace RankOne

/-! ## Combinations -/

namespace Operand

theorem foldlM_commonField {g : PrimeField} : ∀ {os : List Operand} {acc : Option PrimeField},
    os.foldlM (fun (acc : Option PrimeField) x => match acc, x.field? with
      | some f, some g => if f = g then .ok (some g) else .error (.differentFields f.p g.p)
      | _, some g => .ok (some g)
      | acc, none => .ok acc) acc = (.ok (some g) : Except Error _) →
    acc = some g ∨ ∃ o ∈ os, o.field? = some g
  | [], acc, h => Or.inl (by cases h; rfl)
  | o :: os, acc, h => by
    rw [List.foldlM_cons, bind_eq_ok] at h
    obtain ⟨acc', h', h⟩ := h
    rcases foldlM_commonField h with rfl | ⟨o', ho', hg⟩
    · split at h'
      · next f g' _ hg =>
        split_ifs at h'
        cases h'
        exact Or.inr ⟨o, List.mem_cons_self, hg⟩
      · next hg => cases h'; exact Or.inr ⟨o, List.mem_cons_self, hg⟩
      · cases h'; exact Or.inl rfl
    · exact Or.inr ⟨o', List.mem_cons_of_mem _ ho', hg⟩

/-- The common field is the field of an operand. -/
theorem exists_of_commonField {os : List Operand} {g : PrimeField}
    (h : commonField os = .ok (some g)) : ∃ o ∈ os, o.field? = some g :=
  (foldlM_commonField h).resolve_left (by simp)

end Operand

/-- The parts of a combination: a common field, the operands as expressions over
    it, and the operation of the name. -/
theorem combine_eq_ok {name : String} {os : List Operand} {e : Expr} :
    combine name os = .ok e ↔ ∃ f es op, Operand.commonField os = .ok (some f) ∧
      os.mapM (·.toExpr (some f)) = .ok es ∧ Operation.ofName? name = some op ∧
      op.apply es = .ok e := by
  simp only [combine, bind_eq_ok]
  constructor
  · rintro ⟨f, hf, h⟩
    cases f with
    | none => cases h
    | some f =>
      obtain ⟨es, hes, h⟩ := bind_eq_ok.1 h
      split at h
      · next op hop => exact ⟨f, es, op, hf, hes, hop, h⟩
      · cases h
  · rintro ⟨f, es, op, hf, hes, hop, h⟩
    exact ⟨some f, hf, by simp only [hes, hop]; exact h⟩

/-- What sums, multiples and products keep, every operation keeps. -/
theorem Operation.apply_induct {P : Expr → Prop} (hadd : ∀ a b, P a → P b → P (a.add b))
    (hscale : ∀ a k, P a → P (a.scale k)) (hmul : ∀ a b c, P a → P b → a.mul b = .ok c → P c)
    {op : Operation} {es : List Expr} {e : Expr} (hes : ∀ x ∈ es, P x)
    (h : op.apply es = .ok e) : P e := by
  have hsum : ∀ (es : List Expr) (a : Expr), P a → (∀ x ∈ es, P x) → P (es.foldl Expr.add a) := by
    intro es
    induction es with
    | nil => exact fun a ha _ => ha
    | cons b es ih =>
      intro a ha hes
      rw [List.forall_mem_cons] at hes
      exact ih _ (hadd a b ha hes.1) hes.2
  have hprod : ∀ (es : List Expr) (a : Expr), P a → (∀ x ∈ es, P x) →
      es.foldlM Expr.mul a = .ok e → P e := by
    intro es
    induction es with
    | nil => rintro a ha - h; cases h; exact ha
    | cons b es ih =>
      intro a ha hes h
      rw [List.forall_mem_cons] at hes
      obtain ⟨c, hc, h⟩ := bind_eq_ok.1 h
      exact ih c (hmul a b c ha hes.1 hc) hes.2 h
  unfold apply at h
  split at h
  · rw [List.forall_mem_cons] at hes
    cases h; exact hsum _ _ hes.1 hes.2
  · rw [List.forall_mem_cons] at hes
    exact hprod _ _ hes.1 hes.2 h
  · cases h; exact hscale _ _ (hes _ List.mem_cons_self)
  · cases h; exact hadd _ _ (hes _ (by simp)) (hscale _ _ (hes _ (by simp)))
  · obtain ⟨k, -, h⟩ := bind_eq_ok.1 h
    cases h; exact hscale _ _ (hes _ (by simp))
  · unfold Expr.div at h
    split_ifs at h
    cases h; exact hscale _ _ (hes _ (by simp))
  · cases h

/-! ## Building -/

/-- Operands made of integers and of signals in `S`, over the field `f`. -/
inductive Operand.Built (f : PrimeField) (S : Set Signal) : Operand → Prop where
  | const (n : Int) : Built f S (.const n)
  | signal {s : Signal} (hs : s ∈ S) (hf : s.field = f) : Built f S (.signal s)
  /-- an operand taken as an expression -/
  | coerced {o : Operand} {e : Expr} (ho : Built f S o) (h : o.toExpr (some f) = .ok e) :
    Built f S (.expr e)
  /-- a named operation on any number of operands -/
  | combined {name : String} {os : List Operand} {e : Expr} (hos : ∀ o ∈ os, Built f S o)
    (h : combine name os = .ok e) : Built f S (.expr e)
  /-- an operator on two values -/
  | binary {op : Binary} {a b : Value} {e : Expr} {m : Mark} (ha : Built f S a.operand)
    (hb : Built f S b.operand) (h : Value.binary op a b = .ok (.expr e m)) : Built f S (.expr e)
  /-- an operator on one value -/
  | unary {op : Unary} {a : Value} {e : Expr} {m : Mark} (ha : Built f S a.operand)
    (h : Value.unary op a = .ok (.expr e m)) : Built f S (.expr e)
  | power {e r : Expr} {k : ℕ} (he : Built f S (.expr e)) (h : e.pow k = .ok r) :
    Built f S (.expr r)
  | linearPart {e : Expr} (he : Built f S (.expr e)) : Built f S (.expr e.linearPart)
  /-- a side of the row of an expression -/
  | row {e a b c x : Expr} (he : Built f S (.expr e)) (h : e.toRow = .ok (a, b, c))
    (hx : x ∈ [a, b, c]) : Built f S (.expr x)

/-- A signal modulo seven. -/
def signalMod7 (n : Int) : Signal :=
  ⟨n, "main.x", .declared .input, ⟨7, by decide⟩, "main", .own⟩

theorem built_signalMod7 (n : Int) :
    (Operand.signal (signalMod7 n)).Built ⟨7, by decide⟩ Set.univ := .signal (Set.mem_univ _) rfl

variable {f : PrimeField} {S : Set Signal}

/-- In canonical form, over `f` and `S`. -/
structure Expr.Proper (f : PrimeField) (S : Set Signal) (e : Expr) : Prop where
  canonical : e.Canonical f
  isOver : e.Over f S

namespace Expr.Proper

variable {a b e : Expr}

theorem ofInt (n : Int) : (Expr.ofInt f n).Proper f S :=
  ⟨.ofInt f n, over_iff.2 ⟨rfl, by simp [Expr.ofInt], trivial⟩⟩

theorem ofSignal {s : Signal} (hs : s ∈ S) (hf : s.field = f) : (Expr.ofSignal s).Proper f S :=
  ⟨.ofSignal hf, over_ofSignal hf hs⟩

theorem scale (h : e.Proper f S) (k : Int) : (e.scale k).Proper f S :=
  ⟨h.canonical.scale k, Over.scaleBy _ e h.isOver⟩

theorem add (ha : a.Proper f S) (hb : b.Proper f S) : (a.add b).Proper f S :=
  ⟨ha.canonical.add hb.canonical, Over.addAt _ ha.isOver hb.isOver⟩

theorem sub (ha : a.Proper f S) (hb : b.Proper f S) : (a.sub b).Proper f S := ha.add (hb.scale _)

/-- A sum over signals with different numbers compares no two of them. -/
theorem clash_add (ha : a.Proper f S) (hS : Set.InjOn Signal.uid S) (hb : b.Proper f S) :
    Clash.add a b = .ok (a.add b) :=
  Clash.add_ok hS ha.canonical hb.canonical ha.isOver hb.isOver

theorem mul (ha : a.Proper f S) (hb : b.Proper f S) (h : a.mul b = .ok e) : e.Proper f S := by
  refine ⟨ha.canonical.mul hb.canonical h, ?_⟩
  unfold Expr.mul at h
  split_ifs at h
  · cases h; exact (hb.scale _).isOver
  · cases h; exact (ha.scale _).isOver
  · cases h
    exact over_iff.2 ⟨ha.isOver.field, by simp [of, Terms.reduce], ha.isOver, hb.isOver, trivial⟩

theorem mulTimes (he : e.Proper f S) : ∀ {k : ℕ} {acc r : Expr}, acc.Proper f S →
    Expr.mulTimes e acc k = .ok r → r.Proper f S
  | 0, acc, r, ha, h => by rw [Expr.mulTimes] at h; cases h; exact ha
  | k + 1, acc, r, ha, h => by
    rw [Expr.mulTimes] at h
    obtain ⟨m, hm, h⟩ := bind_eq_ok.1 h
    exact mulTimes he (ha.mul he hm) h

theorem pow {k : ℕ} {r : Expr} (he : e.Proper f S) (h : e.pow k = .ok r) : r.Proper f S := by
  refine he.mulTimes ?_ h
  rw [he.isOver.field]; exact ofInt 1

theorem toRow {c : Expr} (h : e.Proper f S) (hr : e.toRow = .ok (a, b, c)) :
    a.Proper f S ∧ b.Proper f S ∧ c.Proper f S := by
  obtain ⟨ha, hb, hc⟩ := h.canonical.toRow hr
  obtain ⟨oa, ob, oc⟩ := toRow_over h.isOver hr
  exact ⟨⟨ha, oa⟩, ⟨hb, ob⟩, hc, oc⟩

theorem apply {op : Operation} {es : List Expr} (hes : ∀ x ∈ es, x.Proper f S)
    (h : op.apply es = .ok e) : e.Proper f S :=
  Operation.apply_induct (fun _ _ => add) (fun _ k h => h.scale k) (fun _ _ _ => mul) hes h

end Expr.Proper

/-- An operand that stands for a proper expression. -/
def Operand.Proper (f : PrimeField) (S : Set Signal) (o : Operand) : Prop :=
  (∀ g, o.field? = some g → g = f) ∧ ∃ e, o.toExpr (some f) = .ok e ∧ e.Proper f S

namespace Operand

theorem proper_expr {e : Expr} : (Operand.expr e).Proper f S ↔ e.Proper f S := by
  constructor
  · rintro ⟨-, e, h, he⟩; cases h; exact he
  · intro h; exact ⟨fun g hg => by cases hg; exact h.isOver.field, e, rfl, h⟩

theorem Proper.toExpr {o : Operand} {e : Expr} (ho : o.Proper f S)
    (h : o.toExpr (some f) = .ok e) : e.Proper f S := by
  obtain ⟨-, e', he', hp⟩ := ho
  cases he'.symm.trans h
  exact hp

/-- Combined operands that are proper over `f` are taken as expressions over it. -/
theorem Proper.combine {name : String} {os : List Operand} {e : Expr}
    (hos : ∀ o ∈ os, o.Proper f S) (h : combine name os = .ok e) :
    ∃ es op, commonField os = .ok (some f) ∧
      List.Forall₂ (fun o x => o.toExpr (some f) = .ok x) os es ∧
      (∀ x ∈ es, x.Proper f S) ∧ Operation.ofName? name = some op ∧ op.apply es = .ok e := by
  obtain ⟨g, es, op, hg, hes, hop, h⟩ := combine_eq_ok.1 h
  obtain ⟨o, ho, hog⟩ := exists_of_commonField hg
  obtain rfl := (hos o ho).1 g hog
  have hall := mapM_eq_ok.1 hes
  refine ⟨es, op, hg, hall, fun x hx => ?_, hop, h⟩
  obtain ⟨o, ho, hox⟩ := forall₂_mem_right hall hx
  exact (hos o ho).toExpr hox

theorem Proper.combined {name : String} {os : List Operand} {e : Expr}
    (hos : ∀ o ∈ os, o.Proper f S) (h : RankOne.combine name os = .ok e) :
    (Operand.expr e).Proper f S := by
  obtain ⟨es, op, -, -, hes, -, h⟩ := Proper.combine hos h
  exact proper_expr.2 (.apply hes h)

/-- What is an expression without a field is the same one over a field. -/
theorem toExpr_mono {o : Operand} {e : Expr} (h : o.toExpr none = .ok e) :
    o.toExpr (some f) = .ok e := by
  cases o <;> first | exact h | cases h

theorem Built.isOperand {a : Value} (h : Built f S a.operand) : a.isOperand = true := by
  cases a <;> first | rfl | cases h

/-- **Everything built from integers and signals is proper.** -/
theorem Built.proper {o : Operand} (h : o.Built f S) : o.Proper f S := by
  induction h with
  | const n => exact ⟨nofun, _, rfl, .ofInt n⟩
  | signal hs hf => exact ⟨fun g hg => by cases hg; exact hf, _, rfl, .ofSignal hs hf⟩
  | coerced ho h ih => exact proper_expr.2 (ih.toExpr h)
  | combined hos h ih =>
    exact .combined ih h
  | binary ha hb h iha ihb =>
    rcases Value.binary_eq_expr ha.isOperand hb.isOperand h with ⟨name, h⟩ | ⟨x, k, hx, h⟩
    · exact .combined (by simpa using ⟨iha, ihb⟩) h
    · exact proper_expr.2 ((iha.toExpr (toExpr_mono hx)).pow h)
  | unary ha h ih =>
    rcases Value.unary_eq_expr ha.isOperand h with h | h
    · exact .combined (List.forall_mem_singleton.2 ih) h
    · exact proper_expr.2 (ih.toExpr (toExpr_mono h))
  | power he h ih => exact proper_expr.2 ((proper_expr.1 ih).pow h)
  | linearPart he ih =>
    have h := proper_expr.1 ih
    exact proper_expr.2 ⟨h.canonical.linearPart, h.isOver.linearPart⟩
  | row he h hx ih =>
    obtain ⟨ha, hb, hc⟩ := (proper_expr.1 ih).toRow h
    simp only [List.mem_cons, List.not_mem_nil, or_false] at hx
    rcases hx with rfl | rfl | rfl
    · exact proper_expr.2 ha
    · exact proper_expr.2 hb
    · exact proper_expr.2 hc

end Operand

end RankOne
