/-
  RankOne — what expressions mean.

  An expression denotes a polynomial function of its signals with values in
  `ZMod p`.

  * `Terms.value`, `Expr.value`: the denotation;
  * `Expr.Over f S`: all forms of an expression, factors inside factors
    included, are over the field `f`, and all its signals are in `S`;
  * `evaluate_value`: evaluation gives the canonical representative of the
    denotation, as soon as every signal in `S` can be read;
  * `evaluate_mono`: what evaluation gives stays when more signals can be read;
  * `evaluate_congr`: it depends on the signals of the expression only.
-/
import Mathlib.Data.ZMod.Basic
import Mathlib.Tactic.Ring
import Mathlib.Tactic.LinearCombination
import RankOne.Expr.Rows

namespace RankOne

/-! ## Results that may be refused -/

theorem bind_eq_ok {ε α β : Type} {x : Except ε α} {g : α → Except ε β} {b : β} :
    (x >>= g) = .ok b ↔ ∃ a, x = .ok a ∧ g a = .ok b := by
  cases x with
  | error e => simp [bind, Except.bind]
  | ok a => simp [bind, Except.bind]

theorem bind_eq_error {ε α β : Type} {x : Except ε α} {g : α → Except ε β} {e : ε} :
    (x >>= g) = .error e ↔ x = .error e ∨ ∃ a, x = .ok a ∧ g a = .error e := by
  cases x <;> simp [bind, Except.bind]

@[simp] theorem pure_eq_ok {ε α : Type} {a b : α} :
    ((pure a : Except ε α) = .ok b) ↔ a = b := by simp [pure, Except.pure]

/-- What a list is mapped to, item by item. -/
theorem mapM_eq_ok {ε α β : Type} {g : α → Except ε β} : ∀ {xs : List α} {ys : List β},
    xs.mapM g = .ok ys ↔ List.Forall₂ (fun x y => g x = .ok y) xs ys
  | [], ys => by rw [List.mapM_nil, pure_eq_ok, List.forall₂_nil_left_iff, eq_comm]
  | x :: xs, ys => by
    simp only [List.mapM_cons, bind_eq_ok, pure_eq_ok, mapM_eq_ok]
    constructor
    · rintro ⟨y, hy, ys, hys, rfl⟩; exact .cons hy hys
    · rintro (_ | ⟨hy, hys⟩); exact ⟨_, hy, _, hys, rfl⟩

theorem forall₂_mem_right {α β : Type} {R : α → β → Prop} {xs : List α} {ys : List β} {y : β}
    (h : List.Forall₂ R xs ys) (hy : y ∈ ys) : ∃ x ∈ xs, R x y := by
  induction h with
  | nil => cases hy
  | cons hr _ ih =>
    rcases List.mem_cons.1 hy with rfl | hy
    · exact ⟨_, List.mem_cons_self, hr⟩
    · obtain ⟨x, hx, hxy⟩ := ih hy
      exact ⟨x, List.mem_cons_of_mem _ hx, hxy⟩

instance decidableEqOk {ε α : Type} [DecidableEq α] (a : α) :
    (x : Except ε α) → Decidable (x = .ok a)
  | .ok b => decidable_of_iff (b = a) ⟨congrArg Except.ok, Except.ok.inj⟩
  | .error _ => .isFalse nofun

/-- A result with a property, found by evaluation. -/
theorem exists_ok {ε α : Type} {x : Except ε α} {P : α → Prop} [DecidablePred P]
    (h : x.toOption.any (fun a => decide (P a)) = true) : ∃ a, x = .ok a ∧ P a := by
  cases x with
  | error e => cases h
  | ok a => exact ⟨a, rfl, of_decide_eq_true h⟩

/-- The class of error with which a computation fails. -/
def failure {α : Type} : Except Error α → Option Error.Kind
  | .ok _ => none
  | .error e => some e.kind

/-! ## Representatives -/

namespace PrimeField

variable (f : PrimeField)

theorem p_pos : 0 < f.p := lt_of_lt_of_le (by decide) f.two_le

theorem one_lt_p : 1 < f.p := f.two_le

theorem reduce_lt (x : Int) : f.reduce x < f.p := by
  have h₀ : (0 : Int) < f.p := by exact_mod_cast f.p_pos
  have h₁ := Int.emod_nonneg x h₀.ne'
  have h₂ := Int.emod_lt_of_pos x h₀
  unfold reduce; omega

@[simp] theorem cast_reduce (x : Int) : ((f.reduce x : ℕ) : ZMod f.p) = (x : ZMod f.p) := by
  have h₀ : (0 : Int) < f.p := by exact_mod_cast f.p_pos
  have h : ((f.reduce x : ℕ) : Int) = x % f.p := Int.toNat_of_nonneg (Int.emod_nonneg x h₀.ne')
  rw [← Int.cast_natCast (f.reduce x), h, ZMod.intCast_mod]

end PrimeField

/-! ## The denotation -/

section
variable {R : Type*} [CommRing R] (v : Signal → R)

/-- The sum of the terms. -/
def Terms.value : Terms → R
  | [] => 0
  | (s, c) :: ts => c * v s + Terms.value ts

mutual

/-- The value of an expression under a valuation of the signals. -/
def Expr.value : Expr → R
  | ⟨_, const, linear, products, _⟩ => const + linear.value v + Expr.productsValue products

/-- The sum of the products. -/
def Expr.productsValue : List (Expr × Expr) → R
  | [] => 0
  | (a, b) :: ps => a.value * b.value + Expr.productsValue ps

end

theorem Expr.value_eq (e : Expr) :
    e.value v = e.const + e.linear.value v + Expr.productsValue v e.products := by
  obtain ⟨_, _, _, _, _⟩ := e; rw [Expr.value]

theorem Terms.value_append (l r : Terms) : Terms.value v (l ++ r) = l.value v + r.value v := by
  induction l with
  | nil => simp [Terms.value]
  | cons t l ih => simp only [List.cons_append, Terms.value, ih]; ring

theorem Terms.value_congr {v' : Signal → R} {ts : Terms} (h : ∀ t ∈ ts, v t.1 = v' t.1) :
    ts.value v = ts.value v' := by
  induction ts with
  | nil => rfl
  | cons t ts ih =>
    rw [Terms.value, Terms.value, h t List.mem_cons_self,
      ih fun u hu => h u (List.mem_cons_of_mem t hu)]

end

/-! ## Signals and fields of an expression -/

namespace Expr

mutual

/-- Every form in the expression is over `f`, and every signal in it is in `S`. -/
def Over (f : PrimeField) (S : Set Signal) : Expr → Prop
  | ⟨field, _, linear, products, _⟩ =>
    field = f ∧ (∀ t ∈ linear, t.1 ∈ S) ∧ ProductsOver f S products

/-- All factors are over `f` and `S`. -/
def ProductsOver (f : PrimeField) (S : Set Signal) : List (Expr × Expr) → Prop
  | [] => True
  | (a, b) :: ps => a.Over f S ∧ b.Over f S ∧ ProductsOver f S ps

end

variable {f : PrimeField} {S : Set Signal}

theorem over_iff {e : Expr} :
    e.Over f S ↔ e.field = f ∧ (∀ t ∈ e.linear, t.1 ∈ S) ∧ ProductsOver f S e.products := by
  obtain ⟨_, _, _, _, _⟩ := e; rw [Over]

theorem productsOver_iff {ps : List (Expr × Expr)} :
    ProductsOver f S ps ↔ ∀ p ∈ ps, p.1.Over f S ∧ p.2.Over f S := by
  induction ps with
  | nil => simp [ProductsOver]
  | cons p ps ih => obtain ⟨a, b⟩ := p; simp [ProductsOver, ih, and_assoc]

theorem Over.field {e : Expr} (h : e.Over f S) : e.field = f := (over_iff.1 h).1

theorem Over.linear {e : Expr} (h : e.Over f S) : ∀ t ∈ e.linear, t.1 ∈ S := (over_iff.1 h).2.1

theorem Over.products {e : Expr} (h : e.Over f S) :
    ∀ p ∈ e.products, p.1.Over f S ∧ p.2.Over f S := productsOver_iff.1 (over_iff.1 h).2.2

mutual

/-- A larger set will do. -/
theorem Over.mono {S' : Set Signal} (hS : S ⊆ S') : ∀ {e : Expr}, e.Over f S → e.Over f S'
  | ⟨_, _, _, _, _⟩, ⟨hf, hl, hp⟩ => ⟨hf, fun t ht => hS (hl t ht), hp.mono hS⟩

theorem ProductsOver.mono {S' : Set Signal} (hS : S ⊆ S') :
    ∀ {ps : List (Expr × Expr)}, ProductsOver f S ps → ProductsOver f S' ps
  | [], _ => trivial
  | (_, _) :: _, ⟨ha, hb, hps⟩ => ⟨ha.mono hS, hb.mono hS, hps.mono hS⟩

end

mutual

theorem Over.allSignals : ∀ {e : Expr}, e.Over f S → ∀ s ∈ e.allSignals, s ∈ S
  | ⟨_, _, _, _, _⟩, ⟨_, hl, hp⟩, s, hs => by
    rw [Expr.allSignals, List.mem_append, List.mem_map] at hs
    rcases hs with ⟨t, ht, rfl⟩ | hs
    · exact hl t ht
    · exact hp.productSignals s hs

theorem ProductsOver.productSignals :
    ∀ {ps : List (Expr × Expr)}, ProductsOver f S ps → ∀ s ∈ productSignals ps, s ∈ S
  | [], _, _, hs => absurd hs List.not_mem_nil
  | (_, _) :: _, ⟨ha, hb, hps⟩, s, hs => by
    rw [Expr.productSignals, List.mem_append, List.mem_append] at hs
    rcases hs with (hs | hs) | hs
    · exact ha.allSignals s hs
    · exact hb.allSignals s hs
    · exact hps.productSignals s hs

end

theorem Over.hasStray {e : Expr} (h : e.Over f S) (hS : ∀ s ∈ S, s.source = .own) :
    e.hasStray = false := by
  refine List.any_eq_false.2 fun s hs => ?_
  rw [hS s (h.allSignals s hs)]
  decide

/-- Expressions without strays are written out. -/
theorem mapM_written {es : List Expr} (h : ∀ e ∈ es, e.hasStray = false) :
    es.mapM written = .ok (es.map text) := by
  induction es with
  | nil => rfl
  | cons e es ih =>
    rw [List.forall_mem_cons] at h
    rw [List.mapM_cons, written, h.1, ih h.2]
    rfl

mutual

/-- The condition can be decided. -/
def decidableOver [DecidablePred (· ∈ S)] : (e : Expr) → Decidable (e.Over f S)
  | ⟨field, _, linear, products, _⟩ =>
    have := decidableProductsOver products
    inferInstanceAs (Decidable (field = f ∧ (∀ t ∈ linear, t.1 ∈ S) ∧ ProductsOver f S products))

/-- The condition on factors can be decided. -/
def decidableProductsOver [DecidablePred (· ∈ S)] :
    (ps : List (Expr × Expr)) → Decidable (ProductsOver f S ps)
  | [] => .isTrue trivial
  | (a, b) :: ps =>
    have := decidableOver a
    have := decidableOver b
    have := decidableProductsOver ps
    inferInstanceAs (Decidable (a.Over f S ∧ b.Over f S ∧ ProductsOver f S ps))

end

instance [DecidablePred (· ∈ S)] (e : Expr) : Decidable (e.Over f S) := decidableOver e

/-! ## Evaluation -/

section
variable {read : Signal → Except Error Int} {x : Signal → Int}

theorem evaluateTerms_value (hr : ∀ s ∈ S, read s = .ok (x s)) :
    ∀ {ts : Terms}, (∀ t ∈ ts, t.1 ∈ S) →
      ∃ n, evaluateTerms read ts = .ok n ∧ (n : ZMod f.p) = ts.value fun s => (x s : ZMod f.p)
  | [], _ => ⟨0, rfl, by simp [Terms.value]⟩
  | (s, c) :: ts, h => by
    obtain ⟨n, hn, hv⟩ := evaluateTerms_value hr fun t ht => h t (List.mem_cons_of_mem _ ht)
    refine ⟨c * x s + n, ?_, by rw [Terms.value, ← hv]; push_cast; ring⟩
    rw [evaluateTerms, hr s (h _ List.mem_cons_self), hn]; rfl

mutual

/-- **Evaluation gives the canonical representative of the value.** -/
theorem evaluate_value (hr : ∀ s ∈ S, read s = .ok (x s)) : ∀ (e : Expr), e.Over f S →
    ∃ n, e.evaluate read = .ok n ∧ n < f.p ∧ (n : ZMod f.p) = e.value fun s => (x s : ZMod f.p)
  | ⟨field, const, linear, products, _⟩, h => by
    rw [Over] at h
    obtain ⟨l, hl, hlv⟩ := evaluateTerms_value (f := f) hr h.2.1
    obtain ⟨q, hq, hqv⟩ := evaluateProducts_value hr products h.2.2
    refine ⟨f.reduce (const + l + q), ?_, f.reduce_lt _, ?_⟩
    · rw [evaluate, hl, hq, h.1]; rfl
    · rw [f.cast_reduce, value, ← hlv, ← hqv]; push_cast; rfl

theorem evaluateProducts_value (hr : ∀ s ∈ S, read s = .ok (x s)) :
    ∀ (ps : List (Expr × Expr)), ProductsOver f S ps → ∃ n, evaluateProducts read ps = .ok n ∧
      (n : ZMod f.p) = productsValue (fun s => (x s : ZMod f.p)) ps
  | [], _ => ⟨0, rfl, by simp [productsValue]⟩
  | (a, b) :: ps, h => by
    rw [ProductsOver] at h
    obtain ⟨m, hm, -, hmv⟩ := evaluate_value hr a h.1
    obtain ⟨n, hn, -, hnv⟩ := evaluate_value hr b h.2.1
    obtain ⟨q, hq, hqv⟩ := evaluateProducts_value hr ps h.2.2
    refine ⟨m * n + q, ?_, ?_⟩
    · rw [evaluateProducts, hm, hn, hq]; rfl
    · rw [productsValue, ← hmv, ← hnv, ← hqv]; push_cast; ring

end

end

section
variable {read read' : Signal → Except Error Int}

theorem evaluateTerms_mono (h : ∀ s x, read s = .ok x → read' s = .ok x) :
    ∀ {ts : Terms} {n : Int}, evaluateTerms read ts = .ok n → evaluateTerms read' ts = .ok n
  | [], _, hn => hn
  | (s, c) :: ts, n, hn => by
    simp only [evaluateTerms, bind_eq_ok, pure_eq_ok] at hn ⊢
    obtain ⟨x, hx, m, hm, rfl⟩ := hn
    exact ⟨x, h s x hx, m, evaluateTerms_mono h hm, rfl⟩

/-- What evaluation gives is canonical. -/
theorem evaluate_lt {read : Signal → Except Error Int} {e : Expr} {n : ℕ}
    (h : e.evaluate read = .ok n) : n < e.field.p := by
  obtain ⟨field, const, linear, products, degree⟩ := e
  simp only [evaluate, bind_eq_ok, pure_eq_ok] at h
  obtain ⟨l, -, q, -, rfl⟩ := h
  exact field.reduce_lt _

mutual

/-- What evaluation gives stays when more signals can be read. -/
theorem evaluate_mono (h : ∀ s x, read s = .ok x → read' s = .ok x) :
    ∀ (e : Expr) {n : Nat}, e.evaluate read = .ok n → e.evaluate read' = .ok n
  | ⟨_, _, linear, products, _⟩, n, hn => by
    simp only [evaluate, bind_eq_ok, pure_eq_ok] at hn ⊢
    obtain ⟨l, hl, q, hq, rfl⟩ := hn
    exact ⟨l, evaluateTerms_mono h hl, q, evaluateProducts_mono h products hq, rfl⟩

theorem evaluateProducts_mono (h : ∀ s x, read s = .ok x → read' s = .ok x) :
    ∀ (ps : List (Expr × Expr)) {n : Int},
      evaluateProducts read ps = .ok n → evaluateProducts read' ps = .ok n
  | [], _, hn => hn
  | (a, b) :: ps, n, hn => by
    simp only [evaluateProducts, bind_eq_ok, pure_eq_ok] at hn ⊢
    obtain ⟨k, hk, m, hm, q, hq, rfl⟩ := hn
    exact ⟨k, evaluate_mono h a hk, m, evaluate_mono h b hm, q, evaluateProducts_mono h ps hq, rfl⟩

end

variable {f : PrimeField} {S : Set Signal}

theorem evaluateTerms_congr (h : ∀ s ∈ S, read s = read' s) : ∀ {ts : Terms},
    (∀ t ∈ ts, t.1 ∈ S) → evaluateTerms read ts = evaluateTerms read' ts
  | [], _ => rfl
  | (s, c) :: ts, hts => by
    rw [List.forall_mem_cons] at hts
    rw [evaluateTerms, evaluateTerms, h s hts.1, evaluateTerms_congr h hts.2]

mutual

/-- Evaluation depends on the signals of the expression only. -/
theorem evaluate_congr (h : ∀ s ∈ S, read s = read' s) :
    ∀ (e : Expr), e.Over f S → e.evaluate read = e.evaluate read'
  | ⟨_, _, linear, products, _⟩, he => by
    rw [Over] at he
    rw [evaluate, evaluate, evaluateTerms_congr h he.2.1, evaluateProducts_congr h products he.2.2]

theorem evaluateProducts_congr (h : ∀ s ∈ S, read s = read' s) :
    ∀ (ps : List (Expr × Expr)), ProductsOver f S ps →
      evaluateProducts read ps = evaluateProducts read' ps
  | [], _ => rfl
  | (a, b) :: ps, hps => by
    rw [ProductsOver] at hps
    rw [evaluateProducts, evaluateProducts, evaluate_congr h a hps.1, evaluate_congr h b hps.2.1,
      evaluateProducts_congr h ps hps.2.2]

end

end

end Expr

end RankOne
