/-
  RankOne — rows over witness positions mean what they say.

  A row is checked on sparse combinations of witness entries, which were made
  from linear forms over signals: coefficients of signals that share a position
  are merged, zeros dropped, and the constant stands at position zero.

  * `Placed`: a vector gives a value to the signals of a set, through positions;
  * `ofExpr_value`: a combination has the value of its form;
  * `isSatisfied_iff`: a row holds iff `A * B = C` in the field;
  * `unsatisfiedRows_eq`: the rows that are reported are those that fail, in
    increasing order.
-/
import RankOne.Proofs.Expr.Value
import RankOne.System

namespace RankOne

variable {f : PrimeField} {S : Set Signal}

theorem elementAt_natCast {α : Type} {xs : Array α} {i : ℕ} {x : α} :
    elementAt xs (i : Int) = .ok x ↔ xs[i]? = some x := by
  have hp : (position? xs.size (i : Int)).bind (xs[·]?) = xs[i]? := by
    rw [position?, if_pos (by omega), Int.toNat_natCast]
    split_ifs with hi
    · rfl
    · rw [Option.bind_none, Array.getElem?_eq_none (by omega)]
  rw [elementAt, hp]
  cases xs[i]? <;> simp

namespace Combination

/-! ## Coefficients by position -/

/-- The sum of coefficients times the entries at their positions. -/
def sum (u : Int → ZMod f.p) : List (Int × ℕ) → ZMod f.p
  | [] => 0
  | (i, c) :: ts => c * u i + sum u ts

variable {u : Int → ZMod f.p}

theorem sum_accumulate (i : Int) (c : ℕ) (ts : List (Int × ℕ)) :
    sum u (accumulate f.p i c ts) = sum u ts + c * u i := by
  induction ts with
  | nil => simp [accumulate, sum]
  | cons t ts ih =>
    obtain ⟨j, d⟩ := t
    rw [accumulate]
    split_ifs with h
    · subst h; rw [sum, sum, ZMod.natCast_mod]; push_cast; ring
    · rw [sum, sum, ih]; ring

theorem sum_insertSorted (t : Int × ℕ) (ts : List (Int × ℕ)) :
    sum u (insertSorted t ts) = t.2 * u t.1 + sum u ts := by
  induction ts with
  | nil => rfl
  | cons s ts ih =>
    rw [insertSorted]
    split_ifs
    · rfl
    · rw [sum, sum, ih]; ring

theorem sum_sortTerms (ts : List (Int × ℕ)) : sum u (sortTerms ts) = sum u ts := by
  unfold sortTerms
  induction ts with
  | nil => rfl
  | cons t ts ih =>
    by_cases h : t.2 = 0
    · rw [List.filter_cons_of_neg (by simp [h]), ih, sum, h]; simp
    · rw [List.filter_cons_of_pos (by simp [h]), List.foldr_cons, sum_insertSorted, ih, sum]

theorem mem_accumulate {p : ℕ} {i : Int} {c : ℕ} {P : Int → Prop} {ts : List (Int × ℕ)} (hi : P i)
    (h : ∀ t ∈ ts, P t.1) : ∀ t ∈ accumulate p i c ts, P t.1 := by
  induction ts with
  | nil => simpa [accumulate] using hi
  | cons s ts ih =>
    obtain ⟨j, d⟩ := s
    have hj : P j := h (j, d) List.mem_cons_self
    have hts : ∀ t ∈ ts, P t.1 := fun t ht => h t (List.mem_cons_of_mem _ ht)
    rw [accumulate]
    split_ifs
    · exact fun t ht => (List.mem_cons.1 ht).elim (fun h => h ▸ hj) (hts t)
    · exact fun t ht => (List.mem_cons.1 ht).elim (fun h => h ▸ hj) (ih hts t)

theorem mem_insertSorted {t s : Int × ℕ} : ∀ {ts : List (Int × ℕ)},
    t ∈ insertSorted s ts → t = s ∨ t ∈ ts
  | [], h => by simpa [insertSorted] using h
  | u :: ts, h => by
    rw [insertSorted] at h
    split_ifs at h
    · exact List.mem_cons.1 h
    · rcases List.mem_cons.1 h with rfl | h
      · exact Or.inr List.mem_cons_self
      · exact (mem_insertSorted h).imp id (List.mem_cons_of_mem _)

theorem mem_foldr_insertSorted {t : Int × ℕ} : ∀ {ts : List (Int × ℕ)},
    t ∈ ts.foldr insertSorted [] → t ∈ ts
  | [], h => h
  | _ :: _, h => by
    rcases mem_insertSorted h with rfl | h
    · exact List.mem_cons_self
    · exact List.mem_cons_of_mem _ (mem_foldr_insertSorted h)

theorem mem_sortTerms {t : Int × ℕ} {ts : List (Int × ℕ)} (h : t ∈ sortTerms ts) : t ∈ ts :=
  List.mem_of_mem_filter (mem_foldr_insertSorted h)

/-! ## Values on a witness -/

/-- Signals in `S` are placed by `index`, and `w` has at the place of each the
    value that `x` gives it; position zero holds the constant one. -/
structure Placed (index : Signal → Except Error Int) (w : Array Int) (S : Set Signal)
    (x : Signal → Int) : Prop where
  one : w[0]? = some 1
  place : ∀ s ∈ S, ∃ i, index s = .ok i ∧ elementAt w i = .ok (x s)

section
variable {index : Signal → Except Error Int} {w : Array Int} {x : Signal → Int}

theorem dot_eq (hu : ∀ i y, elementAt w i = .ok y → u i = y) : ∀ {ts : List (Int × ℕ)},
    (∀ t ∈ ts, ∃ y, elementAt w t.1 = .ok y) →
      ∃ n, dot w (ts.map fun t => (t.1, (t.2 : Int))) = .ok n ∧ (n : ZMod f.p) = sum u ts
  | [], _ => ⟨0, rfl, by simp [sum]⟩
  | (i, c) :: ts, h => by
    obtain ⟨n, hn, hv⟩ := dot_eq hu fun t ht => h t (List.mem_cons_of_mem _ ht)
    obtain ⟨y, hy⟩ := h _ List.mem_cons_self
    refine ⟨c * y + n, ?_, by rw [sum, ← hv, hu i y hy]; push_cast; ring⟩
    rw [List.map_cons, dot, hy, hn]; rfl

/-- Merging the coefficients of a form, position by position. -/
theorem foldlM_accumulate (hu : ∀ i y, elementAt w i = .ok y → u i = y)
    (hw : Placed index w S x) : ∀ {linear : Terms} (acc : List (Int × ℕ)),
      (∀ t ∈ linear, t.1 ∈ S) → (∀ t ∈ acc, ∃ y, elementAt w t.1 = .ok y) →
      ∃ ts, linear.foldlM (fun acc t => do
          return accumulate f.p (← index t.1) t.2 acc) acc = .ok ts ∧
        (∀ t ∈ ts, ∃ y, elementAt w t.1 = .ok y) ∧
        sum u ts = sum u acc + linear.value fun s => (x s : ZMod f.p)
  | [], acc, _, hacc => ⟨acc, rfl, hacc, by simp [Terms.value]⟩
  | (s, c) :: linear, acc, hl, hacc => by
    obtain ⟨i, hi, hx⟩ := hw.place s (hl _ List.mem_cons_self)
    obtain ⟨ts, hts, hread, hsum⟩ := foldlM_accumulate hu hw
      (accumulate f.p i c acc) (fun t ht => hl t (List.mem_cons_of_mem _ ht))
      (mem_accumulate (P := fun i => ∃ y, elementAt w i = .ok y) ⟨_, hx⟩ hacc)
    refine ⟨ts, ?_, hread, ?_⟩
    · rw [List.foldlM_cons, hi]; exact hts
    · rw [hsum, sum_accumulate, Terms.value, hu i _ hx]; ring

/-- What a combination is made of. -/
theorem ofExpr_eq_ok {e : Expr} {l : Combination} (h : ofExpr index e = .ok l) :
    e.products = [] ∧ ∃ ts, e.linear.foldlM (fun acc t => do
        return accumulate e.field.p (← index t.1) t.2 acc)
        (if e.const = 0 then [] else [((0 : Int), e.const)]) = .ok ts ∧
      l = ⟨(sortTerms ts).map fun t => (t.1, (t.2 : Int))⟩ := by
  by_cases hp : e.products = []
  · rw [ofExpr, if_neg (by simp [hp])] at h
    obtain ⟨ts, hts, hl⟩ := bind_eq_ok.1 h
    exact ⟨hp, ts, hts, (pure_eq_ok.1 hl).symm⟩
  · rw [ofExpr, if_pos (by simp [hp])] at h
    cases h

/-- **A combination has the value of the form it was made from.** -/
theorem ofExpr_value {e : Expr} {l : Combination} (he : e.Over f S) (hw : Placed index w S x)
    (h : ofExpr index e = .ok l) :
    ∃ n, l.evaluate w f.p = .ok n ∧ (n : ZMod f.p) = e.value fun s => (x s : ZMod f.p) := by
  obtain ⟨hp, ts', hts', rfl⟩ := ofExpr_eq_ok h
  let u : Int → ZMod f.p := fun i => match elementAt w i with
    | .ok y => y
    | .error _ => 0
  have hu : ∀ i y, elementAt w i = .ok y → u i = y := fun i y h => by simp only [u, h]
  have hone : elementAt w 0 = .ok 1 := elementAt_natCast (i := 0) |>.2 hw.one
  -- the accumulator starts with the constant at position zero
  have hstart : sum u (if e.const = 0 then [] else [((0 : Int), e.const)]) = e.const := by
    by_cases h₀ : e.const = 0 <;> simp [h₀, sum, hu 0 1 hone]
  obtain ⟨ts, hts, hread, hsum⟩ := foldlM_accumulate hu hw
    (if e.const = 0 then [] else [((0 : Int), e.const)]) he.linear (by
      by_cases h₀ : e.const = 0 <;> simp [h₀, hone])
  rw [he.field, hts] at hts'
  cases hts'
  obtain ⟨n, hn, hv⟩ := dot_eq hu fun t ht => hread t (mem_sortTerms ht)
  have hp₀ : (f.p : Int) ≠ 0 := by exact_mod_cast f.p_pos.ne'
  refine ⟨n.fmod f.p, ?_, ?_⟩
  · rw [evaluate, hn]; exact if_neg hp₀
  · rw [Int.fmod_eq_emod_of_nonneg _ (Int.natCast_nonneg _), ZMod.intCast_mod, hv, sum_sortTerms,
      hsum, hstart, Expr.value_eq, hp, Expr.productsValue, add_zero]

end

end Combination

/-! ## Rows -/

namespace Constraint

/-- **A row holds on a witness iff `A * B = C` in the field.** -/
theorem isSatisfied_iff {r : Constraint} {w : Array Int} {a b c : ZMod f.p}
    (ha : ∃ n, r.a.evaluate w f.p = .ok n ∧ (n : ZMod f.p) = a)
    (hb : ∃ n, r.b.evaluate w f.p = .ok n ∧ (n : ZMod f.p) = b)
    (hc : ∃ n, r.c.evaluate w f.p = .ok n ∧ (n : ZMod f.p) = c) :
    ∃ ok, r.isSatisfied w f.p = .ok ok ∧ (ok = true ↔ a * b = c) := by
  obtain ⟨x, hx, rfl⟩ := ha
  obtain ⟨y, hy, rfl⟩ := hb
  obtain ⟨z, hz, rfl⟩ := hc
  refine ⟨(x * y - z).fmod f.p == 0, by rw [isSatisfied, hx, hy, hz]; rfl, ?_⟩
  rw [beq_iff_eq, Int.fmod_eq_emod_of_nonneg _ (Int.natCast_nonneg _), ← Int.dvd_iff_emod_eq_zero,
    ← ZMod.intCast_zmod_eq_zero_iff_dvd, ← sub_eq_zero (a := (x : ZMod f.p) * y)]
  push_cast; rfl

end Constraint

/-! ## Systems -/

namespace System

theorem failingFrom_eq {p : Int} {w : Array Int} : ∀ {rs : List Constraint} (i : ℕ),
    (∀ r ∈ rs, ∃ ok, r.isSatisfied w p = .ok ok) →
      ∃ bad, failingFrom p w i rs = .ok bad ∧ bad.Pairwise (· < ·) ∧ (∀ j ∈ bad, i ≤ j) ∧
        ∀ k, i + k ∈ bad ↔ ∃ r, rs[k]? = some r ∧ r.isSatisfied w p = .ok false
  | [], i, _ => ⟨[], rfl, .nil, by simp, by simp⟩
  | r :: rs, i, h => by
    obtain ⟨ok, hok⟩ := h r List.mem_cons_self
    obtain ⟨bad, hbad, hsort, hle, hmem⟩ :=
      failingFrom_eq (i + 1) fun r hr => h r (List.mem_cons_of_mem _ hr)
    have hstep : failingFrom p w i (r :: rs) = .ok (if ok then bad else i :: bad) := by
      rw [failingFrom, hok, hbad]; rfl
    have hi : i ∉ bad := fun hi => by have := hle i hi; omega
    refine ⟨_, hstep, ?_, ?_, ?_⟩
    · split_ifs
      · exact hsort
      · exact List.pairwise_cons.2 ⟨fun j hj => by have := hle j hj; omega, hsort⟩
    · intro j hj
      split_ifs at hj
      · have := hle j hj; omega
      · rcases List.mem_cons.1 hj with rfl | hj
        · exact le_rfl
        · have := hle j hj; omega
    · intro k
      cases k with
      | zero => cases ok <;> simp [hok, hi]
      | succ k =>
        have hk := hmem k
        rw [show i + 1 + k = i + (k + 1) by omega] at hk
        rw [List.getElem?_cons_succ, ← hk]
        cases ok <;> simp

/-- **The reported rows are those that fail, in increasing order.** -/
theorem unsatisfiedRows_eq {s : System} {w : Array Int} (hw : w.size = s.signals)
    (h : ∀ r ∈ s.constraints, ∃ ok, r.isSatisfied w s.prime = .ok ok) :
    ∃ bad, s.unsatisfiedRows w = .ok bad ∧ bad.Pairwise (· < ·) ∧
      ∀ k, k ∈ bad ↔ ∃ r, s.constraints[k]? = some r ∧ r.isSatisfied w s.prime = .ok false := by
  obtain ⟨bad, hbad, hsort, -, hmem⟩ := failingFrom_eq 0 h
  refine ⟨bad, by rw [unsatisfiedRows, if_neg (not_not.2 hw), hbad], hsort, fun k => ?_⟩
  simpa using hmem k

end System

end RankOne
