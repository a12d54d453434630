/-
  RankOne — the signals that a difference lists.

  Nothing cancels where a signal is taken from a form that does not list it.

  * `uids_reduce`, `add_of_not_mem`: coefficients that do not vanish are kept, and a new
    signal comes last;
  * `Normal.uids_neg`: a negated form lists the same signals;
  * `Normal.uids_sub_ofSignal`, `Normal.uids_sub_ofInt`: what a difference lists;
  * `products_mul`, `products_add_ofSignal`, `products_sub_ofSignal`: the product of two
    forms is one product, and linear terms leave it alone.
-/
import RankOne.Proofs.Draft
import RankOne.Proofs.Expr.Canonical

namespace RankOne

namespace Terms

theorem uids_reduce {p : ℕ} {ts : Terms} (h : ∀ t ∈ ts, t.2 % p ≠ 0) :
    (Terms.reduce p ts).uids = ts.uids := by
  induction ts with
  | nil => rfl
  | cons t ts ih =>
    rw [List.forall_mem_cons] at h
    have hcons : Terms.reduce p (t :: ts) = (t.1, t.2 % p) :: Terms.reduce p ts := by
      rw [Terms.reduce, List.filterMap_cons_some (b := (t.1, t.2 % p)) (by simp [h.1])]
      rfl
    have htail := ih h.2
    simp only [uids] at htail ⊢
    rw [hcons, List.map_cons, List.map_cons, htail]

theorem add_of_not_mem {s : Signal} {c : ℕ} {ts : Terms} (h : s.uid ∉ ts.uids) :
    Terms.add s c ts = ts ++ [(s, c)] := by
  induction ts with
  | nil => rfl
  | cons t ts ih =>
    obtain ⟨t, d⟩ := t
    simp only [uids, List.map_cons, List.mem_cons, not_or] at h
    have hne : ¬ t.same s = true := fun hsame => h.1 (Signal.same_iff.1 hsame).symm
    rw [Terms.add, if_neg hne, ih h.2, List.cons_append]

end Terms

namespace Expr

variable {f : PrimeField} {e : Expr} {s : Signal}

theorem Normal.coeff_ne_zero (h : e.Normal f) : ∀ t ∈ e.linear, t.2 % f.p ≠ 0 := by
  intro t ht
  obtain ⟨hpos, hlt⟩ := h.linear t ht
  rw [Nat.mod_eq_of_lt hlt]
  exact hpos.ne'

/-- A negated form lists the same signals. -/
theorem Normal.uids_neg (h : e.Normal f) : e.neg.linear.uids = e.linear.uids := by
  obtain ⟨field, const, linear, products, degree⟩ := e
  obtain rfl : field = f := h.field
  have h₂ := field.two_le
  have hk : (field.p - 1) % field.p = field.p - 1 := Nat.mod_eq_of_lt (by omega)
  rw [neg, scale, reduce_neg_one, Expr.scaleBy, hk]
  split_ifs with hzero hone
  · omega
  · rfl
  · change (Terms.reduce field.p (linear.map fun t => (t.1, t.2 * (field.p - 1)))).uids = _
    rw [Terms.uids_reduce, linear_scale_uids]
    intro t ht hdvd
    obtain ⟨u, hu, rfl⟩ := List.mem_map.1 ht
    -- `p - 1` is prime to `p`
    have hcoprime : Nat.Coprime field.p (field.p - 1) :=
      (Nat.coprime_self_sub_right (by omega)).2 (Nat.coprime_one_right _)
    have hdiv : field.p ∣ u.2 := hcoprime.dvd_of_dvd_mul_right (Nat.dvd_of_mod_eq_zero hdvd)
    exact h.coeff_ne_zero u hu (Nat.mod_eq_zero_of_dvd hdiv)

/-- Two forms with signals are multiplied as they stand. -/
theorem products_mul {a b : Expr} (ha : a.Canonical f) (hb : b.Canonical f) (hla : a.linear ≠ [])
    (hlb : b.linear ≠ []) (h : a.mul b = .ok e) : e.products = [(a, b)] := by
  have hda : a.degree ≠ 0 := fun hd => hla (ha.constant hd)
  have hdb : b.degree ≠ 0 := fun hd => hlb (hb.constant hd)
  rw [mul, if_neg hda, if_neg hdb] at h
  split_ifs at h
  cases h
  rfl

theorem products_add_ofSignal (e : Expr) (s : Signal) :
    (e.add (ofSignal s)).products = e.products := by
  rw [add, addAt_of_linear _ rfl]
  rfl

theorem products_sub_ofSignal (e : Expr) (s : Signal) :
    (e.sub (ofSignal s)).products = e.products := by
  rw [sub, add, addAt_of_linear _ (neg_ofSignal_products s)]
  rfl

/-- **Nothing cancels where a new signal is taken from a form.** -/
theorem Normal.uids_sub_ofSignal (h : e.Normal f) (hs : s.field = f)
    (hnew : s.uid ∉ e.linear.uids) :
    (e.sub (ofSignal s)).linear.uids = e.linear.uids ++ [s.uid] := by
  have hsignal : (ofSignal s).Normal f := (Canonical.ofSignal hs).toNormal
  have hneg : (ofSignal s).neg.Normal f := ((Canonical.ofSignal hs).scale (-1)).toNormal
  -- the negated signal is one term
  obtain ⟨t, ht⟩ : ∃ t, (ofSignal s).neg.linear = [t] := by
    refine List.length_eq_one_iff.1 ?_
    have hlength := congrArg List.length hsignal.uids_neg
    simpa [Terms.uids, ofSignal] using hlength
  have huid : t.1.uid = s.uid := by
    have huids := hsignal.uids_neg
    rw [ht] at huids
    simpa [Terms.uids, ofSignal] using huids
  have hmerge : e.linear.merge (ofSignal s).neg.linear = e.linear ++ [t] := by
    rw [ht]
    exact Terms.add_of_not_mem (by rwa [huid])
  rw [sub, add, addAt_of_linear _ (neg_ofSignal_products s), hmerge, h.field]
  change (Terms.reduce f.p (e.linear ++ [t])).uids = _
  rw [Terms.uids_reduce]
  · simp [Terms.uids, huid]
  · intro u hu
    rcases List.mem_append.1 hu with hu | hu
    · exact h.coeff_ne_zero u hu
    · exact hneg.coeff_ne_zero u (ht ▸ hu)

theorem neg_ofInt (f : PrimeField) (n : Int) :
    (ofInt f n).neg.linear = [] ∧ (ofInt f n).neg.products = [] := by
  have hneg : (ofInt f n).neg.Canonical f := (Canonical.ofInt f n).scale (-1)
  have hdegree : (ofInt f n).neg.degree = 0 := degree_neg _
  exact ⟨hneg.constant hdegree, hneg.products (by omega)⟩

/-- A constant taken from a form leaves its signals. -/
theorem Normal.uids_sub_ofInt (h : e.Normal f) (n : Int) :
    (e.sub (ofInt f n)).linear.uids = e.linear.uids := by
  obtain ⟨hlinear, hproducts⟩ := neg_ofInt f n
  rw [sub, add, addAt_of_linear _ hproducts, hlinear, h.field]
  exact Terms.uids_reduce h.coeff_ne_zero

end Expr

end RankOne
