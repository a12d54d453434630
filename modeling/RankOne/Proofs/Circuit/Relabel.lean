/-
  RankOne — renaming witness positions.

  Circuits made of one expansion hold the same signals, at places that depend on
  which inputs are public.

  * `Combination.relabel`, `Constraint.relabel`: positions renamed, in order again;
  * `ofExpr_relabel`: a form over renamed positions is the renamed form;
  * `permuted`, `unsatisfiedRows_relabel`: renamed rows on a permuted vector fail as
    the rows do on the vector;
  * `Circuit.Alike`, `compile_alike`: what circuits of one expansion have in common;
  * `Alike.perm`, `Alike.constraints`: the permutation between their places, and
    between their rows.
-/
import Mathlib.Algebra.BigOperators.Group.List.Basic
import Mathlib.Logic.Equiv.Defs
import RankOne.Proofs.Circuit.Arranged
import RankOne.Proofs.Circuit.Instances
import RankOne.Proofs.Circuit.Sparse

namespace RankOne

namespace Combination

/-! ## Renamed combinations -/

/-- A term at a renamed position. -/
def rename {α : Type} (g : ℕ → ℕ) (t : Int × α) : Int × α := (g t.1.toNat, t.2)

/-- A combination over renamed positions, in order again. -/
def relabel (g : ℕ → ℕ) (l : Combination) : Combination :=
  ⟨(l.terms.map (rename g)).mergeSort fun t u => t.1 ≤ u.1⟩

/-- The renamed combination is the one in order that has the renamed terms. -/
theorem eq_relabel {g : ℕ → ℕ} {l m : Combination} (hm : m.indices.Pairwise (· < ·))
    (h : m.terms.Perm (l.terms.map (rename g))) : m = l.relabel g := by
  have hm : m.terms.Pairwise (·.1 < ·.1) := List.pairwise_map.1 hm
  have hsorted := @List.pairwise_mergeSort _ (fun t u : Int × Int => decide (t.1 ≤ u.1))
    (fun t u v htu huv => by simp only [decide_eq_true_eq] at *; exact htu.trans huv)
    (fun t u => by simpa using le_total t.1 u.1) (l.terms.map (rename g))
  have hperm : m.terms.Perm (l.relabel g).terms := h.trans (List.mergeSort_perm _ _).symm
  have heq : m.terms = (l.relabel g).terms := by
    refine hperm.eq_of_pairwise (fun t u ht hu htu hut => ?_)
      (hm.imp fun h => decide_eq_true h.le) hsorted
    -- at one position there is one term
    refine List.inj_on_of_nodup_map (List.pairwise_map.2 (hm.imp fun h => h.ne)) ht
      (hperm.mem_iff.2 hu) ?_
    simp only [decide_eq_true_eq] at htu hut
    exact le_antisymm htu hut
  cases m
  cases heq
  rfl

section
variable {g : ℕ → ℕ} (hg : Function.Injective g)
include hg

theorem accumulate_rename {p : ℕ} {i : ℕ} {c : ℕ} {ts : List (Int × ℕ)}
    (hts : ∀ t ∈ ts, 0 ≤ t.1) :
    accumulate p (g i) c (ts.map (rename g)) = (accumulate p i c ts).map (rename g) := by
  induction ts with
  | nil => simp [accumulate, rename]
  | cons t ts ih =>
    obtain ⟨j, d⟩ := t
    rw [List.forall_mem_cons] at hts
    obtain ⟨k, rfl⟩ := Int.eq_ofNat_of_zero_le hts.1
    rw [List.map_cons, rename, accumulate, accumulate]
    by_cases hk : k = i
    · subst hk; simp [rename]
    · have hgk : (g k : Int) ≠ g i := fun h => hk (hg (by exact_mod_cast h))
      have hki : ((k : ℕ) : Int) ≠ i := by exact_mod_cast hk
      simp only [Int.toNat_natCast]
      rw [if_neg hgk, if_neg hki, ih hts.2, List.map_cons]
      rfl

variable {index index' : Signal → Except Error Int}

theorem foldlM_accumulate_rename {p : ℕ} : ∀ {linear : Terms} {acc ts : List (Int × ℕ)},
    (∀ t ∈ linear, ∃ i : ℕ, index t.1 = .ok (i : Int) ∧ index' t.1 = .ok (g i : Int)) →
    (∀ t ∈ acc, 0 ≤ t.1) →
    linear.foldlM (fun acc t => do return accumulate p (← index t.1) t.2 acc) acc = .ok ts →
    linear.foldlM (fun acc t => do return accumulate p (← index' t.1) t.2 acc)
      (acc.map (rename g)) = .ok (ts.map (rename g))
  | [], acc, _, _, _, h => by cases h; rfl
  | t :: linear, acc, ts, hi, hacc, h => by
    obtain ⟨⟨i, hi, hi'⟩, hrest⟩ := List.forall_mem_cons.1 hi
    rw [List.foldlM_cons, hi] at h
    rw [List.foldlM_cons, hi']
    have hstep := accumulate_rename hg (p := p) (i := i) (c := t.2) hacc
    have hacc' : ∀ u ∈ accumulate p i t.2 acc, 0 ≤ u.1 :=
      mem_accumulate (P := fun i => 0 ≤ i) (Int.natCast_nonneg i) hacc
    have hfold := foldlM_accumulate_rename hrest hacc' h
    rw [← hstep] at hfold
    exact hfold

/-- **A form over renamed positions is the renamed form.** -/
theorem ofExpr_relabel (hzero : g 0 = 0) {e : Expr} {l : Combination}
    (hi : ∀ t ∈ e.linear, ∃ i : ℕ, index t.1 = .ok (i : Int) ∧ index' t.1 = .ok (g i : Int))
    (h : ofExpr index e = .ok l) : ofExpr index' e = .ok (l.relabel g) := by
  obtain ⟨hp, ts, hts, rfl⟩ := ofExpr_eq_ok h
  -- the constant stays at position zero
  have hstart : (if e.const = 0 then [] else [((0 : Int), e.const)]).map (rename g) =
      if e.const = 0 then [] else [((0 : Int), e.const)] := by
    split_ifs <;> simp [rename, hzero]
  have hfold := foldlM_accumulate_rename hg hi (by split_ifs <;> simp) hts
  rw [hstart] at hfold
  have hm : ofExpr index' e =
      .ok ⟨(sortTerms (ts.map (rename g))).map fun t => (t.1, (t.2 : Int))⟩ := by
    rw [ofExpr, if_neg (by simp [hp])]
    dsimp only
    rw [hfold]
    rfl
  have hterms : ((ts.map (rename g)).filter (·.2 ≠ 0)).map (fun t => (t.1, (t.2 : Int))) =
      ((ts.filter (·.2 ≠ 0)).map fun t => (t.1, (t.2 : Int))).map (rename g) := by
    rw [List.filter_map, List.map_map, List.map_map]; rfl
  have hperm := (sortTerms_perm (ts.map (rename g))).map fun t => (t.1, (t.2 : Int))
  rw [hterms] at hperm
  rw [hm, eq_relabel (ofExpr_sorted hm)]
  exact hperm.trans (((sortTerms_perm ts).symm.map _).map _)

end

/-! ## Permuted vectors -/

/-- The vector with the entry of position `i` at position `π i`. -/
def permuted (π : Equiv.Perm ℕ) (w : Array Int) : Array Int :=
  Array.ofFn fun i : Fin w.size => w.getD (π.symm i) 0

section
variable {π : Equiv.Perm ℕ} {w : Array Int}

@[simp] theorem size_permuted : (permuted π w).size = w.size := by simp [permuted]

theorem getD_permuted {i : ℕ} (hi : π i < w.size) : (permuted π w).getD (π i) 0 = w.getD i 0 := by
  rw [permuted, Array.getD_eq_getD_getElem?, Array.getElem?_ofFn]
  simp [hi]

/-- The sum of the terms, where all positions are in range. -/
theorem dot_eq_sum : ∀ {ts : List (Int × Int)}, (∀ t ∈ ts, 0 ≤ t.1 ∧ t.1 < w.size) →
    dot w ts = .ok (ts.map fun t => t.2 * w.getD t.1.toNat 0).sum
  | [], _ => rfl
  | (i, c) :: ts, h => by
    obtain ⟨⟨h₀, hlt⟩, hts⟩ := List.forall_mem_cons.1 h
    obtain ⟨k, rfl⟩ := Int.eq_ofNat_of_zero_le h₀
    have hk : k < w.size := Int.ofNat_lt.1 hlt
    have hread : elementAt w (k : Int) = .ok (w.getD k 0) := by
      rw [elementAt_natCast, Array.getD_eq_getD_getElem?, Array.getElem?_eq_getElem hk]; rfl
    rw [dot, hread, dot_eq_sum hts]
    simp [bind, Except.bind, pure, Except.pure]

/-- **A renamed combination has on the permuted vector the value it had.** -/
theorem evaluate_relabel (hπ : ∀ i < w.size, π i < w.size) {l : Combination}
    (hl : ∀ t ∈ l.terms, 0 ≤ t.1 ∧ t.1 < w.size) (p : Int) :
    (l.relabel π).evaluate (permuted π w) p = l.evaluate w p := by
  have hperm : (l.relabel π).terms.Perm (l.terms.map (rename π)) := List.mergeSort_perm _ _
  have hrange : ∀ t ∈ (l.relabel π).terms, 0 ≤ t.1 ∧ t.1 < (permuted π w).size := by
    intro t ht
    obtain ⟨u, hu, rfl⟩ := List.mem_map.1 (hperm.mem_iff.1 ht)
    have hlt := hπ u.1.toNat (by have := hl u hu; omega)
    rw [size_permuted]
    exact ⟨Int.natCast_nonneg _, Int.ofNat_lt.2 hlt⟩
  have hsum : ((l.relabel π).terms.map fun t => t.2 * (permuted π w).getD t.1.toNat 0).sum =
      (l.terms.map fun t => t.2 * w.getD t.1.toNat 0).sum := by
    rw [(hperm.map _).sum_eq, List.map_map]
    refine congrArg List.sum (List.map_congr_left fun t ht => ?_)
    have hlt := hπ t.1.toNat (by have := hl t ht; omega)
    rw [Function.comp_apply, rename, Int.toNat_natCast, getD_permuted hlt]
  rw [evaluate, evaluate, dot_eq_sum hrange, dot_eq_sum hl, hsum]

end

end Combination

/-! ## Renamed rows -/

/-- A row over renamed positions. -/
def Constraint.relabel (g : ℕ → ℕ) (r : Constraint) : Constraint :=
  { a := r.a.relabel g, b := r.b.relabel g, c := r.c.relabel g, origin := r.origin }

section
variable {π : Equiv.Perm ℕ} {w : Array Int}

theorem Constraint.isSatisfied_relabel (hπ : ∀ i < w.size, π i < w.size) {r : Constraint}
    (hr : ∀ l ∈ r.sides, ∀ t ∈ l.terms, 0 ≤ t.1 ∧ t.1 < w.size) (p : Int) :
    (r.relabel π).isSatisfied (Combination.permuted π w) p = r.isSatisfied w p := by
  simp only [Constraint.sides, List.forall_mem_cons] at hr
  rw [isSatisfied, isSatisfied, relabel, Combination.evaluate_relabel hπ hr.1,
    Combination.evaluate_relabel hπ hr.2.1, Combination.evaluate_relabel hπ hr.2.2.1]

theorem System.failingFrom_relabel (hπ : ∀ i < w.size, π i < w.size) (p : Int) :
    ∀ {rs : List Constraint} (i : ℕ),
      (∀ r ∈ rs, ∀ l ∈ r.sides, ∀ t ∈ l.terms, 0 ≤ t.1 ∧ t.1 < w.size) →
      failingFrom p (Combination.permuted π w) i (rs.map (·.relabel π)) = failingFrom p w i rs
  | [], _, _ => rfl
  | r :: rs, i, h => by
    obtain ⟨hr, hrs⟩ := List.forall_mem_cons.1 h
    rw [List.map_cons, failingFrom, failingFrom, Constraint.isSatisfied_relabel hπ hr,
      failingFrom_relabel hπ p (i + 1) hrs]

/-- **Renamed rows fail on the permuted vector where the rows fail on the vector.** -/
theorem System.unsatisfiedRows_relabel {s s' : System} (hsignals : s'.signals = s.signals)
    (hprime : s'.prime = s.prime) (hrows : s'.constraints = s.constraints.map (·.relabel π))
    (hπ : ∀ i < s.signals, π i < s.signals)
    (hbelow : ∀ r ∈ s.constraints, ∀ l ∈ r.sides, ∀ t ∈ l.terms, 0 ≤ t.1 ∧ t.1 < s.signals)
    (w : Array Int) : s'.unsatisfiedRows (Combination.permuted π w) = s.unsatisfiedRows w := by
  rw [unsatisfiedRows, unsatisfiedRows, Combination.size_permuted, hsignals, hprime, hrows]
  split_ifs with hw
  · rfl
  · rw [not_not] at hw
    rw [← hw] at hπ hbelow
    exact failingFrom_relabel hπ _ 0 hbelow

end

/-! ## Circuits of one expansion -/

theorem eq_map_of_forall₂ {α β γ : Type} {R : α → β → Prop} {S : α → γ → Prop} {g : β → γ}
    {xs : List α} {ys : List β} {zs : List γ} (h : List.Forall₂ R xs ys)
    (h' : List.Forall₂ S xs zs) (hg : ∀ x ∈ xs, ∀ y z, R x y → S x z → z = g y) :
    zs = ys.map g := by
  induction h generalizing zs with
  | nil => cases h'; rfl
  | cons hr _ ih =>
    cases h' with
    | cons hs h' =>
      rw [List.forall_mem_cons] at hg
      rw [List.map_cons, ← hg.1 _ _ hr hs, ← ih h' hg.2]

namespace Circuit

/-- Circuits of one expansion: they differ in the order of the main inputs. -/
structure Alike (sts : List Statement) (c₁ c₂ : Circuit) : Prop where
  first : c₁.Coherent sts
  second : c₂.Coherent sts
  settings : c₂.settings = c₁.settings
  field : c₂.field = c₁.field
  rules : c₂.rules = c₁.rules
  main : c₂.mainInstance = c₁.mainInstance
  signals : c₂.signals.toList.Perm c₁.signals.toList
  outputs : c₂.system.outputs = c₁.system.outputs
  order : ∃ front ins₁ ins₂ rest, front.length = c₁.system.outputs + 1 ∧
    c₁.signals.toList = front ++ ins₁ ++ rest ∧ c₂.signals.toList = front ++ ins₂ ++ rest ∧
    (∀ s ∈ ins₁, isMainInput s = true) ∧ ∀ s ∈ ins₂, isMainInput s = true

/-- The constant and the main outputs stand in front, followed by the main inputs. -/
theorem Arranged.order_inputs {c : Circuit} {ss : List Signal} (h : c.Arranged ss) :
    c.signals.toList = (Workspace.one c.field :: outputsOf ss) ++
        (c.publicSignals ++ c.privatesOf ss) ++ othersOf ss ∧
      ∀ s ∈ c.publicSignals ++ c.privatesOf ss, isMainInput s = true := by
  refine ⟨by rw [h.order]; simp, fun s hs => ?_⟩
  rcases List.mem_append.1 hs with hs | hs
  · obtain ⟨n, hn, hsn⟩ := List.mem_flatMap.1 hs
    obtain ⟨d, hd, -, hin⟩ := h.publics n hn
    have hmem : s ∈ ss.filter (isMain .input) := by
      rw [h.listed]
      exact List.mem_flatMap.2 ⟨d, hd, hin ▸ hsn⟩
    exact (List.mem_filter.1 hmem).2
  · exact (Bool.and_eq_true _ _ ▸ (List.mem_filter.1 hs).2).1

end Circuit

/-- **Compilations of a template under two lists of public inputs are alike.** -/
theorem compile_alike {σ : Type} {settings : Settings} {t : Template σ} {host : σ}
    {public₁ public₂ : List String} {c₁ c₂ : Circuit}
    (h₁ : (compile settings t host public₁).result = .ok c₁)
    (h₂ : (compile settings t host public₂).result = .ok c₂) :
    Circuit.Alike (executed settings t host) c₁ c₂ := by
  obtain ⟨field, w, host', hf, hx, hw₁⟩ := compile_eq_ok h₁
  obtain ⟨field', w', host'', hf', hx', hw₂⟩ := compile_eq_ok h₂
  -- there is one expansion
  obtain rfl : field = field' := Except.ok.inj (hf.symm.trans hf')
  rw [hx] at hx'
  cases hx'
  have hs := (expand_spec hf hx).sound (Workspace.opened_sound t field settings.dangling)
  have ha₁ := (compile_arranged h₁).1
  have ha₂ := (compile_arranged h₂).1
  obtain ⟨-, hr₁, v₁, hb₁, -, hset₁, -, -, -, hsig₁, -, -, -⟩ := Circuit.ofWorkspace_eq_ok hw₁
  obtain ⟨-, hr₂, v₂, hb₂, -, hset₂, -, -, -, hsig₂, -, -, -⟩ := Circuit.ofWorkspace_eq_ok hw₂
  obtain ⟨hfield₁, hat₁, hmain₁, -⟩ := Circuit.of_workspace hs hw₁
  obtain ⟨hfield₂, hat₂, hmain₂, -⟩ := Circuit.of_workspace hs hw₂
  have hm₁ : c₁.mainInstance = w.instanceAt 0 := by rw [← hat₁, ← hmain₁]; rfl
  have hm₂ : c₂.mainInstance = w.instanceAt 0 := by rw [← hat₂, ← hmain₂]; rfl
  obtain ⟨horder₁, hins₁⟩ := ha₁.order_inputs
  obtain ⟨horder₂, hins₂⟩ := ha₂.order_inputs
  rw [hfield₂, ← hfield₁] at horder₂
  exact
    { first := compile_coherent h₁
      second := compile_coherent h₂
      settings := by rw [hset₂, hset₁]
      field := by rw [hfield₂, hfield₁]
      rules := Except.ok.inj (hr₂.symm.trans hr₁)
      main := by rw [hm₂, hm₁]
      signals := by
        rw [hsig₁, hsig₂]
        exact (List.perm_ext_iff_of_nodup (Circuit.bindFrom_spec hb₂).1
          (Circuit.bindFrom_spec hb₁).1).2 fun s => by
            rw [Circuit.mem_layout hs, Circuit.mem_layout hs]
      outputs := by rw [ha₂.outputCount, ha₁.outputCount]
      order := ⟨_, _, _, _, by rw [ha₁.outputCount, List.length_cons], horder₁, horder₂, hins₁,
        hins₂⟩ }

namespace Circuit

/-- The place in a circuit of the signal at a place of another one. -/
def relabelling (c₁ c₂ : Circuit) (i : ℕ) : ℕ :=
  match c₁.signals[i]? with
  | some s => c₂.place s
  | none => i

namespace Alike

variable {sts : List Statement} {c₁ c₂ : Circuit} (h : Alike sts c₁ c₂)
include h

theorem mem_iff {s : Signal} : s ∈ c₂.signals ↔ s ∈ c₁.signals := by
  rw [← Array.mem_toList_iff, h.signals.mem_iff, Array.mem_toList_iff]

theorem size : c₂.system.signals = c₁.system.signals := by
  rw [h.second.size, h.first.size, ← Array.length_toList, h.signals.length_eq, Array.length_toList]

theorem prime : c₂.system.prime = c₁.system.prime := by
  rw [h.second.prime, h.first.prime, h.field]

theorem relabelling_place {s : Signal} (hs : s ∈ c₁.signals) :
    relabelling c₁ c₂ (c₁.place s) = c₂.place s := by
  rw [relabelling, h.first.getElem?_signals hs]

theorem relabelling_of_le {i : ℕ} (hi : c₁.system.signals ≤ i) : relabelling c₁ c₂ i = i := by
  rw [relabelling, Array.getElem?_eq_none (by rw [← h.first.size]; exact hi)]

theorem relabelling_lt {i : ℕ} (hi : i < c₁.system.signals) :
    relabelling c₁ c₂ i < c₁.system.signals := by
  rw [h.first.size] at hi
  rw [relabelling, Array.getElem?_eq_getElem hi]
  exact h.size ▸ h.second.place_lt (h.mem_iff.2 (Array.getElem_mem hi))

/-- The constant and the main outputs keep their places. -/
theorem relabelling_front {i : ℕ} (hi : i ≤ c₁.system.outputs) : relabelling c₁ c₂ i = i := by
  obtain ⟨front, ins₁, ins₂, rest, hlength, h₁, h₂, -, -⟩ := h.order
  have hlt : i < front.length := by omega
  have hat₁ : c₁.signals[i]? = some front[i] := by
    rw [← Array.getElem?_toList, h₁, List.append_assoc, List.getElem?_append_left hlt,
      List.getElem?_eq_getElem hlt]
  have hat₂ : c₂.signals[i]? = some front[i] := by
    rw [← Array.getElem?_toList, h₂, List.append_assoc, List.getElem?_append_left hlt,
      List.getElem?_eq_getElem hlt]
  rw [relabelling, hat₁]
  exact h.second.place i _ hat₂

theorem symm : Alike sts c₂ c₁ where
  first := h.second
  second := h.first
  settings := h.settings.symm
  field := h.field.symm
  rules := h.rules.symm
  main := h.main.symm
  signals := h.signals.symm
  outputs := h.outputs.symm
  order := by
    obtain ⟨front, ins₁, ins₂, rest, hlength, h₁, h₂, hins₁, hins₂⟩ := h.order
    exact ⟨front, ins₂, ins₁, rest, by rw [h.outputs, hlength], h₂, h₁, hins₂, hins₁⟩

theorem relabelling_inverse (i : ℕ) : relabelling c₂ c₁ (relabelling c₁ c₂ i) = i := by
  by_cases hi : i < c₁.system.signals
  · rw [h.first.size] at hi
    have hmem := Array.getElem_mem hi
    have hplace := h.first.place i _ (Array.getElem?_eq_getElem hi)
    rw [← hplace, h.relabelling_place hmem, h.symm.relabelling_place (h.mem_iff.2 hmem)]
  · rw [not_lt] at hi
    rw [h.relabelling_of_le hi, h.symm.relabelling_of_le (by rwa [h.size])]

/-- The permutation of positions that takes every signal from its place in the one
    circuit to its place in the other. -/
def perm : Equiv.Perm ℕ where
  toFun := relabelling c₁ c₂
  invFun := relabelling c₂ c₁
  left_inv := h.relabelling_inverse
  right_inv := h.symm.relabelling_inverse

/-- **The rows of alike circuits are the same, but for the names of positions.** -/
theorem constraints (hown : ∀ st ∈ sts, st.Own c₁) :
    c₂.system.constraints = c₁.system.constraints.map (·.relabel h.perm) := by
  obtain ⟨index₁, hi₁, hrows₁⟩ := h.first.rows
  obtain ⟨index₂, hi₂, hrows₂⟩ := h.second.rows
  refine eq_map_of_forall₂ hrows₁ hrows₂ ?_
  rintro st hst r₁ r₂ ⟨row, hrow, hlow₁⟩ ⟨row', hrow', hlow₂⟩
  obtain rfl := hrow.unique hrow'
  obtain ⟨ha, hb, hd⟩ := emits_over h.first (hown st (List.mem_of_mem_filter hst)) hrow
  have hzero : h.perm 0 = 0 := h.relabelling_front (Nat.zero_le _)
  have hside {e : Expr} {l₁ l₂ : Combination} (he : e.Over c₁.field {s | s ∈ c₁.signals})
      (hl₁ : Combination.ofExpr index₁ e = .ok l₁) (hl₂ : Combination.ofExpr index₂ e = .ok l₂) :
      l₂ = l₁.relabel h.perm := by
    have hindex : ∀ t ∈ e.linear, ∃ i : ℕ, index₁ t.1 = .ok (i : Int) ∧
        index₂ t.1 = .ok (h.perm i : Int) := by
      intro t ht
      have hs := he.linear t ht
      refine ⟨c₁.place t.1, hi₁ _ hs, ?_⟩
      rw [hi₂ _ (h.mem_iff.2 hs), ← h.relabelling_place hs]
      rfl
    have hl := Combination.ofExpr_relabel h.perm.injective hzero hindex hl₁
    exact Except.ok.inj (hl₂.symm.trans hl)
  obtain ⟨a, b, d, origin⟩ := r₂
  obtain rfl : origin = r₁.origin := hlow₂.origin.trans hlow₁.origin.symm
  obtain rfl : a = r₁.a.relabel h.perm := hside ha hlow₁.a hlow₂.a
  obtain rfl : b = r₁.b.relabel h.perm := hside hb hlow₁.b hlow₂.b
  obtain rfl : d = r₁.c.relabel h.perm := hside hd hlow₁.c hlow₂.c
  rfl

/-- **A vector violates in the one circuit the rows that its permuted form violates in
    the other.** -/
theorem unsatisfiedRows (hown : ∀ st ∈ sts, st.Own c₁) (w : Array Int) :
    c₂.system.unsatisfiedRows (Combination.permuted h.perm w) = c₁.system.unsatisfiedRows w := by
  refine System.unsatisfiedRows_relabel h.size h.prime (h.constraints hown)
    (fun i hi => h.relabelling_lt hi) (fun r hr => ?_) w
  obtain ⟨index, hi, hrows⟩ := h.first.rows
  obtain ⟨st, hst, row, hrow, hlow⟩ := forall₂_mem_right hrows hr
  obtain ⟨ha, hb, hd⟩ := emits_over h.first (hown st (List.mem_of_mem_filter hst)) hrow
  simp only [Constraint.sides, List.forall_mem_cons]
  exact ⟨h.first.below hi hlow.a ha, h.first.below hi hlow.b hb, h.first.below hi hlow.c hd,
    by simp⟩

end Alike

end Circuit

end RankOne
