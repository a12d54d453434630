/-
  RankOne — the two sides of an equality exchanged.

  The sides are not treated alike, as products are folded from the right into the left,
  and exchanging them can turn a row into a refusal.  The meaning of a row never changes,
  and sides with at most one product each are accepted together.

  * `Row.HoldsOn`: a row on a vector, and `Row.holdsOn_iff` where it holds;
  * `Draft.constrain_exchange`: the exchange.
-/
import RankOne.Proofs.Circuit.Realized
import RankOne.Proofs.Expr.Fold

namespace RankOne

/-! ## Rows on vectors -/

/-- A vector that begins with one and has an entry at the place of each signal. -/
structure Combination.Carries (index : Signal → Except Error Int) (S : Set Signal)
    (w : Array Int) : Prop where
  one : w[0]? = some 1
  place : ∀ s ∈ S, ∃ i x, index s = .ok i ∧ elementAt w i = .ok x

theorem Combination.Carries.placed {index : Signal → Except Error Int} {S : Set Signal}
    {w : Array Int} (hS : Set.InjOn Signal.uid S) (h : Carries index S w) :
    ∃ x : Signal → Int, (∀ s t, s.uid = t.uid → x s = x t) ∧ Placed index w S x := by
  have : Nonempty Signal := ⟨Workspace.one .goldilocks⟩
  choose! i x hi using h.place
  refine ⟨fun s => x (Function.invFunOn Signal.uid S s.uid),
    fun s t hst => congrArg (fun u => x (Function.invFunOn Signal.uid S u)) hst,
    h.one, fun s hs => ⟨i s, (hi s hs).1, ?_⟩⟩
  rw [hS.leftInvOn_invFunOn hs]
  exact (hi s hs).2

/-- The row with its signals replaced by positions is satisfied by the vector. -/
def Row.HoldsOn (row : Row) (index : Signal → Except Error Int) (p : ℕ) (w : Array Int) : Prop :=
  ∃ r : Constraint, r.Lowers index row ∧ r.isSatisfied w p = .ok true

theorem Row.holdsOn_iff {f : PrimeField} {S : Set Signal} {index : Signal → Except Error Int}
    {w : Array Int} {x : Signal → Int} {e : Expr} {row : Row} (he : e.Proper f S)
    (hrow : e.toRow = .ok (row.a, row.b, row.c)) (hw : Combination.Placed index w S x) :
    row.HoldsOn index f.p w ↔ e.value (fun s => (x s : ZMod f.p)) = 0 := by
  obtain ⟨ha, hb, hc⟩ := Expr.toRow_over he.isOver hrow
  have hvalue {r : Constraint} (hr : r.Lowers index row) :
      ∃ ok, r.isSatisfied w f.p = .ok ok ∧
        (ok = true ↔ e.value (fun s => (x s : ZMod f.p)) = 0) := by
    rw [Expr.toRow_value he.isOver hrow, sub_eq_zero]
    exact Constraint.isSatisfied_iff (Combination.ofExpr_value ha hw hr.a)
      (Combination.ofExpr_value hb hw hr.b) (Combination.ofExpr_value hc hw hr.c)
  constructor
  · rintro ⟨r, hr, hsat⟩
    obtain ⟨ok, hok, hiff⟩ := hvalue hr
    cases hok.symm.trans hsat
    exact hiff.1 rfl
  · intro hzero
    -- the sides are linear forms over placed signals, and so the row gets positions
    have hplace (s : Signal) (hs : s ∈ S) : ∃ i, index s = .ok i := by
      obtain ⟨i, hi, -⟩ := hw.place s hs
      exact ⟨i, hi⟩
    have hlower {l : Expr} (hl : Circuit.IsLinearOver S l) :
        ∃ k, Combination.ofExpr index l = .ok k :=
      Circuit.ofExpr_of_linear hl.1 fun t ht => hplace _ (hl.2 t ht)
    obtain ⟨hla, hlb, hlc⟩ := he.toRow_linear hrow
    obtain ⟨a, ha⟩ := hlower hla
    obtain ⟨b, hb⟩ := hlower hlb
    obtain ⟨c, hc⟩ := hlower hlc
    have hr : (⟨a, b, c, row.origin⟩ : Constraint).Lowers index row := ⟨ha, hb, hc, rfl⟩
    obtain ⟨ok, hok, hiff⟩ := hvalue hr
    rw [hiff.2 hzero] at hok
    exact ⟨_, hr, hok⟩

theorem Draft.Adds.holdsOn_iff {d : Draft} {origin : String} {f : PrimeField} {S : Set Signal}
    {index : Signal → Except Error Int} {w : Array Int} {x : Signal → Int} {a b : Expr} {row : Row}
    (h : d.Adds a b origin row) (ha : a.Proper f S) (hb : b.Proper f S)
    (hx : ∀ s t, s.uid = t.uid → x s = x t) (hw : Combination.Placed index w S x) :
    row.HoldsOn index f.p w ↔
      a.value (fun s => (x s : ZMod f.p)) = b.value fun s => (x s : ZMod f.p) := by
  have hv : ByUid fun s => (x s : ZMod f.p) := fun s t hst => congrArg Int.cast (hx s t hst)
  rw [Row.holdsOn_iff (ha.sub hb) h.toRow hw,
    Expr.value_sub hv ha.canonical.isQuadratic hb.canonical.isQuadratic, sub_eq_zero]

/-! ## The exchange -/

namespace Expr

variable {f : PrimeField} {a b : Expr}

theorem Canonical.const_sub_eq_zero (ha : a.Canonical f) (hb : b.Canonical f) :
    (a.sub b).const = 0 ↔ (b.sub a).const = 0 := by
  have hab : (a.sub b).const < f.p := (ha.add hb.neg).const
  have hba : (b.sub a).const < f.p := (hb.add ha.neg).const
  rw [← f.cast_eq_zero hab, ← f.cast_eq_zero hba, const_sub ha.field hb.field,
    const_sub hb.field ha.field, sub_eq_zero, sub_eq_zero]
  exact eq_comm

end Expr

/-- **Exchanging the sides of an equality.**  It needs no row, and it can never hold, in
    both orders or in none.  In each order there is otherwise a row or a refusal of the
    degree; where there is a row in both, the two hold on the same vectors; and if no side
    has more than one product, there is a row in both orders or in none. -/
theorem Draft.constrain_exchange (d : Draft) (hp : d.field.p.Prime) {S : Set Signal}
    (hS : Set.InjOn Signal.uid S) {a b : Expr} (ha : (Operand.expr a).Built d.field S)
    (hb : (Operand.expr b).Built d.field S) (origin : String) :
    (d.Skips a b origin ↔ d.Skips b a origin) ∧
    (d.Refuses a b origin .unsatisfiable ↔ d.Refuses b a origin .unsatisfiable) ∧
    (d.Skips a b origin ∨ d.Refuses a b origin .unsatisfiable ∨
      (∃ row, d.Adds a b origin row) ∨ d.Refuses a b origin .degree) ∧
    (∀ row row', d.Adds a b origin row → d.Adds b a origin row' →
      ∀ index w, Combination.Carries index S w →
        (row.HoldsOn index d.field.p w ↔ row'.HoldsOn index d.field.p w)) ∧
    (a.products.length ≤ 1 → b.products.length ≤ 1 →
      ((∃ row, d.Adds a b origin row) ↔ ∃ row, d.Adds b a origin row) ∧
      (d.Refuses a b origin .degree ↔ d.Refuses b a origin .degree)) := by
  have : Fact d.field.p.Prime := ⟨hp⟩
  have ha := Operand.proper_expr.1 ha.proper
  have hb := Operand.proper_expr.1 hb.proper
  obtain ⟨hskip, hunsat, hadd, hdegree⟩ := constrain_iff d origin ha.canonical hb.canonical
  obtain ⟨hskip', hunsat', hadd', hdegree'⟩ := constrain_iff d origin hb.canonical ha.canonical
  have hmax : max a.degree b.degree = max b.degree a.degree := max_comm _ _
  have hconst := ha.canonical.const_sub_eq_zero hb.canonical
  refine ⟨?_, ?_, ?_, ?_, fun ha₁ hb₁ => ?_⟩
  · rw [hskip, hskip', hmax, hconst]
  · rw [hunsat, hunsat', hmax, Ne, hconst]
  · by_cases hmax₀ : max a.degree b.degree = 0
    · by_cases hconst₀ : (a.sub b).const = 0
      · exact Or.inl (hskip.2 ⟨hmax₀, hconst₀⟩)
      · exact Or.inr (Or.inl (hunsat.2 ⟨hmax₀, hconst₀⟩))
    · by_cases hlive : (a.sub b).liveProducts.length ≤ 1
      · exact Or.inr (Or.inr (Or.inl (hadd.2 ⟨hmax₀, hlive⟩)))
      · exact Or.inr (Or.inr (Or.inr (hdegree.2 ⟨hmax₀, hlive⟩)))
  · intro row row' hrow hrow' index w hw
    obtain ⟨x, hx, hplaced⟩ := hw.placed hS
    rw [hrow.holdsOn_iff ha hb hx hplaced, hrow'.holdsOn_iff hb ha hx hplaced]
    exact eq_comm
  · have hlive : (a.sub b).liveProducts.length ≤ 1 ↔ (b.sub a).liveProducts.length ≤ 1 := by
      rw [Expr.length_liveProducts_sub ha.canonical hb.canonical ha₁ hb₁,
        Expr.length_liveProducts_sub hb.canonical ha.canonical hb₁ ha₁]
      exact ⟨fun h p hp q hq => (h q hq p hp).symm, fun h p hp q hq => (h q hq p hp).symm⟩
    rw [hadd, hadd', hdegree, hdegree', hmax, hlive]
    exact ⟨Iff.rfl, Iff.rfl⟩

theorem Draft.constrain_exchange_shared :
    let f : PrimeField := ⟨7, by decide⟩
    let d := Draft.empty f
    let x := fun n => Operand.signal (signalMod7 n)
    ∃ a b, combine "product" [x 1, x 2] = .ok a ∧ combine "product" [x 3, x 1] = .ok b ∧
      a.products.length = 1 ∧ b.products.length = 1 ∧
      ∃ row row', d.Adds a b "main" row ∧ d.Adds b a "main" row' ∧
        ∀ w : Array Int, w[0]? = some 1 → 4 ≤ w.size →
          (row.HoldsOn (fun s => .ok s.uid) 7 w ↔ row'.HoldsOn (fun s => .ok s.uid) 7 w) := by
  intro f d x
  let S : Set Signal := signalMod7 '' {1, 2, 3}
  have hS : Set.InjOn Signal.uid S := by
    rintro _ ⟨m, -, rfl⟩ _ ⟨n, -, rfl⟩ h
    exact congrArg signalMod7 h
  have hx (n : Int) (hn : n ∈ ({1, 2, 3} : Set Int)) : (x n).Built f S := .signal ⟨n, hn, rfl⟩ rfl
  obtain ⟨a, ha, ha₁⟩ : ∃ a, combine "product" [x 1, x 2] = .ok a ∧ a.products.length = 1 :=
    ⟨_, rfl, rfl⟩
  obtain ⟨b, hb, hb₁⟩ : ∃ b, combine "product" [x 3, x 1] = .ok b ∧ b.products.length = 1 :=
    ⟨_, rfl, rfl⟩
  have hbuilt {m n : Int} (hm : m ∈ ({1, 2, 3} : Set Int)) (hn : n ∈ ({1, 2, 3} : Set Int))
      {e : Expr} (he : combine "product" [x m, x n] = .ok e) : (Operand.expr e).Built f S :=
    .combined (by simpa using ⟨hx m hm, hx n hn⟩) he
  obtain ⟨-, -, -, hrows, hboth⟩ := Draft.constrain_exchange d (by decide) hS
    (hbuilt (by simp) (by simp) ha) (hbuilt (by simp) (by simp) hb) "main"
  obtain ⟨row, hrow⟩ : ∃ row, d.Adds a b "main" row := by
    cases ha; cases hb
    exact ⟨_, rfl⟩
  obtain ⟨row', hrow'⟩ := (hboth ha₁.le hb₁.le).1.1 ⟨row, hrow⟩
  refine ⟨a, b, ha, hb, ha₁, hb₁, row, row', hrow, hrow', fun w h₀ hw => ?_⟩
  refine hrows row row' hrow hrow' _ w ⟨h₀, ?_⟩
  rintro _ ⟨n, hn, rfl⟩
  obtain ⟨k, rfl, hlt⟩ : ∃ k : ℕ, n = k ∧ k < w.size := by
    rcases hn with rfl | rfl | rfl
    exacts [⟨1, rfl, by omega⟩, ⟨2, rfl, by omega⟩, ⟨3, rfl, by omega⟩]
  exact ⟨k, w[k], rfl, elementAt_natCast.2 (Array.getElem?_eq_getElem hlt)⟩

/-- Of `x₁ * x₂` and `x₁ * x₃ + (x₂ - x₃) * x₄`, the second side folds into the first one:
    `x₁ * (x₂ - x₃)` shares a factor with the product that follows.  In the other order the
    same product is made by folding into `x₁ * x₃`, and what follows that was folded before. -/
theorem Draft.constrain_exchange_refused :
    let f : PrimeField := ⟨7, by decide⟩
    let d := Draft.empty f
    let x := fun n => Operand.signal (signalMod7 n)
    ∃ a p q r b, combine "product" [x 1, x 2] = .ok a ∧
      combine "product" [x 1, x 3] = .ok p ∧ combine "sub" [x 2, x 3] = .ok q ∧
      combine "product" [.expr q, x 4] = .ok r ∧ combine "sum" [.expr p, .expr r] = .ok b ∧
      (∃ row, d.Adds a b "main" row) ∧ d.Refuses b a "main" .degree := by
  intro f d x
  refine ⟨_, _, _, _, _, rfl, rfl, rfl, rfl, rfl, ⟨_, rfl⟩, _, rfl, rfl⟩

end RankOne
