/-
  RankOne — what the rows of a component mention.

  A row is followed in the workspace `W` that a compilation ends with: what it mentions
  there, it mentions for good.

  * `Has`, `Outside`: a component declares a signal, or another one does as an output;
  * `Emits`, `Hears`, `Bound`: a component emits the row of an expression, mentions a signal
    in a row; its parent mentions all its outputs;
  * `hears_factor`, `hears_linear`: where a row mentions a signal;
  * `hears_copy`, `hears_fixed`, `hears_product`: a signal that is copied, fixed or
    multiplied is mentioned.
-/
import RankOne.Proofs.Build.References
import RankOne.Proofs.Expr.Built
import RankOne.Proofs.Expr.Difference

namespace RankOne.Workspace

/-! ## What the final workspace shows -/

/-- A component declares a signal in a role. -/
def Has (W : Workspace) (id : ℕ) (role : Role) (s : Signal) : Prop :=
  ∃ d ∈ (W.instanceAt id).declarations, d.role = role ∧ s ∈ d.bus.flat

/-- A canonical expression over the signals of the workspace. -/
def Knows (W : Workspace) (e : Expr) : Prop := e.Proper W.field {s | s ∈ W.signals}

/-- A component emits the row of an expression. -/
def Emits (W : Workspace) (id : ℕ) (e : Expr) : Prop :=
  ∃ k ∈ (W.instanceAt id).rows, ∃ row, W.draft.rows[k]? = some row ∧
    e.toRow = .ok (row.a, row.b, row.c)

/-- A side of a row of a component lists a signal. -/
def Hears (W : Workspace) (id : ℕ) (s : Signal) : Prop :=
  ∃ k ∈ (W.instanceAt id).rows, ∃ row, W.draft.rows[k]? = some row ∧
    ∃ e ∈ [row.a, row.b, row.c], W.Knows e ∧ s.uid ∈ e.linear.uids

/-- An output of another component. -/
def Outside (W : Workspace) (here : ℕ) (s : Signal) : Prop := ∃ id ≠ here, W.Has id .output s

/-- The parent of a component hears all its outputs. -/
def Bound (W : Workspace) (id : ℕ) : Prop :=
  ∀ p, (W.instanceAt id).parent = some p → ∀ s ∈ (W.instanceAt id).outputs, W.Hears p s

section
variable {W : Workspace} {id i j : ℕ} {role role' : Role} {s u : Signal} {e a b : Expr}

theorem Has.mem (hW : W.Sound) (h : W.Has id role s) : s ∈ W.signals := by
  obtain ⟨d, hd, -, hs⟩ := h
  exact (hW.declared id d hd s hs).1

theorem Has.kind (hW : W.Sound) (h : W.Has id role s) : s.kind = .declared role := by
  obtain ⟨d, hd, rfl, hs⟩ := h
  exact (hW.declared id d hd s hs).2.1

theorem knows_ofSignal (hW : W.Sound) (hs : s ∈ W.signals) : W.Knows (.ofSignal s) :=
  .ofSignal hs (hW.field s hs)

/-- Signals of two components differ. -/
theorem Has.uid_ne (hW : W.Sound) (ha : W.Apart) (hs : W.Has i role s) (hu : W.Has j role' u)
    (hne : i ≠ j) : s.uid ≠ u.uid := by
  intro huid
  obtain rfl := hW.numbered.eq_of_uid (hs.mem hW) (hu.mem hW) huid
  obtain ⟨d, hd, -, hsd⟩ := hs
  obtain ⟨d', hd', -, hsd'⟩ := hu
  exact hne (ha i j s ⟨d, hd, hsd⟩ ⟨d', hd', hsd'⟩)

/-- Signals of two roles differ. -/
theorem Has.uid_ne_of_role (hW : W.Sound) (hs : W.Has i role s) (hu : W.Has j role' u)
    (hne : role ≠ role') : s.uid ≠ u.uid := by
  intro huid
  obtain rfl := hW.numbered.eq_of_uid (hs.mem hW) (hu.mem hW) huid
  have hkind := (hs.kind hW).symm.trans (hu.kind hW)
  cases hkind
  exact hne rfl

theorem Outside.mem (hW : W.Sound) (h : W.Outside id u) : u ∈ W.signals := by
  obtain ⟨j, -, hj⟩ := h
  exact hj.mem hW

theorem Outside.uid_ne (hW : W.Sound) (ha : W.Apart) (h : W.Outside id u) (hs : W.Has id role s) :
    s.uid ≠ u.uid := by
  obtain ⟨j, hj, hu⟩ := h
  exact hs.uid_ne hW ha hu hj.symm

/-- A component hears what stands in a factor of the product of its row. -/
theorem Emits.hears_factor (h : W.Emits id e) (he : W.Knows e) (hp : e.products = [(a, b)])
    (ha : a.linear ≠ []) (hb : b.linear ≠ [])
    (hs : s.uid ∈ a.linear.uids ∨ s.uid ∈ b.linear.uids) : W.Hears id s := by
  have hl : e.liveProducts = [(a, b)] := by
    simp [Expr.liveProducts, hp, Expr.isZero, ha, hb]
  obtain ⟨k, hk, row, hrow, htoRow⟩ := h
  obtain ⟨hka, hkb, -⟩ := Expr.Proper.toRow he htoRow
  obtain ⟨-, ⟨hnil, -⟩ | hlive⟩ := Expr.toRow_cases htoRow
  · rw [hl] at hnil
    cases hnil
  · rw [hl] at hlive
    cases hlive
    refine ⟨k, hk, row, hrow, ?_⟩
    rcases hs with hs | hs
    · exact ⟨row.a, by simp, hka, hs⟩
    · exact ⟨row.b, by simp, hkb, hs⟩

/-- A component hears the linear terms of its row. -/
theorem Emits.hears_linear (h : W.Emits id e) (he : W.Knows e) (hs : s.uid ∈ e.linear.uids) :
    W.Hears id s := by
  obtain ⟨k, hk, row, hrow, htoRow⟩ := h
  obtain ⟨-, -, hkc⟩ := Expr.Proper.toRow he htoRow
  obtain ⟨hc, -⟩ := Expr.toRow_cases htoRow
  refine ⟨k, hk, row, hrow, row.c, by simp, hkc, ?_⟩
  have hlinear : e.linearPart.Normal W.field := he.canonical.linearPart.toNormal
  rw [hc, hlinear.uids_neg]
  exact hs

/-- A component hears what it copies. -/
theorem Emits.hears_copy (hW : W.Sound) (h : W.Emits id ((Expr.ofSignal u).sub (.ofSignal s)))
    (hu : u ∈ W.signals) (hs : s ∈ W.signals) (hne : s.uid ≠ u.uid) : W.Hears id u := by
  have hku := knows_ofSignal hW hu
  refine h.hears_linear (hku.sub (knows_ofSignal hW hs)) ?_
  rw [hku.canonical.toNormal.uids_sub_ofSignal (hW.field s hs)]
  · simp [Terms.uids, Expr.ofSignal]
  · simpa [Terms.uids, Expr.ofSignal] using hne

/-- A component hears what it fixes. -/
theorem Emits.hears_fixed (hW : W.Sound) {n : Int}
    (h : W.Emits id ((Expr.ofSignal u).sub (.ofInt W.field n))) (hu : u ∈ W.signals) :
    W.Hears id u := by
  have hku := knows_ofSignal hW hu
  refine h.hears_linear (hku.sub (.ofInt n)) ?_
  rw [hku.canonical.toNormal.uids_sub_ofInt]
  simp [Terms.uids, Expr.ofSignal]

/-- A component hears two signals whose product it assigns. -/
theorem Emits.hears_product (hW : W.Sound) {x y : Signal} (h : W.Emits id (e.sub (.ofSignal s)))
    (hmul : (Expr.ofSignal x).mul (.ofSignal y) = .ok e) (hx : x ∈ W.signals) (hy : y ∈ W.signals)
    (hs : s ∈ W.signals) : W.Hears id x ∧ W.Hears id y := by
  have hkx := knows_ofSignal hW hx
  have hky := knows_ofSignal hW hy
  have hke := (hkx.mul hky hmul).sub (knows_ofSignal hW hs)
  have hne (z : Signal) : (Expr.ofSignal z).linear ≠ [] := by simp [Expr.ofSignal]
  have hmem (z : Signal) : z.uid ∈ (Expr.ofSignal z).linear.uids := by
    simp [Terms.uids, Expr.ofSignal]
  have hproducts : (e.sub (.ofSignal s)).products = [(.ofSignal x, .ofSignal y)] := by
    rw [Expr.products_sub_ofSignal]
    exact Expr.products_mul hkx.canonical hky.canonical (hne x) (hne y) hmul
  constructor
  · exact h.hears_factor hke hproducts (hne x) (hne y) (Or.inl (hmem x))
  · exact h.hears_factor hke hproducts (hne x) (hne y) (Or.inr (hmem y))

end

end RankOne.Workspace
