/-
  RankOne — compilation preserves meaning.

  * `Expr.Formed`: the form in which the operations leave an expression;
  * `Coherent.row_holds`, `Coherent.holds_of_not_emitsRow`: of a formed statement,
    the row says the same, and without a row it always holds;
  * `compile_preserves_meaning`: a vector satisfies the rows of a circuit iff
    every executed statement holds on it, and the rows are those of the
    statements, in order.
-/
import RankOne.Gadget.Indicator
import RankOne.Proofs.Circuit.Meaning

namespace RankOne

/-! ## Formed expressions -/

namespace Expr

variable {f : PrimeField}

/-- A quadratic form that is of degree zero only without signals. -/
structure Formed (f : PrimeField) (e : Expr) : Prop where
  quadratic : e.IsQuadratic f
  degree : 0 ≤ e.degree
  constant : e.degree = 0 → e.linear = [] ∧ e.products = []

instance (e : Expr) : Decidable (e.IsLinear f) :=
  decidable_of_iff (e.field = f ∧ e.products.isEmpty ∧ e.linear.uids.Nodup)
    ⟨fun h => ⟨h.1, List.isEmpty_iff.1 h.2.1, h.2.2⟩,
      fun h => ⟨h.field, List.isEmpty_iff.2 h.products, h.distinct⟩⟩

instance (e : Expr) : Decidable (e.IsQuadratic f) :=
  decidable_of_iff (e.field = f ∧ e.linear.uids.Nodup ∧
    ∀ p ∈ e.products, p.1.IsLinear f ∧ p.2.IsLinear f)
    ⟨fun h => ⟨h.1, h.2.1, h.2.2⟩, fun h => ⟨h.field, h.distinct, h.factors⟩⟩

instance (e : Expr) : Decidable (e.Formed f) :=
  decidable_of_iff (e.IsQuadratic f ∧ 0 ≤ e.degree ∧
    (e.degree = 0 → e.linear.isEmpty ∧ e.products.isEmpty))
    ⟨fun h => ⟨h.1, h.2.1, fun hd => (h.2.2 hd).imp List.isEmpty_iff.1 List.isEmpty_iff.1⟩,
      fun h => ⟨h.quadratic, h.degree,
        fun hd => (h.constant hd).imp List.isEmpty_iff.2 List.isEmpty_iff.2⟩⟩

/-- An expression of degree zero is its constant. -/
theorem Formed.value {e : Expr} (h : e.Formed f) (hd : e.degree = 0) (v : Signal → ZMod f.p) :
    e.value v = e.const := by
  obtain ⟨hl, hp⟩ := h.constant hd
  rw [value_eq, hl, hp, Terms.value, productsValue, add_zero, add_zero]

end Expr

namespace Statement

/-- The sides of an equality are formed. -/
def Formed (f : PrimeField) : Statement → Prop
  | .constrain _ l r => l.Formed f ∧ r.Formed f
  | .assign _ _ _ | .hint _ _ _ _ => True

instance (f : PrimeField) : (st : Statement) → Decidable (st.Formed f)
  | .constrain _ l r => inferInstanceAs (Decidable (l.Formed f ∧ r.Formed f))
  | .assign _ _ _ | .hint _ _ _ _ => .isTrue trivial

/-- An assignment needs a row, and an equality unless both sides are of degree
    zero. -/
def needsRow : Statement → Bool
  | .assign _ _ _ => true
  | .constrain _ l r => !(l.degree == 0 && r.degree == 0)
  | .hint _ _ _ _ => false

theorem Formed.needsRow {f : PrimeField} : ∀ {st : Statement}, st.Formed f →
    st.needsRow = st.emitsRow
  | .assign _ _ _, _ | .hint _ _ _ _, _ => rfl
  | .constrain _ l r, ⟨hl, hr⟩ => by
    have hl := hl.degree
    have hr := hr.degree
    rw [Statement.needsRow, emitsRow, Bool.eq_iff_iff]
    simp only [Bool.not_eq_true', Bool.and_eq_false_iff, beq_eq_false_iff_ne, bne_iff_ne]
    omega

end Statement

namespace Circuit

section
variable {c : Circuit} {sts : List Statement} {w : Array Int} {st : Statement}

/-- **A row holds exactly when its statement does.** -/
theorem Coherent.row_holds (hc : c.Coherent sts) (hw : c.Fits w)
    {index : Signal → Except Error Int} (hi : ∀ s ∈ c.signals, index s = .ok (c.place s : Int))
    {row : Row} {r : Constraint} (hown : st.Own c) (hform : st.Formed c.field)
    (hrow : st.Emits row) (hr : r.Lowers index row) :
    r.isSatisfied w c.system.prime = .ok true ↔ st.Holds c w := by
  cases hrow with
  | assign h =>
    obtain ⟨ok, hok, hiff⟩ := hc.assign_row hw hi hown (.assign h) hr
    rw [hok, Except.ok.injEq, hiff, hc.holds_assign hw.size hown]
  | constrain h =>
    obtain ⟨ok, hok, hiff⟩ := hc.constrain_row hw hi hown (.constrain h) hr
    rw [hok, Except.ok.injEq, hiff, hc.holds_constrain hw.size hown,
      Expr.value_sub (byUid_element c w) hform.1.quadratic hform.2.quadratic, sub_eq_zero]

/-- **A statement without a row always holds.** -/
theorem Coherent.holds_of_not_emitsRow (hc : c.Coherent sts) (hw : c.Fits w) (hown : st.Own c)
    (hform : st.Formed c.field) (hacc : st.Accepted) (h : st.emitsRow = false) :
    st.Holds c w := by
  cases st with
  | assign => cases h
  | hint => trivial
  | constrain origin l r =>
    have hd : max l.degree r.degree = 0 := by simpa [Statement.emitsRow] using h
    have hl : l.degree = 0 := by have := hform.1.degree; omega
    have hr : r.degree = 0 := by have := hform.2.degree; omega
    have hconst := hacc.2.2.2 hd
    rw [hc.holds_constrain hw.size hown, hform.1.value hl, hform.2.value hr, ← sub_eq_zero,
      ← Expr.const_sub hform.1.quadratic.field hform.2.quadratic.field, hconst, Nat.cast_zero]

end

end Circuit

/-! ## Compilation -/

/-- **Compilation preserves meaning.**  A vector satisfies all rows of a circuit
    iff every executed statement holds on it, and the rows are, in order, one for
    each statement that needs one. -/
theorem compile_preserves_meaning {σ : Type} {settings : Settings} {t : Template σ} {host : σ}
    {public_ : List String} {c : Circuit} (h : (compile settings t host public_).result = .ok c)
    (hown : ∀ st ∈ executed settings t host, st.Own c)
    (hform : ∀ st ∈ executed settings t host, st.Formed c.field) :
    (∀ w, c.Fits w →
      (c.system.unsatisfiedRows w = .ok [] ↔ ∀ st ∈ executed settings t host, st.Holds c w)) ∧
    List.Forall₂ (fun st r => r.origin = st.origin ∧
        ∀ w, c.Fits w → (r.isSatisfied w c.system.prime = .ok true ↔ st.Holds c w))
      ((executed settings t host).filter Statement.needsRow) c.system.constraints := by
  have hc := compile_coherent h
  obtain ⟨index, hi, hrows⟩ := hc.rows
  have hmem {st : Statement} (hst : st ∈ (executed settings t host).filter Statement.emitsRow) :
      st.Own c ∧ st.Formed c.field :=
    ⟨hown st (List.mem_of_mem_filter hst), hform st (List.mem_of_mem_filter hst)⟩
  refine ⟨fun w hw => ?_, ?_⟩
  · rw [hc.unsatisfiedRows_eq_nil hown hw]
    constructor
    · intro hall st hst
      by_cases he : st.emitsRow = true
      · obtain ⟨k, hk⟩ := List.mem_iff_getElem?.1 (List.mem_filter.2 ⟨hst, he⟩)
        obtain ⟨r, hr, row, hrow, hlow⟩ := forall₂_getElem? hrows.flip hk
        exact (hc.row_holds hw hi (hown st hst) (hform st hst) hrow hlow).1
          (hall r (List.mem_of_getElem? hr))
      · exact hc.holds_of_not_emitsRow hw (hown st hst) (hform st hst) (hc.accepted st hst)
          (Bool.eq_false_of_not_eq_true he)
    · intro hall r hr
      obtain ⟨k, hk⟩ := List.mem_iff_getElem?.1 hr
      obtain ⟨st, hst, row, hrow, hlow⟩ := forall₂_getElem? hrows hk
      have hst := List.mem_of_getElem? hst
      exact (hc.row_holds hw hi (hmem hst).1 (hmem hst).2 hrow hlow).2
        (hall st (List.mem_of_mem_filter hst))
  · rw [List.filter_congr fun st hst => (hform st hst).needsRow]
    refine ((List.forall₂_and_left _ _).2 ⟨fun st hst => hmem hst, hrows⟩).imp ?_
    rintro st r ⟨⟨ho, hf⟩, row, hrow, hlow⟩
    refine ⟨hlow.origin.trans ?_, fun w hw => hc.row_holds hw hi ho hf hrow hlow⟩
    cases hrow <;> rfl

/-- The zero test modulo seven: a hint, an assignment and an equality. -/
theorem isZero_preserves_meaning :
    ∃ c, (compile { prime := .int 7 } Gadget.isZeroTemplate () []).result = .ok c ∧
      ∀ w, c.Fits w → (c.system.unsatisfiedRows w = .ok [] ↔
        ∀ st ∈ executed { prime := .int 7 } Gadget.isZeroTemplate (), st.Holds c w) := by
  obtain ⟨c, hc, hown, hform⟩ := exists_ok
    (x := (compile { prime := .int 7 } Gadget.isZeroTemplate () []).result)
    (P := fun c =>
      (∀ st ∈ executed { prime := .int 7 } Gadget.isZeroTemplate (), st.Own c) ∧
        ∀ st ∈ executed { prime := .int 7 } Gadget.isZeroTemplate (), st.Formed c.field)
    (by decide +kernel)
  exact ⟨c, hc, (compile_preserves_meaning hc hown hform).1⟩

/-! ## Expressions out of form -/

open Build in
/-- Equalities that no operation builds: a product inside a factor, a signal in a
    form of degree zero, and a form of negative degree. -/
def misshapen : Build Unit Unit := do
  let x ← signal .input "x"
  let y ← signal .input "y"
  let z ← signal .input "z"
  let u ← signal .input "u"
  let v ← signal .input "v"
  let o ← signal .output "o"
  assign o (.ofSignal x)
  let f ← field
  let product ← times (.ofSignal u) (.ofSignal v)
  constrain (.of f 0 [] [(.ofSignal x, .ofSignal y)] 2)
    (.of f 0 [] [((Expr.ofSignal x).add product, .ofSignal z)] 2)
  constrain (.of f 0 [(x, 1)] [] 0) (← const 0)
  constrain (.of f 0 [] [] (-1)) (← const 0)

/-- The template of these equalities. -/
def misshapenTemplate : Template Unit := ⟨.of "T" [], misshapen⟩

/-- Out of form, an equality may fail although all rows hold, and one that needs
    a row may have none. -/
theorem misshapen_equalities_escape_rows :
    ∃ c, (compile { prime := .int 97 } misshapenTemplate () []).result = .ok c ∧
      (c.system.unsatisfiedRows #[1, 0, 0, 0, 1, 1, 1] = .ok [] ∧
        ¬ ∀ st ∈ executed { prime := .int 97 } misshapenTemplate (),
          st.Holds c #[1, 0, 0, 0, 1, 1, 1]) ∧
      (c.system.unsatisfiedRows #[1, 5, 5, 0, 0, 0, 0] = .ok [] ∧
        ¬ ∀ st ∈ executed { prime := .int 97 } misshapenTemplate (),
          st.Holds c #[1, 5, 5, 0, 0, 0, 0]) ∧
      c.system.constraints.length = 2 ∧
      ((executed { prime := .int 97 } misshapenTemplate ()).filter Statement.needsRow).length = 3 :=
  exists_ok (by decide +kernel)

end RankOne
