/-
  RankOne — rows mean what the statements say.

  * `Circuit.entry`: the entry of a vector for a signal;
  * `Statement.Holds`: a statement holds on a vector: its two sides evaluate, and
    to the same field element;
  * `Statement.Own`: a statement speaks of the signals of its own circuit;
  * `Coherent.assign_row`, `Coherent.constrain_row`: a row holds exactly when its
    statement does;
  * `OwnCompilation`: a compilation that succeeds with such statements only;
  * `kept`: a signal of an earlier compilation, which such statements leave out.
-/
import RankOne.Build.Statement
import RankOne.Proofs.Circuit.Coherent

namespace RankOne

/-! ## Statements on vectors -/

/-- The entry of a vector for a signal. -/
def Circuit.entry (c : Circuit) (w : Array Int) (s : Signal) : Except Error Int :=
  c.index s >>= fun i => elementAt w i

namespace Statement

/-- Two results are there, and the same modulo `p`. -/
def Agree (p : ℕ) (x y : Except Error Int) : Prop :=
  match x, y with
  | .ok x, .ok y => x ≡ y [ZMOD p]
  | _, _ => False

instance (p : ℕ) : (x y : Except Error Int) → Decidable (Agree p x y)
  | .ok x, .ok y => inferInstanceAs (Decidable (x ≡ y [ZMOD p]))
  | .ok _, .error _ => .isFalse id
  | .error _, _ => .isFalse id

/-- A statement holds on a vector.  Hints say nothing about it. -/
def Holds (c : Circuit) (w : Array Int) : Statement → Prop
  | .assign _ target e =>
    Agree c.field.p (c.entry w target) ((e.evaluate (c.entry w)).map Int.ofNat)
  | .constrain _ l r =>
    Agree c.field.p ((l.evaluate (c.entry w)).map Int.ofNat)
      ((r.evaluate (c.entry w)).map Int.ofNat)
  | .hint _ _ _ _ => True

instance (c : Circuit) (w : Array Int) : (st : Statement) → Decidable (st.Holds c w)
  | .assign _ _ _ => inferInstanceAs (Decidable (Agree _ _ _))
  | .constrain _ _ _ => inferInstanceAs (Decidable (Agree _ _ _))
  | .hint _ _ _ _ => .isTrue trivial

/-- A statement speaks of the signals of a circuit, in its field. -/
structure Own (c : Circuit) (st : Statement) : Prop where
  exprs : ∀ e ∈ st.exprs, e.Over c.field {s | s ∈ c.signals}
  target : ∀ s ∈ st.target?, s ∈ c.signals

instance (c : Circuit) (st : Statement) : Decidable (st.Own c) :=
  decidable_of_iff ((∀ e ∈ st.exprs, e.Over c.field {s | s ∈ c.signals}) ∧
    ∀ s ∈ st.target?, s ∈ c.signals) ⟨fun h => ⟨h.1, h.2⟩, fun h => ⟨h.exprs, h.target⟩⟩

end Statement

namespace Circuit

/-! ## Reading vectors -/

section
variable {c : Circuit} {sts : List Statement} {w : Array Int}

/-- A vector that a circuit can be checked on: the constant one, and an entry for
    every signal. -/
structure Fits (c : Circuit) (w : Array Int) : Prop where
  size : w.size = c.system.signals
  one : w[0]? = some 1

instance (c : Circuit) (w : Array Int) : Decidable (c.Fits w) :=
  decidable_of_iff (w.size = c.system.signals ∧ w[0]? = some 1)
    ⟨fun h => ⟨h.1, h.2⟩, fun h => ⟨h.size, h.one⟩⟩

/-- The value of a signal in a vector. -/
def reading (c : Circuit) (w : Array Int) (s : Signal) : Int := w.getD (c.place s) 0

/-- The field element of a signal in a vector. -/
def element (c : Circuit) (w : Array Int) (s : Signal) : ZMod c.field.p := c.reading w s

theorem byUid_element (c : Circuit) (w : Array Int) : ByUid (c.element w) := fun s t h => by
  rw [element, element, reading, reading, place, place, h]

theorem Coherent.getElem?_place (hc : c.Coherent sts) (hw : w.size = c.system.signals) {s : Signal}
    (hs : s ∈ c.signals) : w[c.place s]? = some (c.reading w s) := by
  obtain ⟨hlt, -⟩ := Array.getElem?_eq_some_iff.1 (hc.getElem?_signals hs)
  rw [← hc.size, ← hw] at hlt
  rw [reading, Array.getD_eq_getD_getElem?, Array.getElem?_eq_getElem hlt, Option.getD_some]

theorem Coherent.entry (hc : c.Coherent sts) (hw : w.size = c.system.signals) {s : Signal}
    (hs : s ∈ c.signals) : c.entry w s = .ok (c.reading w s) := by
  rw [Circuit.entry, hc.index_eq hs]
  exact elementAt_natCast.2 (hc.getElem?_place hw hs)

/-- An expression over the signals of a circuit evaluates on every vector. -/
theorem Coherent.evaluate (hc : c.Coherent sts) (hw : w.size = c.system.signals) {e : Expr}
    (he : e.Over c.field {s | s ∈ c.signals}) :
    ∃ n, e.evaluate (c.entry w) = .ok n ∧ n < c.field.p ∧
      (n : ZMod c.field.p) = e.value (c.element w) :=
  Expr.evaluate_value (fun _ hs => hc.entry hw hs) e he

/-! ## Rows -/

/-- The row of an expression holds exactly where the expression vanishes. -/
theorem Coherent.row_vanishes (hc : c.Coherent sts) (hw : c.Fits w)
    {index : Signal → Except Error Int} (hi : ∀ s ∈ c.signals, index s = .ok (c.place s : Int))
    {e : Expr} {row : Row} {r : Constraint} (he : e.Over c.field {s | s ∈ c.signals})
    (hrow : e.toRow = .ok (row.a, row.b, row.c)) (hr : r.Lowers index row) :
    ∃ ok, r.isSatisfied w c.system.prime = .ok ok ∧ (ok = true ↔ e.value (c.element w) = 0) := by
  obtain ⟨ha, hb, hc'⟩ := Expr.toRow_over he hrow
  have hplaced : Combination.Placed index w {s | s ∈ c.signals} (c.reading w) :=
    ⟨hw.one, fun s hs => ⟨_, hi s hs, elementAt_natCast.2 (hc.getElem?_place hw.size hs)⟩⟩
  obtain ⟨ok, hok, hiff⟩ := Constraint.isSatisfied_iff (Combination.ofExpr_value ha hplaced hr.a)
    (Combination.ofExpr_value hb hplaced hr.b) (Combination.ofExpr_value hc' hplaced hr.c)
  refine ⟨ok, by rw [hc.prime]; exact hok, hiff.trans ?_⟩
  rw [Expr.toRow_value (v := c.element w) he hrow, sub_eq_zero]
  rfl

/-- **The row of an assignment holds where the target has the value assigned.** -/
theorem Coherent.assign_row (hc : c.Coherent sts) (hw : c.Fits w)
    {index : Signal → Except Error Int} (hi : ∀ s ∈ c.signals, index s = .ok (c.place s : Int))
    {origin : String} {target : Signal} {e : Expr} {row : Row} {r : Constraint}
    (hown : (Statement.assign origin target e).Own c)
    (hrow : (Statement.assign origin target e).Emits row) (hr : r.Lowers index row) :
    ∃ ok, r.isSatisfied w c.system.prime = .ok ok ∧
      (ok = true ↔ e.value (c.element w) = c.element w target) := by
  have he := hown.exprs e List.mem_cons_self
  have ht := hown.target target rfl
  have htf := hc.field target ht
  cases hrow with
  | assign hrow =>
    obtain ⟨ok, hok, hiff⟩ :=
      hc.row_vanishes hw hi (he.sub (Expr.over_ofSignal htf ht)) hrow hr
    refine ⟨ok, hok, hiff.trans ?_⟩
    rw [Expr.value_sub_ofSignal (byUid_element c w) he.field htf, sub_eq_zero]

theorem Coherent.constrain_row (hc : c.Coherent sts) (hw : c.Fits w)
    {index : Signal → Except Error Int} (hi : ∀ s ∈ c.signals, index s = .ok (c.place s : Int))
    {origin : String} {x y : Expr} {row : Row} {r : Constraint}
    (hown : (Statement.constrain origin x y).Own c)
    (hrow : (Statement.constrain origin x y).Emits row) (hr : r.Lowers index row) :
    ∃ ok, r.isSatisfied w c.system.prime = .ok ok ∧
      (ok = true ↔ (x.sub y).value (c.element w) = 0) := by
  have hx := hown.exprs x List.mem_cons_self
  have hy := hown.exprs y (List.mem_cons_of_mem _ List.mem_cons_self)
  cases hrow with
  | constrain hrow => exact hc.row_vanishes hw hi (hx.sub hy) hrow hr

/-- The row of an executed assignment, by its number among the rows. -/
theorem Coherent.assign_at (hc : c.Coherent sts) {k : ℕ} {origin : String} {target : Signal}
    {e : Expr} (hk : (sts.filter Statement.emitsRow)[k]? = some (.assign origin target e))
    (hown : (Statement.assign origin target e).Own c) :
    ∃ r, c.system.constraints[k]? = some r ∧ ∀ w, c.Fits w →
      (r.isSatisfied w c.system.prime = .ok true ↔
        e.value (c.element w) = c.element w target) := by
  obtain ⟨index, hi, hrows⟩ := hc.rows
  obtain ⟨r, hr, row, hrow, hlow⟩ := forall₂_getElem? hrows.flip hk
  refine ⟨r, hr, fun w hw => ?_⟩
  obtain ⟨ok, hok, hiff⟩ := hc.assign_row hw hi hown hrow hlow
  rw [hok, Except.ok.injEq, hiff]

theorem Coherent.constrain_at (hc : c.Coherent sts) {k : ℕ} {origin : String} {x y : Expr}
    (hk : (sts.filter Statement.emitsRow)[k]? = some (.constrain origin x y))
    (hown : (Statement.constrain origin x y).Own c) :
    ∃ r, c.system.constraints[k]? = some r ∧ ∀ w, c.Fits w →
      (r.isSatisfied w c.system.prime = .ok true ↔ (x.sub y).value (c.element w) = 0) := by
  obtain ⟨index, hi, hrows⟩ := hc.rows
  obtain ⟨r, hr, row, hrow, hlow⟩ := forall₂_getElem? hrows.flip hk
  refine ⟨r, hr, fun w hw => ?_⟩
  obtain ⟨ok, hok, hiff⟩ := hc.constrain_row hw hi hown hrow hlow
  rw [hok, Except.ok.injEq, hiff]

/-- On a vector that fits, every row can be checked. -/
theorem Coherent.isSatisfied (hc : c.Coherent sts) (hown : ∀ st ∈ sts, st.Own c) (hw : c.Fits w) :
    ∀ r ∈ c.system.constraints, ∃ ok, r.isSatisfied w c.system.prime = .ok ok := by
  intro r hr
  obtain ⟨index, hi, hrows⟩ := hc.rows
  obtain ⟨k, hk⟩ := List.mem_iff_getElem?.1 hr
  obtain ⟨st, hst, row, hrow, hlow⟩ := forall₂_getElem? hrows hk
  have hst := hown st (List.mem_of_mem_filter (List.mem_of_getElem? hst))
  cases hrow with
  | assign h => exact (hc.assign_row hw hi hst (.assign h) hlow).imp fun _ => And.left
  | constrain h => exact (hc.constrain_row hw hi hst (.constrain h) hlow).imp fun _ => And.left

/-- The rows that a vector violates. -/
theorem Coherent.unsatisfiedRows (hc : c.Coherent sts) (hown : ∀ st ∈ sts, st.Own c)
    (hw : c.Fits w) : ∃ bad, c.system.unsatisfiedRows w = .ok bad ∧ bad.Pairwise (· < ·) ∧
      ∀ k, k ∈ bad ↔ ∃ r, c.system.constraints[k]? = some r ∧
        r.isSatisfied w c.system.prime = .ok false :=
  System.unsatisfiedRows_eq hw.size (hc.isSatisfied hown hw)

theorem Coherent.unsatisfiedRows_eq_nil (hc : c.Coherent sts) (hown : ∀ st ∈ sts, st.Own c)
    (hw : c.Fits w) : c.system.unsatisfiedRows w = .ok [] ↔
      ∀ r ∈ c.system.constraints, r.isSatisfied w c.system.prime = .ok true := by
  obtain ⟨bad, hbad, -, hmem⟩ := hc.unsatisfiedRows hown hw
  rw [hbad, Except.ok.injEq, List.eq_nil_iff_forall_not_mem]
  constructor
  · intro h r hr
    obtain ⟨k, hk⟩ := List.mem_iff_getElem?.1 hr
    obtain ⟨ok, hok⟩ := hc.isSatisfied hown hw r hr
    cases ok with
    | true => exact hok
    | false => exact absurd ((hmem k).2 ⟨r, hk, hok⟩) (h k)
  · intro h k hk
    obtain ⟨r, hr, hf⟩ := (hmem k).1 hk
    rw [h r (List.mem_of_getElem? hr)] at hf
    cases hf

/-! ## Statements -/

theorem agree_iff {p : ℕ} {x y : Int} :
    Statement.Agree p (.ok x) (.ok y) ↔ (x : ZMod p) = y :=
  (ZMod.intCast_eq_intCast_iff x y p).symm

theorem Coherent.holds_assign (hc : c.Coherent sts) (hw : w.size = c.system.signals)
    {origin : String} {target : Signal} {e : Expr}
    (hown : (Statement.assign origin target e).Own c) :
    (Statement.assign origin target e).Holds c w ↔
      e.value (c.element w) = c.element w target := by
  obtain ⟨n, hn, -, hv⟩ := hc.evaluate hw (hown.exprs e List.mem_cons_self)
  rw [Statement.Holds, hc.entry hw (hown.target target rfl), hn, ← hv]
  exact agree_iff.trans (by rw [eq_comm]; simp [element])

theorem Coherent.holds_constrain (hc : c.Coherent sts) (hw : w.size = c.system.signals)
    {origin : String} {x y : Expr} (hown : (Statement.constrain origin x y).Own c) :
    (Statement.constrain origin x y).Holds c w ↔
      x.value (c.element w) = y.value (c.element w) := by
  obtain ⟨m, hm, -, hvm⟩ := hc.evaluate hw (hown.exprs x List.mem_cons_self)
  obtain ⟨n, hn, -, hvn⟩ := hc.evaluate hw
    (hown.exprs y (List.mem_cons_of_mem _ List.mem_cons_self))
  rw [Statement.Holds, hm, hn, ← hvm, ← hvn]
  exact agree_iff.trans (by simp)

end

end Circuit

/-! ## Compilations -/

/-- A compilation returns a circuit, and its statements speak of the signals of that
    circuit, in its field. -/
structure OwnCompilation {σ : Type} (settings : Settings) (t : Template σ) (host : σ)
    (public_ : List String) (c : Circuit) : Prop where
  result : (compile settings t host public_).result = .ok c
  own : ∀ st ∈ executed settings t host, st.Own c

theorem OwnCompilation.coherent {σ : Type} {settings : Settings} {t : Template σ} {host : σ}
    {public_ : List String} {c : Circuit} (h : OwnCompilation settings t host public_ c) :
    c.Coherent (executed settings t host) :=
  compile_coherent h.result

/-! ## Signals of an earlier compilation -/

open Build in
/-- A build whose outputs are kept. -/
def keeper : Build Unit Unit := do
  let pads ← signals .intermediate "pad" (.int 4)
  let outs ← signals .output "f" (.int 5)
  let zero ← const 0
  assignAll (pads ++ outs) ((pads ++ outs).map fun _ => zero)

def keeperTemplate : Template Unit := ⟨.of "Keeper" [], keeper⟩

/-- The output at a position of its circuit, as a later build mentions it. -/
def kept (position : ℕ) : Signal :=
  { uid := 4 + position, path := s!"main.f[{position - 1}]", kind := .declared .output,
    field := ⟨97, by norm_num⟩, component := "main", source := .earlier position }

example :
    ∃ c, (compile { prime := .int 97 } keeperTemplate () []).result = .ok c ∧
      ∀ i ∈ [1, 2, 5], c.signals[i]? = some { kept i with source := .own } :=
  exists_ok (by decide +kernel)

open Build in
/-- An output that copies a kept signal from beyond the witness. -/
def reaching : Build Unit Unit := do
  assign (← signal .output "a") (.ofSignal (kept 5))

def reachingTemplate : Template Unit := ⟨.of "Reaching" [], reaching⟩

end RankOne
