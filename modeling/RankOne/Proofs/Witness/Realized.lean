/-
  RankOne — what circuits say and compute, by what they realize.

  * `Coherent.satisfied_iff`: a vector satisfies the rows iff all statements hold;
  * `Realizes.sound`: what follows from satisfied rows;
  * `Solves.computes`: a solution of the rules has what the statements compute;
  * `Realizes.evaluate`: evaluation returns a witness, or stops at a row, and then what
    the statements need does not hold.
-/
import RankOne.Proofs.Circuit.Preservation
import RankOne.Proofs.Circuit.Realized
import RankOne.Proofs.Witness.Solution

namespace RankOne

/-! ## Rows and statements -/

theorem Expr.Canonical.formed {f : PrimeField} {e : Expr} (h : e.Canonical f) : e.Formed f where
  quadratic := ⟨h.field, h.distinct, fun p hp =>
    ⟨(h.factors p hp).1.isLinear, (h.factors p hp).2.isLinear⟩⟩
  degree := by have := h.degree; omega
  constant := fun hd => ⟨h.constant hd, h.products (by omega)⟩

namespace Statement.Proper

variable {c : Circuit} {st : Statement}

theorem own (h : st.Proper c.field {s | s ∈ c.signals}) : st.Own c :=
  ⟨fun e he => (h.exprs e he).isOver, h.target⟩

theorem formed {f : PrimeField} {S : Set Signal} (h : st.Proper f S) : st.Formed f := by
  cases st with
  | assign => trivial
  | hint => trivial
  | constrain origin l r =>
    exact ⟨(h.exprs l List.mem_cons_self).canonical.formed,
      (h.exprs r (List.mem_cons_of_mem _ List.mem_cons_self)).canonical.formed⟩

end Statement.Proper

namespace Circuit

variable {c : Circuit} {sts : List Statement} {w : Array Int}

theorem Coherent.holds_iff_sat (hc : c.Coherent sts) (hw : w.size = c.system.signals)
    {st : Statement} (hown : st.Own c) : st.Holds c w ↔ st.Sat (c.element w) := by
  cases st with
  | assign => exact hc.holds_assign hw hown
  | constrain => exact hc.holds_constrain hw hown
  | hint => exact Iff.rfl

/-- **A vector satisfies the rows of a circuit iff all statements hold.** -/
theorem Coherent.satisfied_iff (hc : c.Coherent sts)
    (hproper : ∀ st ∈ sts, st.Proper c.field {s | s ∈ c.signals}) (hw : c.Fits w) :
    c.system.unsatisfiedRows w = .ok [] ↔ ∀ st ∈ sts, st.Sat (c.element w) := by
  obtain ⟨index, hi, hrows⟩ := hc.rows
  have hown : ∀ st ∈ sts, st.Own c := fun st hst => (hproper st hst).own
  have hform : ∀ st ∈ sts, st.Formed c.field := fun st hst => (hproper st hst).formed
  rw [hc.unsatisfiedRows_eq_nil hown hw]
  constructor
  · intro hall st hst
    refine (hc.holds_iff_sat hw.size (hown st hst)).1 ?_
    by_cases he : st.emitsRow = true
    · obtain ⟨k, hk⟩ := List.mem_iff_getElem?.1 (List.mem_filter.2 ⟨hst, he⟩)
      obtain ⟨r, hr, row, hrow, hlow⟩ := forall₂_getElem? hrows.flip hk
      exact (hc.row_holds hw hi (hown st hst) (hform st hst) hrow hlow).1
        (hall r (List.mem_of_getElem? hr))
    · exact hc.holds_of_not_emitsRow hw (hown st hst) (hform st hst) (hc.accepted st hst)
        (Bool.eq_false_of_not_eq_true he)
  · intro hall r hr
    obtain ⟨st, hst, row, hrow, hlow⟩ := forall₂_mem_right hrows hr
    have hst := List.mem_of_mem_filter hst
    exact (hc.row_holds hw hi (hown st hst) (hform st hst) hrow hlow).2
      ((hc.holds_iff_sat hw.size (hown st hst)).2 (hall st hst))

/-- The element of a field that a vector has for a signal. -/
def elementIn (c : Circuit) (f : PrimeField) (w : Array Int) (s : Signal) : ZMod f.p :=
  c.reading w s

variable {f : PrimeField} {ins outs : List Declaration} {Pre Post : (Signal → ZMod f.p) → Prop}

/-- **What follows from satisfied rows.** -/
theorem Realizes.sound (h : c.Realizes f ins outs Pre Post) (hw : c.Fits w)
    (hrows : c.system.unsatisfiedRows w = .ok []) : Post (c.elementIn f w) := by
  obtain ⟨-, sts, ⟨-, hc, hproper⟩, hmeans⟩ := h.statements
  obtain rfl := h.field
  exact hmeans.sound _ (byUid_element c w) ((hc.satisfied_iff hproper hw).1 hrows)

end Circuit

/-! ## Evaluation -/

namespace Witness

variable {c : Circuit} {sts : List Statement} {inputs : Mapping} {v : Array ℕ}

/-- Evaluation on a vector gives the residue of the value. -/
theorem evaluate_val (hc : c.Coherent sts) (hv : (v.map Int.ofNat).size = c.system.signals)
    {e : Expr} (he : e.Over c.field {s | s ∈ c.signals}) {n : ℕ}
    (hn : e.evaluate (c.entry (v.map Int.ofNat)) = .ok n) :
    e.value (c.element (v.map Int.ofNat)) = n ∧
      (e.value (c.element (v.map Int.ofNat))).val = n := by
  obtain ⟨m, hm, hlt, hval⟩ := hc.evaluate hv he
  rw [hn] at hm
  cases hm
  rw [← hval, ZMod.val_natCast, Nat.mod_eq_of_lt hlt]
  exact ⟨rfl, rfl⟩

theorem element_of_getElem? {s : Signal} {n : ℕ} (h : v[c.place s]? = some n) :
    c.element (v.map Int.ofNat) s = n := by
  rw [Circuit.element, Circuit.reading, Array.getD_eq_getD_getElem?, Array.getElem?_map, h]
  simp

/-- **A solution of the rules has what the statements compute.** -/
theorem Solves.computes (hv : Solves c inputs [] v) (hc : c.Coherent sts)
    (hown : ∀ st ∈ sts, st.Own c) :
    ∀ st ∈ sts, st.Computes (c.element (v.map Int.ofNat)) := by
  intro st hst
  have hsize := hv.fits.size
  have hrule {r : Rule} (hr : st.rule? = some r) :
      ∃ n, Gives c v r n ∧ v[c.place r.target]? = some n :=
    hv.rule r (hc.rules.mem_iff.2 (List.mem_filterMap.2 ⟨st, hst, hr⟩)) rfl
  cases st with
  | constrain => trivial
  | assign origin target e =>
    obtain ⟨n, hgives, hn⟩ := hrule rfl
    have hval := evaluate_val hc hsize ((hown _ hst).exprs e List.mem_cons_self) hgives
    rw [Statement.Computes, element_of_getElem? hn, hval.1]
  | hint origin target h deps =>
    obtain ⟨n, ⟨args, m, hargs, hrun, rfl⟩, hn⟩ := hrule rfl
    refine ⟨m, ?_, ?_⟩
    · have heq : deps.map (fun e => (e.value (c.element (v.map Int.ofNat))).val) = args := by
        rw [← List.forall₂_eq_eq_eq, List.forall₂_map_left_iff]
        refine ((List.forall₂_and_left _ _).2
          ⟨fun e he => (hown _ hst).exprs e he, mapM_eq_ok.1 hargs⟩).imp ?_
        rintro e n ⟨he, hn⟩
        exact (evaluate_val hc hsize he hn).2
      rw [heq]
      exact hrun
    · rw [element_of_getElem? hn, PrimeField.cast_reduce]

/-- Hints that always answer do so in every run of the rules. -/
theorem hintsAnswer_of_proper {forced : List (ℕ × ℕ)} {rs : List Rule} {known : Known}
    (hc : c.Coherent sts) (hproper : ∀ st ∈ sts, st.Proper c.field {s | s ∈ c.signals})
    (hrs : ∀ r ∈ rs, r ∈ c.rules) : HintsAnswer c forced rs known := by
  rintro pre r post values h deps args rfl - - ha hargs
  have hr := hrs r (List.mem_append_right pre List.mem_cons_self)
  rcases hc.rule_cases hr with ⟨e, -, ha'⟩ | ⟨h', deps', hst, ha'⟩
  · rw [ha] at ha'
    cases ha'
  · rw [ha] at ha'
    cases ha'
    exact (hproper _ hst).answers _ _ _ _ rfl args (mapM_eq_ok.1 hargs).length_eq.symm

theorem shallow_of_proper (hc : c.Coherent sts)
    (hproper : ∀ st ∈ sts, st.Proper c.field {s | s ∈ c.signals}) :
    ∀ r ∈ c.rules, ∀ e ∈ r.exprs, e.Shallow := by
  intro r hr e he p hp
  have hcanonical : e.Canonical c.field := by
    rcases hc.rule_cases hr with ⟨x, hst, ha⟩ | ⟨h, deps, hst, ha⟩ <;> rw [Rule.exprs, ha] at he
    · exact ((hproper _ hst).exprs e he).canonical
    · exact ((hproper _ hst).exprs e he).canonical
  exact ⟨(hcanonical.factors p hp).1.products_eq, (hcanonical.factors p hp).2.products_eq⟩

end Witness

open Witness in
/-- **Evaluation returns a witness, or stops at a row**, and then what the statements need
    does not hold. -/
theorem Circuit.Realizes.evaluate {c : Circuit} {f : PrimeField} {ins outs : List Declaration}
    {Pre Post : (Signal → ZMod f.p) → Prop} (h : c.Realizes f ins outs Pre Post)
    {inputs : Mapping} {known : Known} (hload : loadInputs c inputs (initial c) = .ok known) :
    ∃ v : Array ℕ, Solves c inputs [] v ∧
      (Witness.evaluate c inputs [] = .ok ⟨c, v⟩ ∧ Post (c.elementIn f (v.map Int.ofNat)) ∨
        ¬ Pre (c.elementIn f (v.map Int.ofNat)) ∧
          ∃ e : Error, Witness.evaluate c inputs [] = .error e ∧ e.kind = .unsatisfied) := by
  obtain ⟨-, sts, ⟨-, hc, hproper⟩, hmeans⟩ := h.statements
  obtain rfl := h.field
  have hown : ∀ st ∈ sts, st.Own c := fun st hst => (hproper st hst).own
  obtain ⟨hsize, -⟩ := loadInputs_spec hc hload
  have hhints : HintsAnswer c [] c.rules known := hintsAnswer_of_proper hc hproper fun _ hr => hr
  obtain ⟨final, hfinal⟩ := runRules_ok hc hown (shallow_of_proper hc hproper)
    (fun _ hr => hr) hc.respects hsize (known_of_no_rule hc hload (.refl _)) hhints
  have hres : resolveOverrides c [] = .ok [] := rfl
  have hv := solves_of_runRules hc hown hload hres (.refl _) hfinal
  have heval := evaluate_eq_verify hload hres hfinal
  refine ⟨complete final, hv, ?_⟩
  by_cases hrows : c.system.unsatisfiedRows ((complete final).map Int.ofNat) = .ok []
  · refine Or.inl ⟨?_, h.sound hv.fits hrows⟩
    rw [heval, verify, hrows]
    rfl
  · refine Or.inr ⟨fun hpre => hrows ((hc.satisfied_iff hproper hv.fits).2 ?_), ?_⟩
    · exact hmeans.complete _ (Circuit.byUid_element c _) (hv.computes hc hown) hpre
    · obtain ⟨bad, hbad, -, hmem⟩ := hc.unsatisfiedRows hown hv.fits
      cases bad with
      | nil => exact absurd hbad hrows
      | cons row rest =>
        obtain ⟨r, hr, -⟩ := (hmem row).1 List.mem_cons_self
        rw [heval, verify_of_violated hbad hr]
        exact ⟨_, rfl, rfl⟩

end RankOne
