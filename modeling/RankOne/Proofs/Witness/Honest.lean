/-
  RankOne — honest computation violates no assignment.

  * `Circuit.EmittedBy`: the statement that emitted a row;
  * `Excused`: the statements whose rows an honest computation may violate:
    equalities, and assignments to overridden signals;
  * `Solves.assign_holds`: a solution has what is assigned to every signal that is
    not overridden;
  * `violated_rows_excused`: whatever rows a computed vector violates were emitted
    by such statements.
-/
import RankOne.Proofs.Witness.Solution

namespace RankOne

/-- Row `k` of a circuit is the one that a statement emitted: the `k`-th among the
    statements that emit one, over witness positions. -/
structure Circuit.EmittedBy (c : Circuit) (sts : List Statement) (k : ℕ) (st : Statement) :
    Prop where
  nth : (sts.filter Statement.emitsRow)[k]? = some st
  row : ∃ index r row, (∀ s ∈ c.signals, index s = .ok (c.place s : Int)) ∧
    c.system.constraints[k]? = some r ∧ st.Emits row ∧ r.Lowers index row

/-- Every row was emitted by a statement. -/
theorem Circuit.Coherent.emittedBy {c : Circuit} {sts : List Statement} (hc : c.Coherent sts)
    {k : ℕ} {r : Constraint} (hk : c.system.constraints[k]? = some r) :
    ∃ st, c.EmittedBy sts k st := by
  obtain ⟨index, hi, hrows⟩ := hc.rows
  obtain ⟨st, hst, row, hrow, hlow⟩ := forall₂_getElem? hrows hk
  exact ⟨st, hst, index, r, row, hi, hk, hrow, hlow⟩

namespace Witness

/-- A statement whose row an honest computation may violate. -/
inductive Excused (c : Circuit) (overrides : Mapping) : Statement → Prop
  | constrain {origin : String} {l r : Expr} : Excused c overrides (.constrain origin l r)
  | assign {origin : String} {target : Signal} {e : Expr} {p : String × Value} :
      p ∈ overrides → c.signal? p.1 = some target → Excused c overrides (.assign origin target e)

section
variable {c : Circuit} {sts : List Statement} {inputs overrides : Mapping} {v : Array ℕ}

theorem override?_eq_some {s : Signal} {p : String × Value} (h : override? c overrides s = some p) :
    p ∈ overrides ∧ c.signal? p.1 = some s := by
  have hp := List.find?_some h
  exact ⟨List.mem_reverse.1 (List.mem_of_find?_eq_some h), beq_iff_eq.1 hp⟩

/-- What is computed solves the rules. -/
theorem solves_of_compute (hc : c.Coherent sts) (hown : ∀ st ∈ sts, st.Own c)
    (h : compute c inputs overrides = .ok v) : Solves c inputs overrides v := by
  obtain ⟨known, hload, h⟩ := bind_eq_ok.1 h
  obtain ⟨forced, hres, h⟩ := bind_eq_ok.1 h
  obtain ⟨final, hfinal, h⟩ := bind_eq_ok.1 h
  cases h
  exact solves_of_runRules hc hown hload hres (.refl _) hfinal

/-- A solution has what is assigned to a signal that is not overridden. -/
theorem Solves.assign_holds (hv : Solves c inputs overrides v) (hc : c.Coherent sts)
    {origin : String} {target : Signal} {e : Expr} (hst : .assign origin target e ∈ sts)
    (htarget : target ∈ c.signals)
    (ho : override? c overrides target = none) :
    (Statement.assign origin target e).Holds c (v.map Int.ofNat) := by
  have hr : { target, action := .assign e, origin } ∈ c.rules :=
    hc.rules.mem_iff.2 (List.mem_filterMap.2 ⟨_, hst, rfl⟩)
  obtain ⟨n, hn, hvn⟩ := hv.rule _ hr ho
  have hentry : c.entry (v.map Int.ofNat) target = .ok (n : Int) := by
    rw [Circuit.entry, hc.index_eq htarget]
    refine elementAt_natCast.2 ?_
    rw [Array.getElem?_map, hvn]
    rfl
  have heval : e.evaluate (c.entry (v.map Int.ofNat)) = .ok n := hn
  rw [Statement.Holds, hentry, heval]
  exact Int.ModEq.refl _

/-- **A row that a solution violates is excused.** -/
theorem Solves.excused (hv : Solves c inputs overrides v) (hc : c.Coherent sts)
    (hown : ∀ st ∈ sts, st.Own c) {k : ℕ} {q : Constraint} {st : Statement}
    (hk : c.system.constraints[k]? = some q)
    (hq : q.isSatisfied (v.map Int.ofNat) c.system.prime = .ok false)
    (hst : c.EmittedBy sts k st) : Excused c overrides st := by
  obtain ⟨index, r, row, hi, hr, hrow, hlow⟩ := hst.row
  obtain rfl := Option.some.inj (hk.symm.trans hr)
  have hmem := List.mem_of_mem_filter (List.mem_of_getElem? hst.nth)
  cases hrow with
  | constrain => exact .constrain
  | @assign origin target e a b c' h =>
    cases ho : override? c overrides target with
    | some p => exact .assign (override?_eq_some ho).1 (override?_eq_some ho).2
    | none =>
      -- the expression that was evaluated is the one that was lowered
      have hholds := (hc.holds_assign hv.fits.size (hown _ hmem)).1 (hv.assign_holds hc hmem ((hown _ hmem).target target rfl) ho)
      obtain ⟨ok, hok, hiff⟩ := hc.assign_row hv.fits hi (hown _ hmem) (.assign h) hlow
      rw [hok, hiff.2 hholds] at hq
      cases hq

/-- The row that the check names is violated. -/
theorem mem_of_verify_eq_error {bad : List ℕ}
    (hbad : c.system.unsatisfiedRows (v.map Int.ofNat) = .ok bad)
    (hrows : ∀ k ∈ bad, ∃ r, c.system.constraints[k]? = some r) {row count : ℕ} {origin : String}
    {values : List (String × Int)}
    (h : verify c v = .error (.unsatisfied row origin count values)) : row ∈ bad := by
  cases bad with
  | nil => rw [verify, hbad] at h; cases h
  | cons first rest =>
    obtain ⟨r, hr⟩ := hrows first List.mem_cons_self
    rw [verify_of_violated hbad hr] at h
    cases h
    exact List.mem_cons_self

end

/-! ## Compiled circuits -/

/-- **Honest computation violates no assignment.**  When the rules have run, every
    row that the vector violates was emitted by an equality or by an assignment to
    an overridden signal; without overrides, the row that the evaluator names was
    emitted by an equality. -/
theorem violated_rows_excused {σ : Type} {settings : Settings} {t : Template σ} {host : σ}
    {public_ : List String} {c : Circuit} (h : OwnCompilation settings t host public_ c)
    {inputs overrides : Mapping} {v : Array ℕ} (hrun : compute c inputs overrides = .ok v) :
    ∃ bad, c.system.unsatisfiedRows (v.map Int.ofNat) = .ok bad ∧
      (∀ k ∈ bad, ∃ st, c.EmittedBy (executed settings t host) k st ∧ Excused c overrides st) ∧
      (overrides = [] → ∀ row origin count values,
        evaluate c inputs overrides = .error (.unsatisfied row origin count values) →
        ∃ origin l r, c.EmittedBy (executed settings t host) row (.constrain origin l r)) := by
  have hc := h.coherent
  have hv := solves_of_compute hc h.own hrun
  obtain ⟨bad, hbad, -, hmem⟩ := hc.unsatisfiedRows h.own hv.fits
  have hexcused : ∀ k ∈ bad,
      ∃ st, c.EmittedBy (executed settings t host) k st ∧ Excused c overrides st := by
    intro k hk
    obtain ⟨r, hr, hf⟩ := (hmem k).1 hk
    obtain ⟨st, hst⟩ := hc.emittedBy hr
    exact ⟨st, hst, hv.excused hc h.own hr hf hst⟩
  refine ⟨bad, hbad, hexcused, ?_⟩
  rintro rfl row origin count values heval
  have hverify : verify c v = .error (.unsatisfied row origin count values) := by
    rw [evaluate, hrun] at heval
    change verify c v >>= _ = _ at heval
    cases hverify : verify c v with
    | ok => rw [hverify] at heval; cases heval
    | error e => rw [hverify] at heval; cases heval; rfl
  have hrow : row ∈ bad :=
    mem_of_verify_eq_error hbad (fun k hk => ((hmem k).1 hk).imp fun _ => And.left) hverify
  obtain ⟨st, hst, hex⟩ := hexcused row hrow
  cases hex with
  | constrain => exact ⟨_, _, _, hst⟩
  | assign hp => cases hp

/-- The zero test of three modulo seven with its output overridden: the row of the
    overridden assignment and the equality are violated. -/
theorem isZero_violated_rows_excused :
    ∃ c, (compile { prime := .int 7 } Gadget.isZeroTemplate () []).result = .ok c ∧
      c.system.unsatisfiedRows (#[1, 4, 3, 5].map Int.ofNat) = .ok [0, 1] ∧
      ∀ k ∈ [0, 1], ∃ st,
        c.EmittedBy (executed { prime := .int 7 } Gadget.isZeroTemplate ()) k st ∧
          Excused c [("out", .int 4)] st := by
  obtain ⟨c, hc, hown, hrun, hbad⟩ := exists_ok
    (x := (compile { prime := .int 7 } Gadget.isZeroTemplate () []).result)
    (P := fun c =>
      (∀ st ∈ executed { prime := .int 7 } Gadget.isZeroTemplate (), st.Own c) ∧
      compute c [("in", .int 3)] [("out", .int 4)] = .ok #[1, 4, 3, 5] ∧
      c.system.unsatisfiedRows (#[1, 4, 3, 5].map Int.ofNat) = .ok [0, 1])
    (by decide +kernel)
  obtain ⟨bad, hbad', hex, -⟩ := violated_rows_excused ⟨hc, hown⟩ hrun
  obtain rfl : bad = [0, 1] := Except.ok.inj (hbad'.symm.trans hbad)
  exact ⟨c, hc, hbad, hex⟩

open Build in
/-- An output that is computed, and a kept one at the same position. -/
def overwritten : Build Unit Unit := do
  let a ← signal .output "a"
  assign a (← const 5)
  assign (kept 1) (← const 6)

def overwrittenTemplate : Template Unit := ⟨.of "Overwritten" [], overwritten⟩

/-- The rule of the kept output overwrites the first value, so the row of an assignment
    is violated although no signal is overridden and nothing is constrained. -/
theorem kept_target_violates_assignment :
    ∃ c, (compile { prime := .int 97 } overwrittenTemplate () []).result = .ok c ∧
      c.system.signals = 2 ∧ c.system.constraints =
        [⟨⟨[]⟩, ⟨[]⟩, ⟨[(0, 92), (1, 1)]⟩, "main"⟩, ⟨⟨[]⟩, ⟨[]⟩, ⟨[(0, 91), (1, 1)]⟩, "main"⟩] ∧
      (∀ st ∈ executed { prime := .int 97 } overwrittenTemplate (), st.target?.isSome) ∧
      compute c [] [] = .ok #[1, 6] ∧
      c.system.unsatisfiedRows (#[1, 6].map Int.ofNat) = .ok [0] ∧
      failure (evaluate c [] []) = some .unsatisfied :=
  exists_ok (by decide +kernel)

end Witness

end RankOne
