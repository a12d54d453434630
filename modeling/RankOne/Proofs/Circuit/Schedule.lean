/-
  RankOne — the order in which rules run is the least one.

  * `arrange_least`: picking the first rule that waits for no other gives the order
    that comes first among all that respect what the rules read, by the numbers of
    their targets;
  * `arrange_stuck`: where picking stops early, the rules that are left all wait for
    each other;
  * `evaluationOrder_exact`: rules have no order exactly when they form a cycle, and
    then a cycle is reported; otherwise they run in the least order, however they
    were stated.
-/
import RankOne.Proofs.Circuit.Cycle

namespace RankOne.Order

section
variable {rules rs rest pending : List Rule} {q r : Rule}

/-! ## Rules by target -/

/-- Rules stand in the order in which their targets were declared. -/
def ByTarget (rs : List Rule) : Prop := rs.Pairwise fun q r => q.target.uid ≤ r.target.uid

theorem ByTarget.insertRule (r : Rule) (h : ByTarget rs) : ByTarget (insertRule r rs) := by
  induction rs with
  | nil => exact List.pairwise_singleton _ r
  | cons q qs ih =>
    obtain ⟨hq, hqs⟩ := List.pairwise_cons.1 h
    rw [Order.insertRule]
    split_ifs with hle
    · refine List.pairwise_cons.2 ⟨List.forall_mem_cons.2 ⟨hle, fun x hx => ?_⟩, h⟩
      exact le_trans hle (hq x hx)
    · refine List.pairwise_cons.2 ⟨fun x hx => ?_, ih hqs⟩
      rcases List.mem_cons.1 ((insertRule_perm r qs).subset hx) with rfl | hx
      · exact le_of_not_ge hle
      · exact hq x hx

theorem byTarget_sorted (rules : List Rule) : ByTarget (byTarget rules) := by
  induction rules with
  | nil => exact List.Pairwise.nil
  | cons r rs ih => exact ih.insertRule r

/-- The order by target does not depend on the order of statement. -/
theorem byTarget_eq_of_perm {rules' : List Rule} (hsingle : (rules.map (·.target.uid)).Nodup)
    (h : rules'.Perm rules) : byTarget rules' = byTarget rules := by
  have hperm : (byTarget rules').Perm (byTarget rules) :=
    ((byTarget_perm rules').trans h).trans (byTarget_perm rules).symm
  refine hperm.eq_of_pairwise (fun q r hq hr hqr hrq => ?_) (byTarget_sorted _) (byTarget_sorted _)
  have hq : q ∈ rules := h.subset ((byTarget_perm rules').subset hq)
  have hr : r ∈ rules := (byTarget_perm rules).subset hr
  exact eq_of_target hsingle hq hr (le_antisymm hqr hrq)

/-! ## Picking the next rule -/

theorem blocker?_eq_none_iff : blocker? pending r = none ↔ ∀ q ∈ pending, ¬ Feeds q r := by
  constructor
  · rintro h q hq ⟨s, hs, hu⟩
    exact blocker?_eq_none h s hs q hq hu.symm
  · intro h
    refine List.findSome?_eq_none_iff.2 fun s hs => List.find?_eq_none.2 fun q hq hsame => ?_
    exact h q hq ⟨s, hs, (Signal.same_iff.1 hsame).symm⟩

/-- The rule that is picked is the first of those that wait for no pending one. -/
theorem pick_first (h : pick pending rs = some (r, rest)) (hs : ByTarget rs) :
    ByTarget rest ∧ ∀ q ∈ rs, blocker? pending q = none → r.target.uid ≤ q.target.uid := by
  induction rs generalizing rest with
  | nil => cases h
  | cons x rs ih =>
    obtain ⟨hx, hrs⟩ := List.pairwise_cons.1 hs
    rw [pick] at h
    split_ifs at h with hb
    · cases h
      exact ⟨hrs, List.forall_mem_cons.2 ⟨fun _ => le_refl _, fun q hq _ => hx q hq⟩⟩
    · obtain ⟨⟨n, rest'⟩, hp, heq⟩ := Option.map_eq_some_iff.1 h
      cases heq
      obtain ⟨hrest, hfirst⟩ := ih hp hrs
      obtain ⟨-, hperm⟩ := pick_eq_some hp
      refine ⟨List.pairwise_cons.2 ⟨fun q hq => ?_, hrest⟩, List.forall_mem_cons.2 ⟨?_, hfirst⟩⟩
      · exact hx q (hperm.subset (List.mem_cons_of_mem r hq))
      · exact fun hnone => absurd (Option.isNone_iff_eq_none.2 hnone) hb

theorem pick_eq_none (h : pick pending rs = none) : ∀ r ∈ rs, blocker? pending r ≠ none := by
  induction rs with
  | nil => simp
  | cons x rs ih =>
    rw [pick] at h
    split_ifs at h with hb
    refine List.forall_mem_cons.2 ⟨fun hnone => hb (Option.isNone_iff_eq_none.2 hnone), ih ?_⟩
    exact Option.map_eq_none_iff.1 h

/-! ## Picking all rules -/

/-- Where picking stops early, every rule that is left is fed by one that is left. -/
theorem arrange_stuck : ∀ (fuel : ℕ) (pending : List Rule), pending.length ≤ fuel →
    ∀ r ∈ (arrange fuel pending).2, ∃ q ∈ (arrange fuel pending).2, Feeds q r
  | 0, pending, hfuel, r, hr => by
    rw [List.length_eq_zero_iff.1 (Nat.le_zero.1 hfuel)] at hr
    cases hr
  | fuel + 1, pending, hfuel, r, hr => by
    rw [arrange] at hr ⊢
    split at hr
    · next x rest hn =>
      obtain ⟨-, hperm⟩ := pick_eq_some hn
      have hlen := hperm.length_eq
      rw [List.length_cons] at hlen
      exact arrange_stuck fuel rest (by omega) r hr
    · next hn =>
      have hblocked := pick_eq_none hn r hr
      rw [Ne, blocker?_eq_none_iff] at hblocked
      push Not at hblocked
      exact hblocked

/-- **Picking the first rule that waits for no other gives the least order.** -/
theorem arrange_least : ∀ (fuel : ℕ) (pending : List Rule),
    (pending.map (·.target.uid)).Nodup → ByTarget pending → (arrange fuel pending).2 = [] →
    ∀ other : List Rule, other.Perm pending → Respects other →
      (arrange fuel pending).1 = other ∨ List.Lex (· < ·)
        ((arrange fuel pending).1.map (·.target.uid)) (other.map (·.target.uid))
  | 0, pending, _, _, hleft, other, hperm, _ => by
    rw [show pending = [] from hleft] at hperm
    exact Or.inl (List.perm_nil.1 hperm).symm
  | fuel + 1, pending, hsingle, hsorted, hleft, other, hperm, hresp => by
    rw [arrange] at hleft ⊢
    split at hleft
    · next r rest hn =>
      obtain ⟨-, hpick⟩ := pick_eq_some hn
      obtain ⟨hrest, hfirst⟩ := pick_first hn hsorted
      have hr : r ∈ pending := hpick.subset List.mem_cons_self
      cases other with
      | nil =>
        rw [List.nil_perm.1 hperm] at hr
        cases hr
      | cons q qs =>
        -- the first rule of the other order waits for no pending one either
        obtain ⟨hq, hqs⟩ := respects_cons.1 hresp
        have hready : blocker? pending q = none :=
          blocker?_eq_none_iff.2 fun x hx => hq x (hperm.symm.subset hx)
        have hmem : q ∈ pending := hperm.subset List.mem_cons_self
        rcases lt_or_eq_of_le (hfirst q hmem hready) with hlt | heq
        · exact Or.inr (.rel hlt)
        · obtain rfl := eq_of_target hsingle hr hmem heq
          have hsingle' : (rest.map (·.target.uid)).Nodup :=
            (List.nodup_cons.1 ((hpick.map _).nodup_iff.2 hsingle)).2
          have hperm' : qs.Perm rest := (List.perm_cons r).1 (hperm.trans hpick.symm)
          refine (arrange_least fuel rest hsingle' hrest hleft qs hperm' hqs).imp ?_ ?_
          · exact fun h => by rw [← h]
          · exact fun h => .cons h
    · rw [show pending = [] from hleft] at hperm
      exact Or.inl (List.perm_nil.1 hperm).symm

end

/-! ## The report of a cycle -/

/-- The text starts at another place of the same circle. -/
theorem fromSmallest_eq_rotate (xs : List String) : ∃ k, fromSmallest xs = xs.rotate k := by
  unfold fromSmallest
  dsimp only
  generalize xs.foldl (fun m x => if x < m then x else m) (xs.headD "") = least
  refine ⟨(xs.takeWhile (· ≠ least)).length, ?_⟩
  rw [← List.rotate_append_length_eq, List.takeWhile_append_dropWhile]

section
variable {rules order : List Rule}

/-- The order in which rules run comes from those by target. -/
theorem evaluationOrder_eq_ok (h : evaluationOrder rules = .ok order) :
    arrange (byTarget rules).length (byTarget rules) = (order, []) := by
  unfold evaluationOrder at h
  dsimp only at h
  split at h
  · next horder => cases h; exact horder
  · cases h

/-- A failure names a cycle of the rules. -/
theorem evaluationOrder_eq_error (hsingle : (rules.map (·.target.uid)).Nodup) {e : Error}
    (h : evaluationOrder rules = .error e) :
    ∃ cycle, IsCycle rules cycle ∧ e = .cycle (cycle.map (·.target.path)) := by
  unfold evaluationOrder at h
  dsimp only at h
  split at h
  · cases h
  · next picked left more hstuck =>
    cases h
    rcases findCycle_spec hsingle with hcycle | ⟨other, hperm, hresp⟩
    · obtain ⟨k, hk⟩ := fromSmallest_eq_rotate ((findCycle rules).map (·.target.path))
      exact ⟨(findCycle rules).rotate k, hcycle.rotate k, by rw [hk, List.map_rotate]⟩
    · -- the rules that are left all wait for each other, so there is no order
      have hfed := arrange_stuck _ (byTarget rules) le_rfl
      have hleft := (arrange_spec (byTarget rules).length (byTarget rules)).1
      rw [hstuck] at hfed hleft
      have hnil : left :: more = [] := by
        refine hresp.eq_nil_of_fed (fun r hr => ?_) hfed
        have hr : r ∈ byTarget rules := hleft.subset (List.mem_append_right picked hr)
        exact hperm.symm.subset ((byTarget_perm rules).subset hr)
      cases hnil

/-- **The order in which rules run.**  Rules of different signals have no order
    exactly when some of them form a cycle, and then the paths that are reported are
    those of a cycle.  Otherwise all of them run once, each after the rules of the
    signals that it reads, in the least of all such orders by the numbers of their
    targets; the order in which they were stated does not matter. -/
theorem evaluationOrder_exact (hsingle : (rules.map (·.target.uid)).Nodup) :
    ((∃ e, evaluationOrder rules = .error e) ↔
      ∃ r ∈ rules, Relation.TransGen (Linked rules) r r) ∧
    (∀ e, evaluationOrder rules = .error e → e.kind = .cyclic ∧
      ∃ cycle, IsCycle rules cycle ∧ e = .cycle (cycle.map (·.target.path))) ∧
    ∀ order, evaluationOrder rules = .ok order → order.Perm rules ∧ Respects order ∧
      (∀ other : List Rule, other.Perm rules → Respects other → order = other ∨
        List.Lex (· < ·) (order.map (·.target.uid)) (other.map (·.target.uid))) ∧
      ∀ rules' : List Rule, rules'.Perm rules → evaluationOrder rules' = .ok order := by
  refine ⟨⟨?_, ?_⟩, fun e he => ?_, fun order hord => ?_⟩
  · rintro ⟨e, he⟩
    obtain ⟨cycle, hcycle, -⟩ := evaluationOrder_eq_error hsingle he
    exact hcycle.transGen
  · rintro ⟨r, -, hway⟩
    cases hord : evaluationOrder rules with
    | error e => exact ⟨e, rfl⟩
    | ok order =>
      obtain ⟨hperm, hresp⟩ := evaluationOrder_spec hord
      have hlinked : Linked rules = Linked order := by
        funext q r
        rw [Linked, Linked, hperm.mem_iff, hperm.mem_iff]
      rw [hlinked] at hway
      exact absurd hway (hresp.acyclic r)
  · obtain ⟨cycle, hcycle, rfl⟩ := evaluationOrder_eq_error hsingle he
    exact ⟨rfl, cycle, hcycle, rfl⟩
  · obtain ⟨hperm, hresp⟩ := evaluationOrder_spec hord
    have harr := evaluationOrder_eq_ok hord
    refine ⟨hperm, hresp, fun other hother hresp' => ?_, fun rules' hrules' => ?_⟩
    · have hsingle' : ((byTarget rules).map (·.target.uid)).Nodup :=
        ((byTarget_perm rules).map _).nodup_iff.2 hsingle
      have hleast := arrange_least _ (byTarget rules) hsingle' (byTarget_sorted rules)
        (by rw [harr]) other (hother.trans (byTarget_perm rules).symm) hresp'
      rw [harr] at hleast
      exact hleast
    · unfold evaluationOrder
      dsimp only
      rw [byTarget_eq_of_perm hsingle hrules', harr]

end

/-- A signal named by its number. -/
def wire (n : ℕ) : Signal :=
  ⟨n, s!"main.w{n}", .declared .intermediate, .goldilocks, "main", .own⟩

/-- The rule that computes one signal from another. -/
def copy (target source : ℕ) : Rule := ⟨wire target, .assign (.ofSignal (wire source)), "main"⟩

/-- A rule that waits runs last although its target was declared first, and two
    rules that read each other are reported. -/
theorem copies_run_in_least_order :
    (∃ order, evaluationOrder [copy 2 4, copy 4 1, copy 3 1] = .ok order ∧
      order.map (·.target.uid) = [3, 4, 2] ∧
      ∀ other : List Rule, other.Perm [copy 2 4, copy 4 1, copy 3 1] → Respects other →
        order = other ∨ List.Lex (· < ·) [3, 4, 2] (other.map (·.target.uid))) ∧
    ∃ cycle, IsCycle [copy 2 3, copy 3 2] cycle ∧
      cycle.map (·.target.path) = ["main.w2", "main.w3"] := by
  have horder : evaluationOrder [copy 2 4, copy 4 1, copy 3 1] =
      .ok [copy 3 1, copy 4 1, copy 2 4] := rfl
  have herror : evaluationOrder [copy 2 3, copy 3 2] = .error (.cycle ["main.w2", "main.w3"]) := by
    rfl
  obtain ⟨-, -, hleast, -⟩ := (evaluationOrder_exact (by decide)).2.2 _ horder
  obtain ⟨-, cycle, hcycle, hpaths⟩ := (evaluationOrder_exact (by decide)).2.1 _ herror
  exact ⟨⟨_, horder, rfl, hleast⟩, cycle, hcycle, (Error.cycle.inj hpaths).symm⟩

end RankOne.Order
