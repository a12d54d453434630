/-
  RankOne — rules that wait for each other.

  * `Order.Feeds`: a rule computes a signal that another one reads;
  * `Order.IsCycle`: rules in a circle, each feeding the next;
  * `Respects.acyclic`: rules that stand in an order that respects what they read
    form no cycle, and a set of rules that all wait for each other excludes such
    an order;
  * `findCycle_spec`: the search along readers finds a cycle, or an order that
    respects what the rules read.
-/
import Mathlib.Data.List.Cycle
import Mathlib.Logic.Relation
import RankOne.Proofs.Circuit.Order

namespace RankOne.Order

/-- A rule computes a signal that another one reads. -/
def Feeds (q r : Rule) : Prop := ∃ s ∈ r.reads, s.uid = q.target.uid

/-- One of some rules feeds another one of them, or itself. -/
def Linked (rules : List Rule) (q r : Rule) : Prop := q ∈ rules ∧ r ∈ rules ∧ Feeds q r

/-- Different rules in a circle, each feeding the next. -/
structure IsCycle (rules cycle : List Rule) : Prop where
  nonempty : cycle ≠ []
  subset : ∀ r ∈ cycle, r ∈ rules
  nodup : cycle.Nodup
  chain : (cycle : Cycle Rule).Chain Feeds

section
variable {rules rs cycle : List Rule} {q r : Rule}

/-- A circle can be entered anywhere. -/
theorem IsCycle.rotate (h : IsCycle rules cycle) (k : ℕ) : IsCycle rules (cycle.rotate k) where
  nonempty hnil := h.nonempty (List.rotate_eq_nil_iff.1 hnil)
  subset r hr := h.subset r (List.mem_rotate.1 hr)
  nodup := List.nodup_rotate.2 h.nodup
  chain := by
    rw [Cycle.coe_eq_coe.2 (List.IsRotated.forall cycle k)]
    exact h.chain

/-- Along a chain of rules, the first one is linked to the last one. -/
theorem transGen_of_isChain : ∀ {rs : List Rule} {q r : Rule},
    (∀ x ∈ q :: (rs ++ [r]), x ∈ rules) → List.IsChain Feeds (q :: (rs ++ [r])) →
      Relation.TransGen (Linked rules) q r
  | [], q, r, hmem, h => by
    have hfeeds : Feeds q r := List.isChain_pair.1 h
    exact .single ⟨hmem q (by simp), hmem r (by simp), hfeeds⟩
  | x :: rs, q, r, hmem, h => by
    obtain ⟨hfeeds, hrest⟩ := List.isChain_cons_cons.1 h
    refine .head ⟨hmem q (by simp), hmem x (by simp), hfeeds⟩ ?_
    exact transGen_of_isChain (fun y hy => hmem y (List.mem_cons_of_mem q hy)) hrest

/-- A cycle leads from a rule back to itself. -/
theorem IsCycle.transGen (h : IsCycle rules cycle) :
    ∃ r ∈ rules, Relation.TransGen (Linked rules) r r := by
  obtain ⟨hne, hsub, -, hchain⟩ := h
  cases cycle with
  | nil => exact absurd rfl hne
  | cons r rs =>
    have hr : r ∈ rules := hsub r List.mem_cons_self
    refine ⟨r, hr, transGen_of_isChain (fun x hx => ?_) ((Cycle.chain_coe_cons _ _ _).1 hchain)⟩
    simp only [List.mem_cons, List.mem_append, List.not_mem_nil, or_false] at hx
    rcases hx with rfl | hx | rfl
    · exact hr
    · exact hsub x (List.mem_cons_of_mem r hx)
    · exact hr

/-! ## Orders and cycles exclude each other -/

theorem respects_cons : Respects (r :: rs) ↔ (∀ q ∈ r :: rs, ¬ Feeds q r) ∧ Respects rs := by
  rw [Respects]
  refine and_congr_left fun _ => ⟨?_, ?_⟩
  · rintro h q hq ⟨s, hs, hu⟩
    exact h s hs q hq hu.symm
  · intro h s hs q hq hu
    exact h q hq ⟨s, hs, hu.symm⟩

/-- Rules that stand in an order that respects what they read form no cycle. -/
theorem Respects.acyclic : ∀ {rs : List Rule}, Respects rs →
    ∀ r, ¬ Relation.TransGen (Linked rs) r r
  | [], _, r, h => by
    obtain ⟨_, -, hlast⟩ := (Relation.TransGen.tail'_iff.1 h)
    exact absurd hlast.1 List.not_mem_nil
  | a :: rs, hresp, r, h => by
    obtain ⟨hfirst, hrest⟩ := respects_cons.1 hresp
    -- nothing feeds the first rule, so a way that ends at a later rule avoids it
    have hlater {x : Rule} (hx : x ∈ a :: rs) {y : Rule} (hy : Linked (a :: rs) y x) : x ∈ rs := by
      rcases List.mem_cons.1 hx with rfl | hx
      · exact absurd hy.2.2 (hfirst y hy.1)
      · exact hx
    have havoid : ∀ {q x : Rule}, q ∈ rs → Relation.TransGen (Linked (a :: rs)) q x →
        Relation.TransGen (Linked rs) q x := by
      intro q x hq hway
      have hend : x ∈ rs ∧ Relation.TransGen (Linked rs) q x := by
        induction hway with
        | single hl =>
          have hx := hlater hl.2.1 hl
          exact ⟨hx, .single ⟨hq, hx, hl.2.2⟩⟩
        | tail _ hl ih =>
          have hx := hlater hl.2.1 hl
          exact ⟨hx, ih.2.tail ⟨ih.1, hx, hl.2.2⟩⟩
      exact hend.2
    obtain ⟨y, -, hlast⟩ := Relation.TransGen.tail'_iff.1 h
    exact hrest.acyclic r (havoid (hlater hlast.2.1 hlast) h)

/-- Rules of which each is fed by another one, or by itself, cannot all stand in an
    order that respects what they read. -/
theorem Respects.eq_nil_of_fed {left : List Rule} : ∀ {order : List Rule}, Respects order →
    (∀ r ∈ left, r ∈ order) → (∀ r ∈ left, ∃ q ∈ left, Feeds q r) → left = []
  | [], _, hsub, _ => List.eq_nil_iff_forall_not_mem.2 fun r hr => List.not_mem_nil (hsub r hr)
  | a :: order, hresp, hsub, hfed => by
    obtain ⟨hfirst, hrest⟩ := respects_cons.1 hresp
    refine hrest.eq_nil_of_fed (fun r hr => ?_) hfed
    rcases List.mem_cons.1 (hsub r hr) with rfl | h
    · obtain ⟨q, hq, hfeeds⟩ := hfed r hr
      exact absurd hfeeds (hfirst q (hsub q hq))
    · exact h

end

/-! ## The search for a cycle -/

section
variable {rules trail settled qs : List Rule} {q r : Rule}

theorem mem_readers : q ∈ readers rules r ↔ q ∈ rules ∧ Feeds r q := by
  simp [readers, Feeds, Signal.same_iff]

theorem isAmong_iff : isAmong q qs = true ↔ ∃ t ∈ qs, t.target.uid = q.target.uid := by
  simp [isAmong, Signal.same_iff]

/-- The way of a search, the last rule first: each rule is fed by the one that
    stands after it. -/
structure Trail (rules trail : List Rule) : Prop where
  subset : ∀ t ∈ trail, t ∈ rules
  nodup : trail.Nodup
  chain : trail.IsChain fun r q => Feeds q r

/-- Rules from which no cycle can be reached, the last one first: the readers of a
    rule were settled before it. -/
def Settled (rules : List Rule) : List Rule → Prop
  | [] => True
  | r :: rs => r ∈ rules ∧ r ∉ rs ∧ (∀ q ∈ readers rules r, q ∈ rs) ∧ Settled rules rs

theorem Settled.mem_of_reads : ∀ {rs : List Rule}, Settled rules rs → q ∈ rs →
    ∀ r ∈ readers rules q, r ∈ rs
  | [], _, hq, _, _ => absurd hq List.not_mem_nil
  | r :: rs, ⟨_, _, hreaders, hrest⟩, hq, x, hx => by
    rcases List.mem_cons.1 hq with rfl | hq
    · exact List.mem_cons_of_mem _ (hreaders x hx)
    · exact List.mem_cons_of_mem _ (hrest.mem_of_reads hq x hx)

theorem Settled.nodup : ∀ {rs : List Rule}, Settled rules rs → rs.Nodup
  | [], _ => List.nodup_nil
  | _ :: _, ⟨_, hr, _, hrest⟩ => List.nodup_cons.2 ⟨hr, hrest.nodup⟩

theorem Settled.subset : ∀ {rs : List Rule}, Settled rules rs → ∀ r ∈ rs, r ∈ rules
  | [], _ => by simp
  | _ :: _, ⟨hr, _, _, hrest⟩ => List.forall_mem_cons.2 ⟨hr, hrest.subset⟩

/-- Settled rules stand in an order that respects what they read. -/
theorem Settled.respects : ∀ {rs : List Rule}, Settled rules rs → Respects rs
  | [], _ => trivial
  | r :: rs, ⟨hr, hfresh, hreaders, hrest⟩ => by
    refine respects_cons.2 ⟨fun q hq hfeeds => hfresh ?_, hrest.respects⟩
    -- a rule that feeds `r` has it among its readers, which are settled before it
    have hread : r ∈ readers rules q := mem_readers.2 ⟨hr, hfeeds⟩
    rcases List.mem_cons.1 hq with rfl | hq
    · exact hreaders _ hread
    · exact hrest.mem_of_reads hq r hread

/-- Settled rules off the way of the search. -/
structure Clear (rules trail done : List Rule) : Prop where
  settled : Settled rules done
  disjoint : ∀ s ∈ done, s ∉ trail

/-- What a search finds: a cycle, or that all rules of `qs` can be settled with
    those that were settled before. -/
def Searched (rules trail settled qs : List Rule) : Except (List Rule) (List Rule) → Prop
  | .error cycle => IsCycle rules cycle
  | .ok settled' => Clear rules trail settled' ∧ (∀ s ∈ settled, s ∈ settled') ∧
      ∀ q ∈ qs, q ∈ settled'

/-- A search from one rule after another. -/
theorem searched_foldlM {visit : List Rule → Rule → Except (List Rule) (List Rule)}
    (hvisit : ∀ q ∈ qs, ∀ acc, Clear rules trail acc → Searched rules trail acc [q] (visit acc q))
    (hclear : Clear rules trail settled) :
    Searched rules trail settled qs (qs.foldlM visit settled) := by
  induction qs generalizing settled with
  | nil => exact ⟨hclear, fun _ hs => hs, by simp⟩
  | cons q qs ih =>
    have hq := hvisit q List.mem_cons_self settled hclear
    rw [List.foldlM_cons]
    cases hv : visit settled q with
    | error cycle => rw [hv] at hq; exact hq
    | ok acc =>
      rw [hv] at hq
      obtain ⟨hacc, hkeep, hmem⟩ := hq
      have hrest := ih (fun x hx => hvisit x (List.mem_cons_of_mem q hx)) hacc
      change Searched rules trail settled (q :: qs) (qs.foldlM visit acc)
      cases hf : qs.foldlM visit acc with
      | error cycle => rw [hf] at hrest; exact hrest
      | ok settled' =>
        rw [hf] at hrest
        obtain ⟨hclear', hkeep', hmem'⟩ := hrest
        refine ⟨hclear', fun s hs => hkeep' s (hkeep s hs), List.forall_mem_cons.2 ⟨?_, hmem'⟩⟩
        exact hkeep' q (hmem q List.mem_cons_self)

/-- A rule is settled after its readers. -/
theorem Searched.settle {found : Except (List Rule) (List Rule)}
    (h : Searched rules (r :: trail) settled (readers rules r) found)
    (ht : Trail rules (r :: trail)) :
    Searched rules trail settled [r] (found >>= fun acc => .ok (r :: acc)) := by
  cases found with
  | error cycle => exact h
  | ok acc =>
    obtain ⟨hacc, hkeep, hread⟩ := h
    have hr : r ∈ rules := ht.subset r List.mem_cons_self
    have hnot : r ∉ acc := fun h => hacc.disjoint r h List.mem_cons_self
    refine ⟨⟨⟨hr, hnot, hread, hacc.settled⟩, List.forall_mem_cons.2 ⟨?_, ?_⟩⟩, ?_, by simp⟩
    · exact (List.nodup_cons.1 ht.nodup).1
    · exact fun s hs hmem => hacc.disjoint s hs (List.mem_cons_of_mem r hmem)
    · exact fun s hs => List.mem_cons_of_mem r (hkeep s hs)

variable (hsingle : (rules.map (·.target.uid)).Nodup)
include hsingle

theorem eq_of_target (hq : q ∈ rules) (hr : r ∈ rules) (h : q.target.uid = r.target.uid) :
    q = r :=
  List.inj_on_of_nodup_map hsingle hq hr h

theorem isAmong_iff_mem (hq : q ∈ rules) (hqs : ∀ t ∈ qs, t ∈ rules) :
    isAmong q qs = true ↔ q ∈ qs := by
  rw [isAmong_iff]
  constructor
  · rintro ⟨t, ht, hu⟩
    rw [← eq_of_target hsingle (hqs t ht) hq hu]
    exact ht
  · exact fun h => ⟨q, h, rfl⟩

/-- A rule that the last rule of the way feeds and that stands on the way closes a
    cycle. -/
theorem Trail.isCycle (ht : Trail rules (r :: trail)) (hq : q ∈ r :: trail) (hfeeds : Feeds r q) :
    IsCycle rules (q :: ((r :: trail).takeWhile fun t => !t.target.same q.target).reverse) := by
  -- the way splits at the rule into what came after it and what came before it
  obtain ⟨pre, post, hsplit, htake⟩ : ∃ pre post, r :: trail = pre ++ q :: post ∧
      (r :: trail).takeWhile (fun t => !t.target.same q.target) = pre := by
    obtain ⟨pre, post, hsplit⟩ := List.append_of_mem hq
    refine ⟨pre, post, hsplit, ?_⟩
    rw [hsplit, List.takeWhile_append_of_pos, List.takeWhile_cons_of_neg, List.append_nil]
    · simp [Signal.same]
    · intro t htp
      have hmem : t ∈ r :: trail := by rw [hsplit]; exact List.mem_append_left _ htp
      have hne : t ≠ q := by
        rintro rfl
        have hnodup := ht.nodup
        rw [hsplit, List.nodup_append] at hnodup
        exact hnodup.2.2 t htp t List.mem_cons_self rfl
      have huid : t.target.uid ≠ q.target.uid :=
        fun hu => hne (eq_of_target hsingle (ht.subset t hmem) (ht.subset q hq) hu)
      rw [Bool.not_eq_true', Bool.eq_false_iff]
      exact fun hsame => huid (Signal.same_iff.1 hsame)
  rw [htake]
  have hback : pre ++ [q] <+: r :: trail := ⟨post, by rw [hsplit]; simp⟩
  have hnodup : (pre ++ [q]).Nodup := ht.nodup.sublist hback.sublist
  have hchain : List.IsChain Feeds (q :: pre.reverse) := by
    have h : (pre ++ [q]).IsChain fun r q => Feeds q r := ht.chain.prefix hback
    rw [← List.isChain_reverse] at h
    simpa using h
  refine ⟨by simp, fun t htm => ?_, ?_, ?_⟩
  · refine ht.subset t (hback.subset ?_)
    simpa [or_comm] using htm
  · have h := List.nodup_reverse.2 hnodup
    simpa using h
  · rw [Cycle.chain_ne_nil Feeds (List.cons_ne_nil q pre.reverse)]
    refine List.isChain_cons_cons.2 ⟨?_, hchain⟩
    -- the circle ends at the last rule of the way
    have hlast : (q :: pre.reverse).getLast (List.cons_ne_nil _ _) = r := by
      cases pre with
      | nil =>
        rw [List.nil_append, List.cons.injEq] at hsplit
        exact hsplit.1.symm
      | cons p pre =>
        rw [List.cons_append, List.cons.injEq] at hsplit
        simp [hsplit.1]
    rw [hlast]
    exact hfeeds

/-- **A search from a rule finds a cycle, or settles the rule.** -/
theorem explore_searched : ∀ (fuel : ℕ) {trail settled : List Rule} {r : Rule},
    Trail rules (r :: trail) → rules.length < fuel + trail.length →
    Clear rules (r :: trail) settled →
      Searched rules trail settled [r] (explore rules fuel trail settled r)
  | 0, trail, settled, r, ht, hfuel, _ => by
    -- the way visits no rule twice, so it is never longer than the list of rules
    have hlen := (List.subperm_of_subset ht.nodup ht.subset).length_le
    rw [List.length_cons] at hlen
    omega
  | fuel + 1, trail, settled, r, ht, hfuel, hclear => by
    have hstep : ∀ q ∈ readers rules r, ∀ acc, Clear rules (r :: trail) acc →
        Searched rules (r :: trail) acc [q]
          (if isAmong q (r :: trail) then
            .error (q :: ((r :: trail).takeWhile fun t => !t.target.same q.target).reverse)
          else if isAmong q acc then .ok acc
          else explore rules fuel (r :: trail) acc q) := by
      intro q hq acc hacc
      obtain ⟨hqr, hfeeds⟩ := mem_readers.1 hq
      split_ifs with htrail hdone
      · exact ht.isCycle hsingle ((isAmong_iff_mem hsingle hqr ht.subset).1 htrail) hfeeds
      · refine ⟨hacc, fun _ hs => hs, List.forall_mem_singleton.2 ?_⟩
        exact (isAmong_iff_mem hsingle hqr hacc.settled.subset).1 hdone
      · have hnew : q ∉ r :: trail :=
          fun h => htrail ((isAmong_iff_mem hsingle hqr ht.subset).2 h)
        have hopen : q ∉ acc :=
          fun h => hdone ((isAmong_iff_mem hsingle hqr hacc.settled.subset).2 h)
        refine explore_searched fuel ⟨?_, ?_, ?_⟩ (by rw [List.length_cons]; omega) ⟨?_, ?_⟩
        · exact List.forall_mem_cons.2 ⟨hqr, ht.subset⟩
        · exact List.nodup_cons.2 ⟨hnew, ht.nodup⟩
        · exact List.isChain_cons_cons.2 ⟨hfeeds, ht.chain⟩
        · exact hacc.settled
        · intro s hs hmem
          rcases List.mem_cons.1 hmem with rfl | hmem
          · exact hopen hs
          · exact hacc.disjoint s hs hmem
    exact (searched_foldlM hstep hclear).settle ht

omit hsingle in
theorem mem_starts : r ∈ starts rules ↔ r ∈ rules := by
  constructor
  · intro h
    obtain ⟨q, hq, hr⟩ := List.mem_flatMap.1 h
    rcases List.mem_cons.1 hr with rfl | hr
    · exact hq
    · obtain ⟨s, -, hs⟩ := List.mem_filterMap.1 hr
      exact List.mem_of_find?_eq_some hs
  · exact fun h => List.mem_flatMap.2 ⟨r, h, List.mem_cons_self⟩

/-- **The search finds a cycle, or there is an order that respects what the rules
    read.** -/
theorem findCycle_spec : IsCycle rules (findCycle rules) ∨
    ∃ order : List Rule, order.Perm rules ∧ Respects order := by
  have hvisit : ∀ r ∈ starts rules, ∀ acc, Clear rules [] acc →
      Searched rules [] acc [r] (if isAmong r acc then .ok acc
        else explore rules (rules.length + 1) [] acc r) := by
    intro r hr acc hacc
    have hr := mem_starts.1 hr
    split_ifs with hdone
    · refine ⟨hacc, fun _ hs => hs, List.forall_mem_singleton.2 ?_⟩
      exact (isAmong_iff_mem hsingle hr hacc.settled.subset).1 hdone
    · have hopen : r ∉ acc :=
        fun h => hdone ((isAmong_iff_mem hsingle hr hacc.settled.subset).2 h)
      refine explore_searched hsingle _ ⟨?_, ?_, ?_⟩ (by simp) ⟨hacc.settled, ?_⟩
      · exact List.forall_mem_singleton.2 hr
      · exact List.nodup_singleton r
      · exact List.isChain_singleton r
      · intro s hs hmem
        rw [List.mem_singleton.1 hmem] at hs
        exact hopen hs
  have hfold : Searched rules [] [] (starts rules) _ :=
    searched_foldlM hvisit ⟨trivial, by simp⟩
  unfold findCycle
  dsimp only
  split
  · next cycle hf => rw [hf] at hfold; exact Or.inl hfold
  · next settled hf =>
    rw [hf] at hfold
    obtain ⟨hclear, -, hall⟩ := hfold
    refine Or.inr ⟨settled, ?_, hclear.settled.respects⟩
    refine (List.perm_ext_iff_of_nodup hclear.settled.nodup hsingle.of_map).2 fun r => ?_
    exact ⟨hclear.settled.subset r, fun hr => hall r (mem_starts.2 hr)⟩

end

end RankOne.Order
