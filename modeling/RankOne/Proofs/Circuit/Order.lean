/-
  RankOne — orders of rules that respect what the rules read.

  * `Order.Respects`: no rule reads a signal that it or a later rule computes;
  * `evaluationOrder_spec`: the order in which rules run is one of these, of the
    given rules;
  * `Respects.induction`: what holds of the signals that no rule computes, and
    of a target once it holds of what its rule reads, holds of all signals.
-/
import RankOne.Circuit.Order
import RankOne.Proofs.Expr.Sum

namespace RankOne.Order

/-- No rule reads a signal that it or a later rule computes. -/
def Respects : List Rule → Prop
  | [] => True
  | r :: rs => (∀ s ∈ r.reads, ∀ q ∈ r :: rs, q.target.uid ≠ s.uid) ∧ Respects rs

theorem Respects.induction {P : Signal → Prop} : ∀ {rs : List Rule}, Respects rs →
    (∀ s, (∀ q ∈ rs, q.target.uid ≠ s.uid) → P s) →
    (∀ r ∈ rs, (∀ s ∈ r.reads, P s) → ∀ s, s.uid = r.target.uid → P s) → ∀ s, P s
  | [], _, base, _ => fun s => base s (by simp)
  | r :: rs, h, base, step => by
    have hr := step r List.mem_cons_self fun s hs => base s (h.1 s hs)
    refine h.2.induction (fun s hs => ?_) fun q hq => step q (List.mem_cons_of_mem _ hq)
    -- a signal that no later rule computes is the target of `r`, or was no target before
    by_cases hu : s.uid = r.target.uid
    · exact hr s hu
    · exact base s (List.forall_mem_cons.2 ⟨fun h => hu h.symm, hs⟩)

/-- What is left of an order respects what it reads. -/
theorem Respects.of_append : ∀ {pre rs : List Rule}, Respects (pre ++ rs) → Respects rs
  | [], _, h => h
  | _ :: _, _, h => h.2.of_append

/-! ## The order in which rules run -/

theorem insertRule_perm (r : Rule) : ∀ rs : List Rule, (insertRule r rs).Perm (r :: rs)
  | [] => .refl _
  | q :: qs => by
    rw [insertRule]
    split_ifs
    · exact .refl _
    · exact ((insertRule_perm r qs).cons q).trans (.swap r q qs)

theorem byTarget_perm : ∀ rules : List Rule, (byTarget rules).Perm rules
  | [] => .refl _
  | r :: rs => (insertRule_perm r (byTarget rs)).trans ((byTarget_perm rs).cons r)

theorem blocker?_eq_none {pending : List Rule} {r : Rule} (h : blocker? pending r = none) :
    ∀ s ∈ r.reads, ∀ q ∈ pending, q.target.uid ≠ s.uid := by
  intro s hs q hq
  have := List.find?_eq_none.1 (List.findSome?_eq_none_iff.1 h s hs) q hq
  simpa [Signal.same_iff] using this

theorem pick_eq_some {pending : List Rule} {r : Rule} : ∀ {rs rest : List Rule},
    pick pending rs = some (r, rest) → blocker? pending r = none ∧ (r :: rest).Perm rs
  | [], _, h => by cases h
  | q :: rs, rest, h => by
    rw [pick] at h
    split_ifs at h with hb
    · cases h
      exact ⟨Option.isNone_iff_eq_none.1 hb, .refl _⟩
    · obtain ⟨⟨n, rest'⟩, hp, h⟩ := Option.map_eq_some_iff.1 h
      cases h
      obtain ⟨hn, hperm⟩ := pick_eq_some hp
      exact ⟨hn, (List.Perm.swap q r rest').trans (hperm.cons q)⟩

theorem arrange_spec : ∀ (fuel : ℕ) (pending : List Rule),
    ((arrange fuel pending).1 ++ (arrange fuel pending).2).Perm pending ∧
      ((arrange fuel pending).2 = [] → Respects (arrange fuel pending).1)
  | 0, _ => ⟨.refl _, fun _ => trivial⟩
  | fuel + 1, pending => by
    rw [arrange]
    split
    · next r rest hn =>
      obtain ⟨hb, hperm⟩ := pick_eq_some hn
      obtain ⟨ih, hresp⟩ := arrange_spec fuel rest
      refine ⟨(ih.cons r).trans hperm, fun hl => ⟨fun s hs q hq => ?_, hresp hl⟩⟩
      dsimp only at hl
      rw [hl, List.append_nil] at ih
      exact blocker?_eq_none hb s hs q (((ih.cons r).trans hperm).subset hq)
    · exact ⟨.refl _, fun _ => trivial⟩

/-- **The rules run in an order that respects what they read.** -/
theorem evaluationOrder_spec {rules order : List Rule} (h : evaluationOrder rules = .ok order) :
    order.Perm rules ∧ Respects order := by
  obtain ⟨hperm, hresp⟩ := arrange_spec (byTarget rules).length (byTarget rules)
  dsimp only [evaluationOrder] at h
  split at h
  · next ha =>
    cases h
    rw [ha] at hperm hresp
    rw [List.append_nil] at hperm
    exact ⟨hperm.trans (byTarget_perm rules), hresp rfl⟩
  · cases h

end RankOne.Order
