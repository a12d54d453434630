/-
  RankOne — marking inputs public.

  A compilation goes three times through the list of public names.  It checks that each is the
  name of an input, it puts the signals of each into the public block, once for every mention,
  and it leaves the inputs that are mentioned out of the private block.  Then every signal gets
  its position, and can get it only once.  So those lists compile that mention no signal twice,
  and no others.

  * `bindFrom_eq_error`: why signals cannot be placed;
  * `exists_lower_of_placed`: rows get positions wherever their signals are placed;
  * `ofWorkspace_remarked`, `ofWorkspace_misplaced`: what another list of names compiles to;
  * `compile_marked`: the lists of names that compile, and what the others are refused for.
-/
import RankOne.Proofs.Circuit.Realized
import RankOne.Proofs.Circuit.Relabel

namespace RankOne

namespace Circuit

/-! ## Positions -/

/-- **Why signals cannot be placed**: one of them has a position, or stands in the list
    twice. -/
theorem bindFrom_eq_error {e : Error} {ss : List Signal} : ∀ {i : ℕ} {w : Workspace},
    bindFrom i ss w = .error e → ∃ s ∈ ss, ∃ q : Position, e = .placedTwice s.path q.text ∧
      (w.position? s = some q ∨ [s, s].Sublist ss ∧ ∃ k : ℕ, q = .of k) := by
  induction ss with
  | nil =>
    intro i w h
    cases h
  | cons t ss ih =>
    intro i w h
    cases ht : w.position? t with
    | some q =>
      rw [bindFrom, bindPosition_of_some ht] at h
      cases h
      exact ⟨t, List.mem_cons_self, q, rfl, Or.inl ht⟩
    | none =>
      rw [bindFrom, bindPosition_of_none ht] at h
      obtain ⟨s, hs, q, rfl, hq | ⟨htwice, hk⟩⟩ := ih h
      · refine ⟨s, List.mem_cons_of_mem _ hs, q, rfl, ?_⟩
        by_cases hst : s = t
        · -- the position that `t` has just been given
          subst hst
          rw [position?_placed ht] at hq
          exact Or.inr ⟨(List.singleton_sublist.2 hs).cons_cons s, i, (Option.some.inj hq).symm⟩
        · rw [position?_placed_of_ne hst] at hq
          exact Or.inl hq
      · exact ⟨s, List.mem_cons_of_mem _ hs, q, rfl, Or.inr ⟨htwice.cons t, hk⟩⟩

theorem exists_lower_of_placed {w w' : Workspace} {r : Row} {k : Constraint}
    (h : lower w r = .ok k)
    (hplaced : ∀ s i, w.position s = .ok i → ∃ j, w'.position s = .ok j) :
    ∃ k', lower w' r = .ok k' := by
  have hside {e : Expr} (he : ∃ l, Combination.ofExpr w.position e = .ok l) :
      ∃ l, Combination.ofExpr w'.position e = .ok l := by
    obtain ⟨hlinear, hindex⟩ := exists_ofExpr_iff.1 he
    refine exists_ofExpr_iff.2 ⟨hlinear, fun t ht => ?_⟩
    obtain ⟨i, hi⟩ := hindex t ht
    exact hplaced t.1 i hi
  obtain ⟨ha, hb, hc⟩ := exists_lower_iff.1 ⟨k, h⟩
  exact exists_lower_iff.2 ⟨hside ha, hside hb, hside hc⟩

/-! ## Other names -/

section
variable {settings : Settings} {w : Workspace} {marked names : List String} {c : Circuit}
  (hs : w.Sound) (h : ofWorkspace settings w 0 marked = .ok c)
  (hp : ∀ n ∈ names, ∃ d ∈ (w.instanceAt 0).withRole .input, d.name = n)
include hs h

theorem position?_layout : ∀ s ∈ layout w (w.instanceAt 0) names, w.position? s = none := by
  intro s hmem
  obtain ⟨-, -, w', hbind, -⟩ := ofWorkspace_eq_ok h
  obtain ⟨-, -, hfree, -⟩ := bindFrom_spec hbind
  exact (hfree s).1 ((mem_layout hs).2 ((mem_layout hs).1 hmem))

include hp

theorem ofWorkspace_remarked (hnodup : (layout w (w.instanceAt 0) names).Nodup) :
    ∃ c', ofWorkspace settings w 0 names = .ok c' := by
  obtain ⟨hun, horder, w₁, hbind₁, hrows, -⟩ := ofWorkspace_eq_ok h
  obtain ⟨w₂, hbind₂⟩ := bindFrom_of_nodup 0 hnodup (position?_layout hs h)
  obtain ⟨-, ⟨ps₁, rfl⟩, hkept₁, -⟩ := bindFrom_spec hbind₁
  obtain ⟨-, ⟨ps₂, rfl⟩, hkept₂, hplace₂⟩ := bindFrom_spec hbind₂
  obtain ⟨htargets, hreads⟩ := checks_of_ofWorkspace h
  refine exists_ofWorkspace (checkPublic_of_inputs hp) htargets hun hreads ⟨_, horder⟩ hbind₂
    (mapM_ok fun r hr => ?_)
  obtain ⟨k, -, hk⟩ := forall₂_mem_right (mapM_eq_ok.1 hrows).flip hr
  refine exists_lower_of_placed hk fun s i hi => ?_
  by_cases hmem : s ∈ layout w (w.instanceAt 0) names
  · obtain ⟨j, hj⟩ := List.mem_iff_getElem?.1 hmem
    exact ⟨_, by rw [Workspace.position, hplace₂ j s hj]⟩
  · -- a signal from elsewhere keeps its position
    have hother : s ∉ layout w (w.instanceAt 0) marked :=
      fun hin => hmem ((mem_layout hs).2 ((mem_layout hs).1 hin))
    rw [Workspace.position, (hkept₁ s).2 hother] at hi
    exact ⟨i, by rw [Workspace.position, (hkept₂ s).2 hmem]; exact hi⟩

theorem ofWorkspace_misplaced (hl : w.Listed) {e : Error}
    (he : ofWorkspace settings w 0 names = .error e) :
    ∃ s, Repeated (w.instanceAt 0) names s ∧
      ∃ k : ℕ, e = .placedTwice s.path (Position.of k).text := by
  cases hbind : bindFrom 0 (layout w (w.instanceAt 0) names) w with
  | ok w' =>
    obtain ⟨c', hc'⟩ := ofWorkspace_remarked hs h hp (bindFrom_spec hbind).1
    rw [hc'] at he
    cases he
  | error e' =>
    obtain ⟨hun, horder, -⟩ := ofWorkspace_eq_ok h
    obtain ⟨htargets, hreads⟩ := checks_of_ofWorkspace h
    have hsame : ofWorkspace settings w 0 names = .error e' := by
      refine bind_eq_error.2 (Or.inr ⟨(), checkPublic_of_inputs hp, ?_⟩)
      refine bind_eq_error.2 (Or.inr ⟨(), htargets, ?_⟩)
      dsimp only
      rw [if_neg (by simp [hun])]
      refine bind_eq_error.2 (Or.inr ⟨(), hreads, bind_eq_error.2 (Or.inr ⟨_, horder, ?_⟩)⟩)
      exact bind_eq_error.2 (Or.inl hbind)
    obtain rfl : e' = e := Except.error.inj (hsame.symm.trans he)
    obtain ⟨s, hmem, q, rfl, hq | ⟨htwice, k, rfl⟩⟩ := bindFrom_eq_error hbind
    · rw [position?_layout hs h s hmem] at hq
      cases hq
    · have hpair := (pairwise_layout hs hl hp).sublist htwice
      exact ⟨s, (List.pairwise_pair.1 hpair) rfl, k, rfl⟩

end

end Circuit

/-- **Marking inputs public.**  Take a template that compiles under some public names, in
    particular under none, and any list of names of its inputs, in any order.  The list compiles
    exactly if every input whose name it repeats is without signals, and then to as many rows
    and signals.  Otherwise it is refused because a signal of such an input has its position
    already. -/
theorem compile_marked {σ : Type} {settings : Settings} {t : Template σ} {host : σ}
    {marked names : List String} {c : Circuit}
    (h : (compile settings t host marked).result = .ok c)
    (hnames : ∀ n ∈ names, ∃ d ∈ c.mainInstance.withRole .input, d.name = n) :
    ((∃ c', (compile settings t host names).result = .ok c') ↔
      ∀ d ∈ c.mainInstance.withRole .input, 2 ≤ names.count d.name → d.bus.flat = []) ∧
    (∀ c', (compile settings t host names).result = .ok c' →
      c'.system.constraints.length = c.system.constraints.length ∧
        c'.system.signals = c.system.signals) ∧
    ∀ e, (compile settings t host names).result = .error e →
      ∃ d ∈ c.mainInstance.withRole .input, 2 ≤ names.count d.name ∧ ∃ s ∈ d.bus.flat,
        ∃ k : ℕ, e = .placedTwice s.path (Position.of k).text := by
  obtain ⟨field, w, host', hf, hx, hc⟩ := compile_eq_ok h
  have hrun := expand_spec hf hx
  have hopen := Workspace.opened_sound t field settings.dangling
  have hs := hrun.sound hopen
  have hl := hrun.listed hopen (Workspace.opened_listed t field settings.dangling)
  have hresult : (compile settings t host names).result = Circuit.ofWorkspace settings w 0 names :=
    compile_result hf hx
  rw [Circuit.mainInstance_of_ok hc] at hnames ⊢
  have hlayout := Circuit.nodup_layout_iff hs hl hnames
  refine ⟨⟨fun hok d hd hcount => ?_, fun honce => ?_⟩, fun c' hc' => ?_, fun e he => ?_⟩
  · obtain ⟨c', hc'⟩ := hok
    rw [hresult] at hc'
    obtain ⟨-, -, w', hbind, -⟩ := Circuit.ofWorkspace_eq_ok hc'
    have hnone := hlayout.1 (Circuit.bindFrom_spec hbind).1
    exact List.eq_nil_iff_forall_not_mem.2 fun s hsd => hnone s ⟨d, hd, hcount, hsd⟩
  · rw [hresult]
    refine Circuit.ofWorkspace_remarked hs hc hnames (hlayout.2 ?_)
    rintro s ⟨d, hd, hcount, hsd⟩
    rw [honce d hd hcount] at hsd
    cases hsd
  · have halike := compile_alike h hc'
    exact ⟨by rw [halike.second.length_constraints, halike.first.length_constraints], halike.size⟩
  · rw [hresult] at he
    obtain ⟨s, ⟨d, hd, hcount, hsd⟩, hk⟩ := Circuit.ofWorkspace_misplaced hs hc hnames hl he
    exact ⟨d, hd, hcount, s, hsd, hk⟩

/-! ## A name twice -/

section
open Build

/-- A copy of one input, beside an array of none. -/
def paddedCopy : Build Unit Unit := do
  let x ← signal .input "x"
  let _ ← signals .input "pad" (.int 0)
  let y ← signal .output "y"
  assign y (.ofSignal x)

def paddedCopyTemplate : Template Unit := ⟨.of "PaddedCopy" [], paddedCopy⟩

end

theorem compile_marked_padded :
    ∃ c, (compile { prime := .int 97 } paddedCopyTemplate () []).result = .ok c ∧
      (∀ n ∈ ["pad", "x", "pad"], ∃ d ∈ c.mainInstance.withRole .input, d.name = n) ∧
      ∃ c', (compile { prime := .int 97 } paddedCopyTemplate () ["pad", "x", "pad"]).result =
        .ok c' ∧ c'.system.constraints.length = 1 ∧ c'.system.signals = 3 := by
  obtain ⟨c, hc, hnames, honce, hrows, hsignals⟩ := exists_ok
    (x := (compile { prime := .int 97 } paddedCopyTemplate () []).result)
    (P := fun c =>
      (∀ n ∈ ["pad", "x", "pad"], ∃ d ∈ c.mainInstance.withRole .input, d.name = n) ∧
      (∀ d ∈ c.mainInstance.withRole .input,
        2 ≤ ["pad", "x", "pad"].count d.name → d.bus.flat = []) ∧
      c.system.constraints.length = 1 ∧ c.system.signals = 3)
    (by decide +kernel)
  obtain ⟨hiff, hcounts, -⟩ := compile_marked hc hnames
  obtain ⟨c', hc'⟩ := hiff.2 honce
  obtain ⟨hsame, hsize⟩ := hcounts c' hc'
  exact ⟨c, hc, hnames, c', hc', hsame.trans hrows, hsize.trans hsignals⟩

theorem copy_marked_twice :
    (∃ c, (compile { prime := .int 97 } copyTemplate () []).result = .ok c ∧
      ∀ n ∈ ["in", "in"], ∃ d ∈ c.mainInstance.withRole .input, d.name = n) ∧
    ¬ ∃ c, (compile { prime := .int 97 } copyTemplate () ["in", "in"]).result = .ok c := by
  refine ⟨exists_ok (by decide +kernel), ?_⟩
  rintro ⟨c, hc⟩
  have hrefused : (compile { prime := .int 97 } copyTemplate ()
      ["in", "in"]).result.toOption.isSome = false := by decide +kernel
  rw [hc] at hrefused
  cases hrefused

end RankOne
