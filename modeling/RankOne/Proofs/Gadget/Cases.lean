/-
  RankOne — branches succeed, and choose.

  A branch on constants that are different field elements gives the value of the constant
  that `x` is, and the last value if it is none of them.  Two constants of one field
  element are refused.

  * `checkDistinct_cases`: which constants are refused, and how;
  * `succeeds_casesFrom`, `succeeds_choice`: the cases of a branch, one by one, and the last;
  * `succeeds_branch`, `fails_branch`: the component;
  * `Circuit.Branches`, `branch_exact`: its circuits.
-/
import RankOne.Gadget.Case
import RankOne.Proofs.Gadget.Choose
import RankOne.Proofs.Gadget.Parents
import RankOne.Proofs.Witness.Supply

namespace RankOne

namespace Gadget

open Build

variable {σ : Type} {f : PrimeField} {sc : Scene} {I : Set ℤ}

/-! ## Constants -/

theorem reduce_eq_iff {a b : ℤ} : f.reduce a = f.reduce b ↔ a ≡ b [ZMOD f.p] := by
  rw [← ZMod.intCast_eq_intCast_iff, ← f.cast_reduce a, ← f.cast_reduce b]
  refine ⟨congrArg _, fun h => ?_⟩
  exact CharP.natCast_injOn_Iio (ZMod f.p) f.p (f.reduce_lt a) (f.reduce_lt b) h

/-- The error for two constants of one field element: it names both, unless one of them is
    too long to be written. -/
def Overlaps (a b : ℤ) (e : Error) : Prop :=
  e.kind = if Value.isLong a || Value.isLong b then .fault .value else .overlap

/-- Earlier constants with their elements. -/
def seen (f : PrimeField) (cs : List ℤ) : List (ℕ × Value) := cs.map fun c => (f.reduce c, .int c)

section
variable (path : String) (cs : List Value) {earlier : List (ℕ × Value)} {a c : ℤ}

theorem checkDistinct_of_none (h : earlier.find? (·.1 == f.reduce c) = none) :
    checkDistinct f path earlier (.int c :: cs) =
      checkDistinct f path ((f.reduce c, .int c) :: earlier) cs := by
  have hint : (Value.int c).toInt = .ok c := rfl
  rw [checkDistinct, hint]
  simp only [bind, Except.bind, h]

/-- A constant of an earlier element is refused. -/
theorem checkDistinct_of_some (h : earlier.find? (·.1 == f.reduce c) = some (f.reduce a, .int a)) :
    ∃ e, checkDistinct f path earlier (.int c :: cs) = .error e ∧ Overlaps a c e := by
  have hint : (Value.int c).toInt = .ok c := rfl
  have htext (n : ℤ) : (Value.int n).shownText =
      if Value.isLong n then .error (.fault .value) else .ok (Value.int n).shown := rfl
  rw [checkDistinct, hint]
  simp only [bind, Except.bind, h, htext, Overlaps]
  by_cases ha : Value.isLong a
  · simp only [ha, if_true, Bool.true_or]
    exact ⟨_, rfl, rfl⟩
  by_cases hc : Value.isLong c
  · simp only [ha, hc, Bool.false_eq_true, if_false, if_true, Bool.or_true]
    exact ⟨_, rfl, rfl⟩
  · simp only [ha, hc, Bool.false_eq_true, if_false, Bool.or_self]
    exact ⟨_, rfl, rfl⟩

end

/-- **Constants pass if they are different field elements, from each other and from the
    earlier ones.** -/
theorem checkDistinct_cases (f : PrimeField) (path : String) : ∀ cs ss : List ℤ,
    (checkDistinct f path (seen f ss) (cs.map .int) = .ok () ∧
      cs.Pairwise (fun a b => ¬ a ≡ b [ZMOD f.p]) ∧ ∀ a ∈ ss, ∀ c ∈ cs, ¬ a ≡ c [ZMOD f.p]) ∨
    ∃ e a b, checkDistinct f path (seen f ss) (cs.map .int) = .error e ∧
      (a ∈ ss ∧ b ∈ cs ∨ [a, b].Sublist cs) ∧ a ≡ b [ZMOD f.p] ∧ Overlaps a b e
  | [], _ => Or.inl ⟨rfl, .nil, by simp⟩
  | c :: cs, ss => by
    rw [List.map_cons]
    cases hfind : (seen f ss).find? (·.1 == f.reduce c) with
    | some q =>
      obtain ⟨a, ha, rfl⟩ := List.mem_map.1 (List.mem_of_find?_eq_some hfind)
      have hsame : f.reduce a = f.reduce c := by simpa using List.find?_some hfind
      obtain ⟨e, he, hkind⟩ := checkDistinct_of_some path (cs.map .int) hfind
      exact Or.inr ⟨e, a, c, he, Or.inl ⟨ha, List.mem_cons_self⟩, reduce_eq_iff.1 hsame, hkind⟩
    | none =>
      have hnew : ∀ a ∈ ss, ¬ a ≡ c [ZMOD f.p] := by
        intro a ha hac
        have := List.find?_eq_none.1 hfind _ (List.mem_map.2 ⟨a, ha, rfl⟩)
        exact this (by simpa using reduce_eq_iff.2 hac)
      rw [checkDistinct_of_none path _ hfind]
      rcases checkDistinct_cases f path cs (c :: ss) with ⟨hok, hcs, hss⟩ | ⟨e, a, b, he, hab, h⟩
      · obtain ⟨hc, hss⟩ := List.forall_mem_cons.1 hss
        refine Or.inl ⟨hok, .cons hc hcs, fun a ha => ?_⟩
        exact List.forall_mem_cons.2 ⟨hnew a ha, hss a ha⟩
      · refine Or.inr ⟨e, a, b, he, ?_, h⟩
        rcases hab with ⟨ha, hb⟩ | hab
        · rcases List.mem_cons.1 ha with rfl | ha
          · exact Or.inr ((List.singleton_sublist.2 hb).cons_cons a)
          · exact Or.inl ⟨ha, List.mem_cons_of_mem _ hb⟩
        · exact Or.inr (hab.cons c)

/-! ## Cases -/

theorem yields_assignValue (hf : sc.field = f) {s : Signal} (hs : sc.Open s) (c : ℤ) :
    (assignValue s (.int c) : Build σ Unit).Yields sc () [.assign sc.path s (.ofInt f c)]
      (sc.assign s) := by
  refine yields_field.skip fun _ _ => ?_
  rw [hf]
  exact yields_assign hf hs (Expr.Line.ofInt c).toForm

/-- An indicator of equality, with its inputs assigned one after the other. -/
theorem step_fedPair {l r out : Signal} {mark : Mark} {F : Set (ℕ × List ℕ)} {N : Set String}
    {eq : Component} {xs : List Statement} {sc₁ : Scene} {e e' : Expr}
    {d d' : (Signal → ZMod f.p) → ZMod f.p}
    (h : sc.Placed f [⟨"in", .input, .row [l, r] mark⟩] [⟨"out", .output, .single out⟩]
      (fun _ => True) (fun v => v out = flag (v l = v r)) F N eq xs sc₁)
    (he : e.Form f (sc₁.within I) d) (he' : e'.Form f (sc₁.within I) d') (path : String) :
    sc.Step f (xs ++ [.assign path l e, .assign path r e']) ((sc₁.assign l).assign r) I
      (Set.Ico (sc.signals.length : ℤ) sc₁.signals.length) F N (fun _ => True)
      fun v => v out = flag (d v = d' v) := by
  have hboth := (sc₁.step_assign he (fun s hs => hs.2) path l).trans
    ((sc₁.assign l).step_assign he' (fun s hs => hs.2) path r) Set.subset_union_left
    fun _ _ _ => trivial
  have hnumbers : {l.uid} ∪ {r.uid} =
      Signal.numbers (Declaration.flat [⟨"in", .input, .row [l, r] mark⟩]) := by
    ext u
    simp [Signal.numbers, eq_comm]
    exact or_comm
  refine (h.fed (hboth.mono subset_rfl hnumbers (by simp) (by simp) (fun _ h => h) fun _ h => h) rfl
    fun _ _ _ => trivial).imp (fun _ h => h) fun v hv => ?_
  obtain ⟨⟨hl, hr⟩, hvout⟩ := hv
  rw [hvout, hl, hr]

/-- **The cases of a branch, one by one.** -/
theorem succeeds_casesFrom (hp : f.p.Prime) {a : SlotArray} {n : ℕ} {x : Signal} :
    ∀ {qs : List (ℤ × Signal × Signal)} {i : ℕ} {fired acc : Expr}
      {d d' : (Signal → ZMod f.p) → ZMod f.p} {sc : Scene} {I : Set ℤ}, sc.field = f →
    sc.Vacant a n i → i + qs.length ≤ n → x ∈ sc.within I →
    (∀ q ∈ qs, q.2.1 ∈ sc.within I ∧ sc.Open q.2.2) → (qs.map (·.2.2.uid)).Nodup →
    acc.Line f (sc.within I) d → fired.Line f (sc.within I) d' →
    (casesFrom a x i fired acc (qs.map fun q => (.int q.1, q.2)) :
      Build σ (Expr × Expr)).Succeeds sc fun r sts sc' =>
        Gathers sc f I a x (qs.map fun q => ((q.1 : ZMod f.p), q.2.1)) (qs.map (·.2.2)) d d'
          fired.degree r.2 r.1 sts sc'
  | [], i, fired, acc, d, d', sc, I, _, _, _, _, _, _, hacc, hfired =>
    (yields_pure (fired, acc)).succeeds fun _ _ => .nil hacc hfired
  | (c, value, term) :: rest, i, fired, acc, d, d', sc, I, hf, hvacant, hle, hx, hqs, hnd, hacc,
      hfired => by
    obtain ⟨⟨hvalue, hterm⟩, hqs⟩ := List.forall_mem_cons.1 hqs
    obtain ⟨hnew, hnd⟩ := List.nodup_cons.1 hnd
    rw [List.length_cons] at hle
    refine .fit fun hfit => (succeeds_filledEqual hp hf hvacant (by omega)).bind ?_
    rintro eq xs sc₁ hgrows hfit₁ ⟨l, r, out, mark, hplaced⟩
    have hf₁ : sc₁.field = f := hgrows.field.trans hf
    have hxline := hfit₁.line hf₁ (Scene.within_subset hgrows subset_rfl hx)
    have hl : sc₁.Open l := hplaced.isOpen l (by simp)
    have hr : (sc₁.assign l).Open r := (hplaced.isOpen r (by simp)).assign (by
      have := hplaced.nodup
      simp at this
      exact fun h => this h.symm)
    refine (yields_terminalSignals (hplaced.terminal "in")).skip fun _ _ => ?_
    change (assign l (.ofSignal x) >>= fun _ => assignValue r (.int c) >>= fun _ => _).Succeeds _ _
    refine (yields_assign hf₁ hl (hxline.toForm.mono fun s hs => hs.1)).emit fun hgrows₂ _ => ?_
    refine (yields_assignValue (show (sc₁.assign l).field = f from hf₁) hr c).emit
      fun hgrows₃ hfit₃ => ?_
    refine (yields_terminalSignal (hplaced.terminal "out")).skip fun _ _ => ?_
    have hstep := (step_fedPair hplaced hxline.toForm (Expr.Line.ofInt c).toForm sc₁.path).imp
      (fun _ h => h) fun v hv => hv.trans (flag_congr eq_comm)
    have ho : out ∈ sc₁.signals ∧ (sc.signals.length : ℤ) ≤ out.uid := hplaced.given out (by simp)
    have hgather := succeeds_gather (k := fun _ => casesFrom a x (i + 1)
        (fired.add (.ofSignal out)) (acc.add (.ofSignal term)) (rest.map fun q => (.int q.1, q.2)))
      hf hfit ((hgrows.trans hgrows₂).trans hgrows₃) hfit₃
      ⟨ho.1, ho.2, hfit₁.numbered out ho.1⟩ hstep hvacant hvalue hterm hacc hfired
      fun sc₂ J hf₂ hsub hvacant₂ hopen hacc₂ hfired₂ =>
        succeeds_casesFrom hp hf₂ hvacant₂ (by omega) (hsub hx) (fun q hq =>
          ⟨hsub (hqs q hq).1, hopen _ (hqs q hq).2 fun heq => hnew (List.mem_map.2 ⟨q, hq, heq⟩)⟩)
          hnd hacc₂ hfired₂
    refine hgather.mono ?_
    rintro r sts sc' - - h
    simpa using h

/-- **The last case**: its value counts if no other case fired. -/
theorem succeeds_otherwise (hp : f.p.Prime) (hf : sc.field = f) (hname : "otherwise" ∉ sc.names)
    {fired acc : Expr} {D E : (Signal → ZMod f.p) → ZMod f.p} (hacc : acc.Line f (sc.within I) D)
    (hfired : fired.Line f (sc.within I) E) {value term out : Signal} (hvalue : value ∈ sc.within I)
    (hterm : sc.Open term) (hout : sc.Open out) (hne : out.uid ≠ term.uid) (text : String) :
    (do let otherwise ← component "otherwise" isZeroTemplate
        assign (← terminalSignal otherwise "in") fired
        let product ← times (.ofSignal value) (.ofSignal (← terminalSignal otherwise "out"))
        assign term product
        assign out (acc.add (.ofSignal term))
        log text : Build σ Unit).Succeeds sc fun _ sts sc' => sc.Step f sts sc' I
      (Set.Ico (sc.signals.length : ℤ) sc'.signals.length ∪ {term.uid} ∪ {out.uid}) ∅ {"otherwise"}
      (fun _ => True) fun v => v out = D v + v value * flag (E v = 0) := by
  refine .fit fun hfit => (succeeds_placedZero hp hf hname).bind ?_
  rintro otherwise xs sc₁ hgrows hfit₁ ⟨u, o, hplaced⟩
  have hf₁ : sc₁.field = f := hgrows.field.trans hf
  have hfield {s : Signal} (hs : s ∈ sc₁.signals) : s.field = f := (hfit₁.field s hs).trans hf₁
  have hfed₁ := hfired.mono (Scene.within_subset hgrows (subset_refl I))
  have ho : o ∈ sc₁.signals ∧ (sc.signals.length : ℤ) ≤ o.uid := hplaced.given o (by simp)
  refine (yields_terminalSignal (hplaced.terminal "in")).skip fun _ _ => ?_
  refine (yields_assign hf₁ (hplaced.isOpen u (by simp))
    (hfed₁.toForm.mono fun s hs => hs.1)).emit fun hgrows₂ hfit₂ => ?_
  have hind := hplaced.fedSingle hfed₁.toForm sc₁.path fun v (_ : True) _ => trivial
  set sc₂ := sc₁.assign u with hsc₂
  have hgrows' := hgrows.trans hgrows₂
  have hmine : value ∈ sc₂.within (I ∪ Set.Ico (sc.signals.length : ℤ) sc₂.signals.length) :=
    Scene.within_subset hgrows' Set.subset_union_left hvalue
  have hother : o ∈ sc₂.within (I ∪ Set.Ico (sc.signals.length : ℤ) sc₂.signals.length) :=
    ⟨ho.1, Or.inr ⟨ho.2, hfit₁.numbered o ho.1⟩⟩
  obtain ⟨product, hproduct, hform, -⟩ := (Expr.Line.ofSignal hmine (hfield hmine.1)).mul
    (.ofSignal hother (hfield ho.1))
  have hterm₂ : sc₂.Open term := hterm.below hfit hgrows' hind.toEffect
  have hassign := sc₂.step_assign hform (fun s hs => hs.2) sc₂.path term
  refine (yields_terminalSignal (hplaced.terminal "out")).skip fun _ _ => ?_
  refine (yields_times hproduct).skip fun _ _ => ?_
  refine (yields_assign (show sc₂.field = f from hf₁) hterm₂ (hform.mono fun s hs => hs.1)).emit
    fun hgrows₃ hfit₃ => ?_
  set sc₃ := sc₂.assign term with hsc₃
  have hsum : (acc.add (.ofSignal term)).Line f
      (sc₃.within (I ∪ (Set.Ico (sc.signals.length : ℤ) sc₂.signals.length ∪ {term.uid}))) _ :=
    (hacc.mono (Scene.within_subset (hgrows'.trans hgrows₃) Set.subset_union_left)).add
      (.ofSignal ⟨hterm₂.mem, Or.inr (Or.inr rfl)⟩ (hfield hterm₂.mem))
  have hlast := sc₃.step_assign hsum.toForm (fun s hs => hs.2) sc₃.path out
  refine (yields_assign (show sc₃.field = f from hf₁)
    ((hout.below hfit hgrows' hind.toEffect).assign hne)
    (hsum.toForm.mono fun s hs => hs.1)).emit fun _ _ => (yields_log text).succeeds fun _ _ => ?_
  have hsteps := (hind.trans hassign subset_rfl fun _ _ _ => trivial).trans hlast subset_rfl
    fun _ _ _ => trivial
  simp only [List.append_assoc, List.cons_append, List.nil_append] at hsteps
  refine hsteps.mono subset_rfl rfl (by simp) (by simp) (fun _ h => h) ?_
  rintro v ⟨⟨⟨hu, hvo⟩, hvterm⟩, hvout⟩
  rw [hvout, hvterm, hvo, hu]

/-! ## Branches -/

/-- The inputs of a branch. -/
def branchInputs (x : Signal) (values : List Signal) (mark : Mark) : List Declaration :=
  [⟨"x", .input, .single x⟩, ⟨"values", .input, .row values mark⟩]

theorem length_flat_branchInputs (x : Signal) (values : List Signal) (mark : Mark) :
    (Declaration.flat (branchInputs x values mark)).length = values.length + 1 := by
  simp [branchInputs]

/-- The cases of a branch are its constants with all values but the last. -/
theorem zip_cases {cs : List ℤ} {values terms : List Signal} (value term : Signal)
    (hvalues : values.length = cs.length) (hterms : terms.length = cs.length) :
    (cs.map Value.int).zip ((values ++ [value]).zip (terms ++ [term])) =
      (cs.zip (values.zip terms)).map fun q => (.int q.1, q.2) := by
  have hlen : (cs.map Value.int).length = (values.zip terms).length := by simp [hvalues, hterms]
  rw [List.zip_append (hvalues.trans hterms.symm), ← List.append_nil (cs.map Value.int),
    List.zip_append hlen, List.zip_map_left]
  simp [Prod.map]

section
variable {cs : List ℤ} {values terms : List Signal} (hvalues : values.length = cs.length)
  (hterms : terms.length = cs.length)
include hvalues hterms

theorem map_terms_cases : (cs.zip (values.zip terms)).map (·.2.2) = terms := by
  have hcs : (values.zip terms).length ≤ cs.length := by simp [hvalues]
  rw [← Function.comp_def Prod.snd Prod.snd, ← List.map_map, List.map_snd_zip hcs,
    List.map_snd_zip (hterms.trans hvalues.symm).le]

theorem map_values_cases {α : Type} (g : ℤ × Signal → α) :
    (cs.zip (values.zip terms)).map (fun q => g (q.1, q.2.1)) = (cs.zip values).map g := by
  have hzip : (values.zip terms).map Prod.fst = values :=
    List.map_fst_zip (hvalues.trans hterms.symm).le
  conv_rhs => rw [← hzip, List.zip_map_right, List.map_map]
  rfl

end

/-- The position of the constant that is `x`, or the number of constants if none is. -/
def caseOf {p : ℕ} (cs : List ℤ) (x : ZMod p) : ℕ := cs.findIdx fun c : ℤ => (c : ZMod p) = x

section
variable {p : ℕ} {cs : List ℤ} {values : List Signal} (hvalues : values.length = cs.length)
include hvalues

theorem nodup_keys (hcs : (cs.map (Int.cast : ℤ → ZMod p)).Nodup) (g : Signal → ZMod p) :
    (((cs.zip values).map fun q => ((q.1 : ZMod p), g q.2)).map (·.1)).Nodup := by
  have hkeys : ((cs.zip values).map fun q => ((q.1 : ZMod p), g q.2)).map (·.1) =
      ((cs.zip values).map (·.1)).map Int.cast := by
    rw [List.map_map, List.map_map]
    rfl
  rwa [hkeys, List.map_fst_zip hvalues.ge]

/-- The sums of a branch give the value of the case that `x` is, and the last if it is
    none. -/
theorem value_of_sums [Fact p.Prime] (hcs : (cs.map (Int.cast : ℤ → ZMod p)).Nodup)
    (value : Signal) (x : ZMod p) (v : Signal → ZMod p) :
    ∃ y, (values ++ [value])[caseOf cs x]? = some y ∧
      chosen x ((cs.zip values).map fun q => ((q.1 : ZMod p), v q.2)) +
        v value * flag (chosen x ((cs.zip values).map fun q => ((q.1 : ZMod p), 1)) = 0) = v y := by
  have hle : caseOf cs x ≤ cs.length := List.findIdx_le_length
  rcases hle.lt_or_eq with hi | hi
  · -- the case at this position fires, and no other
    have hkey : (cs[caseOf cs x] : ZMod p) = x := of_decide_eq_true (List.findIdx_getElem (w := hi))
    generalize caseOf cs x = i at hi hkey ⊢
    have hlt : i < values.length := hvalues ▸ hi
    have hmem : (cs[i], values[i]) ∈ cs.zip values :=
      List.mem_iff_getElem.2 ⟨i, by simp [hi, hlt], List.getElem_zip⟩
    have hchosen (g : Signal → ZMod p) :
        chosen x ((cs.zip values).map fun q => ((q.1 : ZMod p), g q.2)) = g values[i] :=
      chosen_of_mem (nodup_keys hvalues hcs g) (List.mem_map.2 ⟨_, hmem, by rw [hkey]⟩)
    refine ⟨values[i], ?_, ?_⟩
    · rw [List.getElem?_append_left hlt, List.getElem?_eq_getElem hlt]
    · rw [hchosen v, hchosen fun _ => 1, flag, if_neg one_ne_zero, mul_zero, add_zero]
  · have hnone (g : Signal → ZMod p) :
        chosen x ((cs.zip values).map fun q => ((q.1 : ZMod p), g q.2)) = 0 := by
      refine chosen_of_forall_ne fun q hq hkey => ?_
      obtain ⟨⟨c, y⟩, hmem, rfl⟩ := List.mem_map.1 hq
      have := List.findIdx_eq_length.1 hi c (List.of_mem_zip hmem).1
      exact of_decide_eq_false this hkey
    refine ⟨value, ?_, ?_⟩
    · rw [hi, ← hvalues, List.getElem?_concat_length]
    · rw [hnone v, hnone fun _ => 1, flag, if_pos rfl, mul_one, zero_add]

end

theorem exists_concat {ss : List Signal} {n : ℕ} (h : ss.length = n + 1) :
    ∃ init last, ss = init ++ [last] ∧ init.length = n := by
  obtain ⟨init, last, rfl⟩ := (List.eq_nil_or_concat' ss).resolve_left (by rintro rfl; simp at h)
  exact ⟨init, last, rfl, by simpa using h⟩

/-- Different field elements pass the check. -/
theorem checkDistinct_of_pairwise {cs : List ℤ} (hcs : cs.Pairwise fun a b => ¬ a ≡ b [ZMOD f.p])
    (path : String) : checkDistinct f path [] (cs.map .int) = .ok () := by
  rcases checkDistinct_cases f path cs [] with ⟨hok, -⟩ | ⟨e, a, b, -, hab, hsame, -⟩
  · exact hok
  · rcases hab with ⟨ha, -⟩ | hab
    · cases ha
    · have := hcs.sublist hab
      simp [hsame] at this

theorem nodup_cast {cs : List ℤ} (hcs : cs.Pairwise fun a b => ¬ a ≡ b [ZMOD f.p]) :
    (cs.map (Int.cast : ℤ → ZMod f.p)).Nodup := by
  refine List.pairwise_map.2 (hcs.imp fun h heq => h ?_)
  exact (ZMod.intCast_eq_intCast_iff _ _ _).1 heq

/-! The terms of a branch are numbered after its output, and its children after the terms. -/

namespace Prepared

variable {sc' : Scene} {n k : ℕ} {out term : Signal} {terms : List Signal} {eqs : SlotArray}
  (h : Prepared sc n k out (terms ++ [term]) eqs sc')
include h

theorem numbers_concat : Signal.numbers terms ∪ {term.uid} =
    Set.Ico (sc.signals.length + 1 : ℤ) sc'.signals.length := by
  have hnumbers := h.numbers
  rw [Signal.numbers_append, Signal.numbers_singleton] at hnumbers
  rw [hnumbers, h.size]
  push_cast
  rfl

theorem uid_last : (sc.signals.length : ℤ) < term.uid ∧ term.uid < sc'.signals.length := by
  have hmem : term.uid ∈ Signal.numbers terms ∪ {term.uid} := Or.inr rfl
  rw [h.numbers_concat, Set.mem_Ico] at hmem
  omega

theorem last_notMem (m : ℤ) :
    term.uid ∉ Signal.numbers terms ∪ Set.Ico (sc'.signals.length : ℤ) m := by
  have hnodup := h.nodup
  rw [List.map_append, List.nodup_append] at hnodup
  rintro (⟨t, ht, heq⟩ | hmem)
  · exact hnodup.2.2 _ (List.mem_map_of_mem ht) _ (by simp) heq
  · exact absurd h.uid_last.2 (not_lt.2 hmem.1)

theorem output_notMem_init (m : ℤ) :
    out.uid ∉ Signal.numbers terms ∪ Set.Ico (sc'.signals.length : ℤ) m := by
  have hnot := h.output_notMem m
  rw [Signal.numbers_append] at hnot
  exact fun hmem => hnot (hmem.imp_left Or.inl)

/-- The children of the last case come after those of the others. -/
theorem numbers_choice {m₁ m₂ : ℕ} (h₁ : sc'.signals.length ≤ m₁) (h₂ : m₁ ≤ m₂) :
    Signal.numbers terms ∪ Set.Ico (sc'.signals.length : ℤ) m₁ ∪
      (Set.Ico (m₁ : ℤ) m₂ ∪ {term.uid} ∪ {out.uid}) = Set.Ico (sc.signals.length : ℤ) m₂ := by
  rw [← h.numbers_all (h₁.trans h₂), Signal.numbers_append, Signal.numbers_singleton,
    ← Set.Ico_union_Ico_eq_Ico (Int.ofNat_le.2 h₁) (Int.ofNat_le.2 h₂)]
  ext u
  simp only [Set.mem_union]
  tauto

end Prepared

/-- **The choice of a branch**: its cases, and then the last one. -/
theorem succeeds_choice (hp : f.p.Prime) (hf : sc.field = f) {sc₀ : Scene} {cs : List ℤ}
    (hcs : cs.Pairwise fun a b => ¬ a ≡ b [ZMOD f.p]) {x value term out : Signal}
    {values terms : List Signal} {eqs : SlotArray} (hvalues : values.length = cs.length)
    (hprep : Prepared sc₀ (cs.length + 1) cs.length out (terms ++ [term]) eqs sc)
    (hin : ∀ s ∈ x :: (values ++ [value]), s ∈ sc.within I) (hname : "otherwise" ∉ sc.names)
    (text : String) :
    (do let (fired, acc) ← casesFrom eqs x 0 (.ofInt f 0) (.ofInt f 0)
          ((cs.zip (values.zip terms)).map fun q => (.int q.1, q.2))
        let otherwise ← component "otherwise" isZeroTemplate
        assign (← terminalSignal otherwise "in") fired
        let product ← times (.ofSignal value) (.ofSignal (← terminalSignal otherwise "out"))
        assign term product
        assign out (acc.add (.ofSignal term))
        log text : Build σ Unit).Succeeds sc fun _ sts sc' => sc.Step f sts sc' I
      (Set.Ico (sc₀.signals.length : ℤ) sc'.signals.length) {k | k.1 = eqs.id} {"otherwise"}
      (fun _ => True)
      fun v => ∃ y, (values ++ [value])[caseOf cs (v x)]? = some y ∧ v out = v y := by
  have := Fact.mk hp
  have hterms : terms.length = cs.length := by simpa using hprep.length
  have hqs : ∀ q ∈ cs.zip (values.zip terms), q.2.1 ∈ sc.within I ∧ sc.Open q.2.2 := by
    intro q hq
    obtain ⟨hv, ht⟩ := List.of_mem_zip (List.of_mem_zip hq).2
    exact ⟨hin _ (by simp [hv]), hprep.openTerm _ (by simp [ht])⟩
  have huids : ((cs.zip (values.zip terms)).map (·.2.2.uid)).Nodup := by
    have hnodup := hprep.nodup
    rw [List.map_append, List.nodup_append] at hnodup
    have hmap := congrArg (List.map Signal.uid) (map_terms_cases hvalues hterms)
    rw [List.map_map] at hmap
    exact hmap ▸ hnodup.1
  refine (succeeds_casesFrom hp hf hprep.vacant (by simp [hvalues, hterms]) (hin x (by simp)) hqs
    huids (.ofInt 0) (.ofInt 0)).bind ?_
  rintro ⟨fired, acc⟩ sts sc₁ hgrows₁ - ⟨-, D, E, hacc, hfired, hstep⟩
  rw [map_terms_cases hvalues hterms] at hacc hfired hstep
  have hname₁ : "otherwise" ∉ sc₁.names := fun hmem =>
    (hstep.names hmem).elim hname (Set.notMem_empty _)
  refine (succeeds_otherwise hp (hgrows₁.field.trans hf) hname₁ hacc hfired
    (Scene.within_subset hgrows₁ Set.subset_union_left (hin value (by simp)))
    ((hprep.openTerm term (by simp)).later hgrows₁ hstep.toEffect (hprep.last_notMem _))
    (hprep.openOut.later hgrows₁ hstep.toEffect (hprep.output_notMem_init _)) ?_ text).mono ?_
  · have huid := hprep.uid
    have hlast := hprep.uid_last
    omega
  rintro _ ys sc₂ hgrows₂ - hlast
  refine (hstep.trans hlast subset_rfl fun _ _ _ => trivial).mono subset_rfl
    (hprep.numbers_choice hgrows₁.length_le hgrows₂.length_le) (by simp) (by simp) (fun _ h => h) ?_
  rintro v ⟨⟨hD, hE⟩, hvout⟩
  obtain ⟨y, hy, hsum⟩ := value_of_sums hvalues (nodup_cast hcs) value (v x) v
  have hkeys (g : Signal → ZMod f.p) := map_values_cases hvalues hterms
    fun q : ℤ × Signal => ((q.1 : ZMod f.p), g q.2)
  refine ⟨y, hy, ?_⟩
  simp only [List.map_map, Function.comp_def] at hD hE
  rw [hvout, hD, hE, hkeys v, hkeys fun _ => 1, Int.cast_zero, zero_add, zero_add, hsum]

/-- **The component that branches on constants that are different field elements.** -/
theorem succeeds_branch (hp : f.p.Prime) (hf : sc.field = f) (hblank : sc.Blank) {cs : List ℤ}
    (hcs : cs.Pairwise fun a b => ¬ a ≡ b [ZMOD f.p]) :
    (branch (.tuple (cs.map .int)) : Build σ Unit).Succeeds sc fun _ sts sc' =>
      ∃ x values mark out, values.length = cs.length + 1 ∧
        sc.Provides f (branchInputs x values mark) (soleOutput out) (fun _ => True)
          (fun v => ∃ y, values[caseOf cs (v x)]? = some y ∧ v out = v y) sts sc' := by
  have hitems : (items (.tuple (cs.map .int)) : Build σ (List Value)).Yields sc (cs.map .int) []
      sc := yields_demand rfl
  refine yields_field.skip fun _ _ => hitems.skip fun _ _ => yields_path.skip fun _ _ => ?_
  rw [hf]
  refine (yields_demand (checkDistinct_of_pairwise hcs sc.path)).skip fun _ _ => ?_
  rw [List.length_map]
  refine (yields_signal (by simp [hblank.names])).skip fun _ _ => ?_
  set x := sc.single .input "x"
  set sc₁ := sc.declare ⟨"x", .input, .single x⟩ with hsc₁
  refine succeeds_row (cs.length + 1) (by simp [hsc₁, hblank.names]) fun all hlen hbus _ => ?_
  obtain ⟨values, value, rfl, hvlen⟩ := exists_concat hlen
  set sc₂ := sc₁.declare ⟨"values", .input, .row (values ++ [value]) sc₁.mark⟩ with hsc₂
  have hlen₂ : sc₂.signals.length = sc.signals.length +
      (Declaration.flat (branchInputs x (values ++ [value]) sc₁.mark)).length := by
    rw [length_flat_branchInputs]
    simp [hsc₁, hsc₂]
  refine succeeds_prepare (n := cs.length + 1) (by simp [hsc₁, hsc₂, hblank.names])
    (by simp [hsc₁, hsc₂, hblank.names]) (by simp [hsc₁, hsc₂, hblank.names]) (by omega)
    fun out allTerms eqs sc₃ hprep => ?_
  obtain ⟨terms, term, rfl, htlen⟩ := exists_concat hprep.length
  have hinterface : sc.Interface (branchInputs x (values ++ [value]) sc₁.mark) (soleOutput out) :=
    (((Scene.Interface.nil sc).input (sc.new_single .input "x") "x").input hbus
      "values").output hprep.output "out"
  have hf₃ : sc₃.field = f := hprep.grows.field.trans (by simpa [hsc₁, hsc₂] using hf)
  have hin : ∀ s ∈ x :: (values ++ [value]), s ∈ sc₃.within
      (Signal.numbers (Declaration.flat (branchInputs x (values ++ [value]) sc₁.mark))) := by
    intro s hs
    refine Scene.within_subset hprep.grows ?_ (hinterface.within_numbers (s := s) ?_)
    · rw [hinterface.numbers.numbers]
    · simpa [branchInputs] using hs
  have hname : "otherwise" ∉ sc₃.names := by
    intro hmem
    have := (hprep.lift (Scene.Step.refl (f := f) (I := ∅) sc₃)).names hmem
    simp [hsc₁, hsc₂, hblank.names] at this
  refine (yields_const 0).skip fun _ _ => (yields_const 0).skip fun _ _ => ?_
  rw [hf₃, zip_cases value term hvlen htlen]
  simp only [List.getLast?_concat]
  refine (succeeds_choice hp hf₃ hcs hvlen hprep hin hname _).mono ?_
  rintro _ sts sc₄ hgrows₄ - hstep
  refine ⟨x, values ++ [value], sc₁.mark, out, by simp [hvlen],
    hinterface.provides hblank (hprep.grows.trans hgrows₄) (hprep.lift hstep) subset_rfl ?_
      fun k hk => (hk.trans hprep.id).ge⟩
  rw [hlen₂, Nat.cast_add]

/-- **Constants of one field element are refused.** -/
theorem fails_branch {cs : List ℤ} (hcs : ¬ cs.Pairwise fun a b => ¬ a ≡ b [ZMOD sc.field.p]) :
    (branch (.tuple (cs.map .int)) : Build σ Unit).Fails sc fun e => ∃ a b,
      [a, b].Sublist cs ∧ a ≡ b [ZMOD sc.field.p] ∧ Overlaps a b e := by
  have hitems : (items (.tuple (cs.map .int)) : Build σ (List Value)).Yields sc (cs.map .int) []
      sc := yields_demand rfl
  refine yields_field.fails (hitems.fails (yields_path.fails ?_))
  rcases checkDistinct_cases sc.field sc.path cs [] with ⟨-, hdistinct, -⟩ | ⟨e, a, b, he, hab, h⟩
  · exact absurd hdistinct hcs
  · refine (fails_demand he ⟨a, b, ?_, h⟩).bind
    exact hab.resolve_left fun hnil => absurd hnil.1 List.not_mem_nil

end Gadget

/-! ## Circuits -/

open Gadget

/-- The template of a branch on some constants. -/
def branchTemplate {σ : Type} (cs : List ℤ) : Template σ :=
  ⟨.of "Branch" [.tuple (cs.map .int)], branch (.tuple (cs.map .int))⟩

namespace Circuit

variable {c : Circuit} {f : PrimeField}

/-- **A circuit branches on constants**: the outcome is the value of the first constant that is
    `x` modulo `p`, and the last value if none is. -/
def Branches (c : Circuit) (p : ℕ) (cs : List ℤ) : Prop :=
  ∀ (x : ℕ) (values : List ℕ) (mark : Mark), x < p → values.length = cs.length + 1 →
    (∀ y ∈ values, y < p) → ∃ y, values[cs.findIdx fun k => k ≡ x [ZMOD p]]? = some y ∧
      c.Settles [("x", .single x), ("values", .row values mark)] (some [("out", [y])])

theorem caseOf_natCast (p : ℕ) (cs : List ℤ) (x : ℕ) :
    caseOf cs (x : ZMod p) = cs.findIdx fun k => k ≡ x [ZMOD p] := by
  rw [caseOf]
  congr 1
  funext k
  rw [← Int.cast_natCast, decide_eq_decide, ZMod.intCast_eq_intCast_iff]

theorem Realizes.branches {cs : List ℤ} {x : Signal} {ss : List Signal} {mark : Mark}
    {out : Signal} (h : c.Realizes f (branchInputs x ss mark) (soleOutput out) (fun _ => True)
      (fun v => ∃ y, ss[caseOf cs (v x)]? = some y ∧ v out = v y))
    (hlen : ss.length = cs.length + 1) : c.Branches f.p cs := by
  intro n values mark' hn hvalues hsmall
  have hle : (cs.findIdx fun k => k ≡ n [ZMOD f.p]) ≤ cs.length := List.findIdx_le_length
  generalize hi : (cs.findIdx fun k => k ≡ n [ZMOD f.p]) = i at hle ⊢
  have hget : values[i]? = some values[i] := List.getElem?_eq_getElem (by omega)
  refine ⟨_, hget, h.settles (.cons ⟨rfl, .single _⟩
    (.cons ⟨rfl, Supply.shaped_row (hlen.trans hvalues.symm) _ _⟩ .nil))
    (fun d hd => h.mem_of_output hd) (by simp [branchInputs]; decide)
    (by simpa [Supply.numbers] using ⟨hn, hsmall⟩) (fun _ _ _ => trivial)
    fun v hv hp => ⟨_, rfl, ?_⟩⟩
  have hv : v x = n ∧ ss.map v = elements f.p values := by
    simpa [Given, branchInputs, elements, Supply.numbers] using hv
  obtain ⟨y, hy, hvout⟩ := hp
  rw [hv.1, caseOf_natCast, hi] at hy
  have hvy := congrArg (·[i]?) hv.2
  simp only [elements, List.getElem?_map, hy, hget, Option.map_some, Option.some.injEq] at hvy
  simp [Tells, soleOutput, elements, hvout, hvy]

end Circuit

/-- **Branches are exact.**  A branch compiles exactly when its constants are different field
    elements, and its circuit branches on them.  Two constants of one field element are
    refused, by an error that would name both: a constant of more than 4300 digits cannot be
    written. -/
theorem branch_exact {σ : Type} {p : ℕ} (hp : p.Prime) {settings : Settings}
    (hs : settings.prime = .int p) (cs : List ℤ) (host : σ) (public_ : List String) :
    (cs.Pairwise (fun a b => ¬ a ≡ b [ZMOD p]) →
      (public_.Nodup → public_ ⊆ ["x", "values"] →
        ∃ c, (compile settings (branchTemplate cs) host public_).result = .ok c) ∧
      ∀ c, (compile settings (branchTemplate cs) host public_).result = .ok c →
        c.Branches p cs) ∧
    (¬ cs.Pairwise (fun a b => ¬ a ≡ b [ZMOD p]) →
      ∃ e, (compile settings (branchTemplate cs) host public_).result = .error e ∧
        ∃ a b, [a, b].Sublist cs ∧ a ≡ b [ZMOD p] ∧
          e.kind = if Value.isLong a || Value.isLong b then .fault .value else .overlap) := by
  let f : PrimeField := ⟨p, hp.two_le⟩
  have hf : settings.field = .ok f := Settings.field_of_prime hp hs
  constructor
  · intro hcs
    refine compile_realizes (f := f) hf (fun W hW _ => keeps_branch hW _) ?_ host public_
    refine (succeeds_branch (f := f) hp rfl (Scene.blank_main f .warn) hcs).mono ?_
    rintro _ sts sc' - - ⟨x, values, mark, out, hlen, hprov⟩
    exact ⟨_, _, _, _, hprov, rfl, fun c hc _ => hc.branches hlen⟩
  · intro hcs
    have hfails : (branchTemplate cs : Template σ).body.Fails (.main f settings.dangling) _ :=
      fails_branch hcs
    exact compile_of_fails hf hfails public_

/-- Below 97 the constants 3 and -4 are different, and 3 and 100 are not. -/
theorem branch_exact_below_97 :
    Nat.Prime 97 ∧
    (∃ c, (compile { prime := .int 97 } (branchTemplate [3, -4]) () ["x"]).result = .ok c ∧
      c.Settles [("x", .single 93), ("values", .row [10, 20, 30] [])] (some [("out", [20])]) ∧
      c.Settles [("x", .single 4), ("values", .row [10, 20, 30] [])] (some [("out", [30])])) ∧
    ∃ e, (compile { prime := .int 97 } (branchTemplate [3, 100]) () []).result = .error e ∧
      e.kind = .overlap := by
  have hp : Nat.Prime 97 := by norm_num
  have hs : ({ prime := .int 97 } : Settings).prime = .int (97 : ℕ) := rfl
  refine ⟨hp, ?_, ?_⟩
  · obtain ⟨hok, hall⟩ := (branch_exact hp hs [3, -4] () ["x"]).1 (by decide)
    obtain ⟨c, hc⟩ := hok (by simp) (by simp)
    have hbranches := hall c hc
    obtain ⟨y, hy, h₁⟩ := hbranches 93 [10, 20, 30] [] (by decide) rfl (by decide)
    obtain rfl : 20 = y := by simpa using (by decide : _ = some 20).symm.trans hy
    obtain ⟨z, hz, h₂⟩ := hbranches 4 [10, 20, 30] [] (by decide) rfl (by decide)
    obtain rfl : 30 = z := by simpa using (by decide : _ = some 30).symm.trans hz
    exact ⟨c, hc, h₁, h₂⟩
  · obtain ⟨e, he, a, b, hab, -, hkind⟩ := (branch_exact hp hs [3, 100] () []).2 (by decide)
    obtain ⟨rfl, rfl⟩ : a = 3 ∧ b = 100 := by simpa using hab.eq_of_length rfl
    have hshort : (Value.isLong 3 || Value.isLong 100) = false := by decide +kernel
    exact ⟨e, he, by rw [hkind, hshort]; rfl⟩

/-- Two equal constants of more than 4300 digits are refused by the error of a number that
    cannot be written. -/
theorem branch_overlap_unwritable :
    ∃ n : ℤ, ¬ [n, n].Pairwise (fun a b => ¬ a ≡ b [ZMOD (97 : ℕ)]) ∧
      ∃ e, (compile { prime := .int 97 } (branchTemplate [n, n]) () []).result = .error e ∧
        e.kind = .fault .value := by
  have hp : Nat.Prime 97 := by norm_num
  have hs : ({ prime := .int 97 } : Settings).prime = .int (97 : ℕ) := rfl
  obtain ⟨n, hlong⟩ : ∃ n : ℤ, Value.isLong n := ⟨Value.longBound, by decide +kernel⟩
  have hsame : ¬ [n, n].Pairwise fun a b => ¬ a ≡ b [ZMOD (97 : ℕ)] := by
    simp [Int.ModEq.refl]
  have hfails : (branchTemplate [n, n] : Template Unit).body.Fails
      (.main ⟨97, hp.two_le⟩ .warn) _ := fails_branch hsame
  obtain ⟨e, he, a, b, hab, -, hkind⟩ :=
    compile_of_fails (Settings.field_of_prime hp hs) hfails []
  have ha : a = n ∧ b = n := by simpa using hab.eq_of_length rfl
  refine ⟨n, hsame, e, he, hkind.trans (if_pos ?_)⟩
  rw [ha.1, hlong, Bool.true_or]

end RankOne
