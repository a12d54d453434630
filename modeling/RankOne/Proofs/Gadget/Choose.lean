/-
  RankOne — selectors succeed, and select.

  A selector adds products of its inputs with one indicator per position.  If the positions
  are different field elements, at most one indicator fires, and the sum is the input at
  the index, or zero.

  * `chosen`, `chosen_of_mem`, `chosen_of_forall_ne`: sums of values by indicators of keys;
  * `succeeds_isAt`: an indicator of one position;
  * `Gathers`, `succeeds_gather`: the sums so far, and one more case;
  * `succeeds_selectFrom`, `succeeds_sums`: the positions of a selector, one by one;
  * `succeeds_forceBelow`, `succeeds_boundIndex`: its index is bounded;
  * `succeeds_quinSelector`, `fails_quinSelector`: the component.
-/
import RankOne.Gadget.Series
import RankOne.Proofs.Gadget.Compare

namespace RankOne.Gadget

open Build

variable {σ : Type} {f : PrimeField} {sc : Scene} {I : Set ℤ}

/-! ## Sums by indicators -/

/-- The sum of the values whose keys are `x`. -/
def chosen {p : ℕ} (x : ZMod p) (cs : List (ZMod p × ZMod p)) : ZMod p :=
  (cs.map fun c => c.2 * flag (c.1 = x)).sum

theorem chosen_cons {p : ℕ} (x : ZMod p) (c : ZMod p × ZMod p) (cs : List (ZMod p × ZMod p)) :
    chosen x (c :: cs) = c.2 * flag (c.1 = x) + chosen x cs := by
  rw [chosen, List.map_cons, List.sum_cons, ← chosen]

/-- Without the key there is nothing to add. -/
theorem chosen_of_forall_ne {p : ℕ} {x : ZMod p} {cs : List (ZMod p × ZMod p)}
    (h : ∀ c ∈ cs, c.1 ≠ x) : chosen x cs = 0 := by
  induction cs with
  | nil => rfl
  | cons c cs ih =>
    obtain ⟨hc, hcs⟩ := List.forall_mem_cons.1 h
    rw [chosen_cons, ih hcs, flag, if_neg hc]
    ring

/-- Of different keys, one is the key asked for. -/
theorem chosen_of_mem {p : ℕ} {x y : ZMod p} {cs : List (ZMod p × ZMod p)}
    (hnd : (cs.map (·.1)).Nodup) (h : (x, y) ∈ cs) : chosen x cs = y := by
  induction cs with
  | nil => cases h
  | cons c cs ih =>
    rw [List.map_cons, List.nodup_cons] at hnd
    rw [chosen_cons]
    rcases List.mem_cons.1 h with rfl | h
    · have hrest : chosen x cs = 0 :=
        chosen_of_forall_ne fun c hc heq => hnd.1 (List.mem_map.2 ⟨c, hc, heq⟩)
      rw [hrest, flag, if_pos rfl]
      ring
    · have hne : c.1 ≠ x := fun heq => hnd.1 (List.mem_map.2 ⟨(x, y), h, heq.symm⟩)
      rw [ih hnd.2 h, flag, if_neg hne]
      ring

/-! ## Positions -/

/-- An indicator of equality and the assignments of its inputs are one step. -/
theorem succeeds_fedEqual {sc₁ : Scene} {F : Set (ℕ × List ℕ)} {N : Set String} {c : Component}
    {xs : List Statement} {x y out : Signal} {mark : Mark}
    (h : sc.Placed f [⟨"in", .input, .row [x, y] mark⟩] [⟨"out", .output, .single out⟩]
      (fun _ => True) (fun v => v out = flag (v x = v y)) F N c xs sc₁)
    (hgrows : sc.Grows sc₁) (hf : sc₁.field = f) {T : Set Signal} {a b : Expr}
    {d d' : (Signal → ZMod f.p) → ZMod f.p} (ha : a.Line f T d) (hb : b.Line f T d')
    (hT : ∀ s ∈ T, s ∈ sc.within I) :
    (assignAll [x, y] [a, b] >>= fun _ => terminalSignal c "out" : Build σ Signal).Succeeds sc₁
      fun u ys sc' => u ∈ sc'.within (Set.Ico (sc.signals.length : ℤ) sc'.signals.length) ∧
        sc.Step f (xs ++ ys) sc' I (Set.Ico (sc.signals.length : ℤ) sc'.signals.length) F N
          (fun _ => True) fun v => v u = flag (d v = d' v) := by
  refine (succeeds_feed [x, y] (fun _ => True) h hgrows hf (by simp) (.cons ha (.cons hb .nil)) rfl
    hT fun _ _ _ => trivial).bind ?_
  rintro _ ys _ - hfit ⟨rfl, hstep⟩
  have hout : out ∈ sc₁.signals ∧ (sc.signals.length : ℤ) ≤ out.uid := h.given out (by simp)
  refine (yields_terminalSignal (h.terminal "out")).succeeds fun _ _ => ⟨?_, ?_⟩
  · exact ⟨hout.1, hout.2, hfit.numbered out hout.1⟩
  · rw [List.append_nil]
    refine hstep.imp (fun _ h => h) fun v hv => ?_
    obtain ⟨hfed, hvout⟩ := hv
    simp only [List.forall₂_cons, List.forall₂_nil_left_iff] at hfed
    rw [hvout, hfed.1, hfed.2.1]

/-- An indicator of a position is one step. -/
theorem succeeds_isAt (hp : f.p.Prime) (hf : sc.field = f) {a : SlotArray} {n i : ℕ}
    (h : sc.Vacant a n i) (hi : i < n) {position : Signal} (hpos : position ∈ sc.within I) :
    (isAt a i position : Build σ Signal).Succeeds sc fun out sts sc' =>
      out ∈ sc'.within (Set.Ico (sc.signals.length : ℤ) sc'.signals.length) ∧
        sc.Step f sts sc' I (Set.Ico (sc.signals.length : ℤ) sc'.signals.length) {(a.id, [i])} ∅
          (fun _ => True) fun v => v out = flag ((i : ZMod f.p) = v position) := by
  refine .fit fun hfit => (succeeds_filledEqual hp hf h hi).bind ?_
  rintro c xs sc₁ hgrows - ⟨x, y, out, mark, hplaced⟩
  have hf₁ : sc₁.field = f := hgrows.field.trans hf
  refine (yields_terminalSignals (hplaced.terminal "in")).skip fun _ _ => ?_
  refine (yields_const i).skip fun _ _ => ?_
  rw [hf₁]
  refine (succeeds_fedEqual hplaced hgrows hf₁ (.ofInt i)
    (hfit.line hf hpos) fun s hs => hs).mono ?_
  rintro u ys sc' - - ⟨hu, hstep⟩
  exact ⟨hu, hstep.imp (fun _ h => h) fun v hv => by rw [hv, Int.cast_natCast]⟩

/-! ## Cases -/

/-- **Sums of cases**: the values of `cs` and the number of them, each by an indicator that
    its key is `x`, added to what there was. -/
structure Gathers (sc : Scene) (f : PrimeField) (I : Set ℤ) (a : SlotArray) (x : Signal)
    (cs : List (ZMod f.p × Signal)) (terms : List Signal)
    (d d' : (Signal → ZMod f.p) → ZMod f.p) (least : ℤ) (acc active : Expr)
    (sts : List Statement) (sc' : Scene) : Prop where
  degree : cs ≠ [] ∨ 1 ≤ least → 1 ≤ active.degree
  step : ∃ D E : (Signal → ZMod f.p) → ZMod f.p,
    acc.Line f (sc'.within (I ∪ (Signal.numbers terms ∪
      Set.Ico (sc.signals.length : ℤ) sc'.signals.length))) D ∧
    active.Line f (sc'.within (I ∪ (Signal.numbers terms ∪
      Set.Ico (sc.signals.length : ℤ) sc'.signals.length))) E ∧
    sc.Step f sts sc' I (Signal.numbers terms ∪
      Set.Ico (sc.signals.length : ℤ) sc'.signals.length) {k | k.1 = a.id} ∅ (fun _ => True)
      fun v => D v = d v + chosen (v x) (cs.map fun c => (c.1, v c.2)) ∧
        E v = d' v + chosen (v x) (cs.map fun c => (c.1, 1))

/-- Without cases nothing is added. -/
theorem Gathers.nil {a : SlotArray} {x : Signal} {d d' : (Signal → ZMod f.p) → ZMod f.p}
    {acc active : Expr} (hacc : acc.Line f (sc.within I) d)
    (hactive : active.Line f (sc.within I) d') :
    Gathers sc f I a x [] [] d d' active.degree acc active [] sc where
  degree := by simp
  step := by
    have hsub : sc.within I ⊆ sc.within (I ∪ (Signal.numbers [] ∪
        Set.Ico (sc.signals.length : ℤ) sc.signals.length)) :=
      Scene.within_subset (.refl sc) Set.subset_union_left
    refine ⟨d, d', hacc.mono hsub, hactive.mono hsub, ?_⟩
    refine (Scene.Step.refl sc).mono subset_rfl ?_ (Set.empty_subset _) subset_rfl
      (fun _ h => h) fun v _ => ?_
    · simp [Signal.numbers]
    · simp [chosen]

/-- One more case before others: its product and its indicator are added first. -/
theorem Gathers.cons {sc₁ sc' : Scene} {xs sts : List Statement} {a : SlotArray} {i : ℕ}
    {x out value term : Signal} {key : ZMod f.p} {cs : List (ZMod f.p × Signal)}
    {terms : List Signal} {d d' : (Signal → ZMod f.p) → ZMod f.p} {acc active : Expr}
    {least least' : ℤ} (hfirst : sc.Step f xs sc₁ I
      (Set.Ico (sc.signals.length : ℤ) sc₁.signals.length ∪ {term.uid}) {(a.id, [i])} ∅
      (fun _ => True) fun v => v out = flag (key = v x) ∧ v term = v value * v out)
    (hgrows : sc.Grows sc₁) (hgrows' : sc₁.Grows sc') (hleast : 1 ≤ least')
    (h : Gathers sc₁ f (I ∪ (Set.Ico (sc.signals.length : ℤ) sc₁.signals.length ∪ {term.uid})) a x
      cs terms (fun v => d v + v term) (fun v => d' v + v out) least' acc active sts sc') :
    Gathers sc f I a x ((key, value) :: cs) (term :: terms) d d' least acc active (xs ++ sts)
      sc' := by
  obtain ⟨hdegree, D, E, hD, hE, hrest⟩ := h
  -- the new signals of both steps are one range
  have hall : Set.Ico (sc.signals.length : ℤ) sc₁.signals.length ∪ {term.uid} ∪
      (Signal.numbers terms ∪ Set.Ico (sc₁.signals.length : ℤ) sc'.signals.length) =
      Signal.numbers (term :: terms) ∪ Set.Ico (sc.signals.length : ℤ) sc'.signals.length := by
    rw [Signal.numbers_cons, ← Set.Ico_union_Ico_eq_Ico (Int.ofNat_le.2 hgrows.length_le)
      (Int.ofNat_le.2 hgrows'.length_le)]
    ext u
    simp only [Set.mem_union]
    tauto
  rw [Set.union_assoc I, hall] at hD hE
  refine ⟨fun _ => hdegree (Or.inr hleast), D, E, hD, hE, ?_⟩
  refine (hfirst.trans hrest subset_rfl fun _ _ _ => trivial).mono subset_rfl hall ?_ (by simp)
    (fun _ h => h) ?_
  · rintro k (rfl | hk)
    · rfl
    · exact hk
  · rintro v ⟨⟨hvout, hvterm⟩, hD, hE⟩
    simp only [List.map_cons, chosen_cons]
    rw [hD, hE, hvterm, hvout]
    constructor <;> ring

/-- **One more case**: after the indicator of its key, the product of its value and the
    indicator is assigned, and added to the sum. -/
theorem succeeds_gather {α : Type} {acc active : α → Expr} {acc₀ active₀ : Expr} {sc₁ : Scene}
    {xs : List Statement} {a : SlotArray} {n i : ℕ} {x out value term : Signal}
    {key : ZMod f.p} {cs : List (ZMod f.p × Signal)} {terms : List Signal}
    {d d' : (Signal → ZMod f.p) → ZMod f.p} {k : Unit → Build σ α} (hf : sc.field = f)
    (hfit : sc.Fit) (hgrows : sc.Grows sc₁) (hfit₁ : sc₁.Fit)
    (hout : out ∈ sc₁.within (Set.Ico (sc.signals.length : ℤ) sc₁.signals.length))
    (hind : sc.Step f xs sc₁ I (Set.Ico (sc.signals.length : ℤ) sc₁.signals.length) {(a.id, [i])}
      ∅ (fun _ => True) fun v => v out = flag (key = v x))
    (hvacant : sc.Vacant a n i) (hvalue : value ∈ sc.within I) (hterm : sc.Open term)
    (hacc : acc₀.Line f (sc.within I) d) (hactive : active₀.Line f (sc.within I) d')
    (hk : ∀ sc₂ J, sc₂.field = f → sc.within I ⊆ sc₂.within J → sc₂.Vacant a n (i + 1) →
      (∀ s, sc.Open s → s.uid ≠ term.uid → sc₂.Open s) →
      (acc₀.add (.ofSignal term)).Line f (sc₂.within J) (fun v => d v + v term) →
      (active₀.add (.ofSignal out)).Line f (sc₂.within J) (fun v => d' v + v out) →
      (k ()).Succeeds sc₂ fun r sts sc' => Gathers sc₂ f J a x cs terms (fun v => d v + v term)
        (fun v => d' v + v out) (active₀.add (.ofSignal out)).degree (acc r) (active r) sts sc') :
    (times (.ofSignal value) (.ofSignal out) >>= fun product => assign term product >>= k).Succeeds
      sc₁ fun r sts sc' => Gathers sc f I a x ((key, value) :: cs) (term :: terms) d d'
        active₀.degree (acc r) (active r) (xs ++ sts) sc' := by
  have hf₁ : sc₁.field = f := hgrows.field.trans hf
  have hfield {s : Signal} (hs : s ∈ sc₁.signals) : s.field = f := (hfit₁.field s hs).trans hf₁
  have hterm₁ : sc₁.Open term := hterm.below hfit hgrows hind.toEffect
  set J := Set.Ico (sc.signals.length : ℤ) sc₁.signals.length
  obtain ⟨product, hproduct, hform, -⟩ :=
    (hfit₁.line hf₁ (I := I ∪ J) (Scene.within_subset hgrows Set.subset_union_left hvalue)).mul
      (hfit₁.line hf₁ (Scene.within_subset (.refl sc₁) Set.subset_union_right hout))
  have hassign := sc₁.step_assign hform (fun s hs => hs.2) sc₁.path term
  refine (yields_times hproduct).skip fun _ _ => ?_
  refine (yields_assign hf₁ hterm₁ (hform.mono fun s hs => hs.1)).emit fun hgrows₂ _ => ?_
  -- what the remaining cases start from
  have hsub : sc.within I ⊆ (sc₁.assign term).within (I ∪ (J ∪ {term.uid})) :=
    Scene.within_subset (hgrows.trans hgrows₂) Set.subset_union_left
  have hvacant₂ := (hvacant.later hgrows hind.toEffect (Nat.le_succ i) fun j hj hmem => by
    have : j = i := by simpa using hmem
    omega).assign term
  refine (hk (sc₁.assign term) _ hf₁ hsub hvacant₂ (fun s hs hne =>
      (hs.below hfit hgrows hind.toEffect).assign hne)
    ((hacc.mono hsub).add (.ofSignal ⟨hterm₁.mem, Or.inr (Or.inr rfl)⟩ (hfield hterm₁.mem)))
    ((hactive.mono hsub).add
      (.ofSignal ⟨hout.1, Or.inr (Or.inl hout.2)⟩ (hfield hout.1)))).mono ?_
  rintro r sts sc' hgrows' - hrest
  have hfirst := (hind.trans hassign subset_rfl fun _ _ _ => trivial).mono subset_rfl rfl
    (Set.union_empty _).subset (Set.union_empty _).subset (fun _ h => h) fun _ h => h
  have hleast : 1 ≤ (active₀.add (.ofSignal out)).degree := by
    rw [Expr.degree_add]
    exact le_max_right _ _
  rw [List.append_cons]
  exact .cons hfirst (hgrows.trans hgrows₂) hgrows' hleast hrest

/-! ## Selectors -/

theorem selectFrom_cons (a : SlotArray) (index : Signal) (i : ℕ) (acc active : Expr)
    (x term : Signal) (rest : List (Signal × Signal)) :
    (selectFrom a index i acc active ((x, term) :: rest) : Build σ (Expr × Expr)) =
      isAt a i index >>= fun out => times (.ofSignal x) (.ofSignal out) >>= fun product =>
        assign term product >>= fun _ =>
          selectFrom a index (i + 1) (acc.add (.ofSignal term)) (active.add (.ofSignal out))
            rest := by
  simp only [selectFrom, selectAt, isAt, bind_assoc, pure_bind]

/-- Values with their positions, from `i` on, as keys. -/
def positioned {p : ℕ} {α : Type} (i : ℕ) (xs : List α) : List (ZMod p × α) :=
  (xs.zipIdx i).map fun q => ((q.2 : ZMod p), q.1)

/-- **The positions of a selector, one by one.** -/
theorem succeeds_selectFrom (hp : f.p.Prime) {a : SlotArray} {n : ℕ} {index : Signal} :
    ∀ {pairs : List (Signal × Signal)} {i : ℕ} {acc active : Expr}
      {d d' : (Signal → ZMod f.p) → ZMod f.p} {sc : Scene} {I : Set ℤ}, sc.field = f →
    sc.Vacant a n i → i + pairs.length ≤ n → index ∈ sc.within I →
    (∀ q ∈ pairs, q.1 ∈ sc.within I ∧ sc.Open q.2) → (pairs.map (·.2.uid)).Nodup →
    acc.Line f (sc.within I) d → active.Line f (sc.within I) d' →
    (selectFrom a index i acc active pairs : Build σ (Expr × Expr)).Succeeds sc fun r sts sc' =>
      Gathers sc f I a index (positioned i (pairs.map (·.1))) (pairs.map (·.2)) d d'
        active.degree r.1 r.2 sts sc'
  | [], i, acc, active, d, d', sc, I, _, _, _, _, _, _, hacc, hactive =>
    (yields_pure (acc, active)).succeeds fun _ _ => .nil hacc hactive
  | (x, term) :: rest, i, acc, active, d, d', sc, I, hf, hvacant, hle, hindex, hpairs, hnd, hacc,
      hactive => by
    obtain ⟨⟨hx, hterm⟩, hpairs⟩ := List.forall_mem_cons.1 hpairs
    obtain ⟨hnew, hnd⟩ := List.nodup_cons.1 hnd
    rw [List.length_cons] at hle
    rw [selectFrom_cons]
    refine .fit fun hfit => (succeeds_isAt hp hf hvacant (by omega) hindex).bind ?_
    rintro out xs sc₁ hgrows hfit₁ ⟨hout, hind⟩
    refine succeeds_gather hf hfit hgrows hfit₁ hout hind hvacant hx hterm hacc hactive
      fun sc₂ J hf₂ hsub hvacant₂ hopen hacc₂ hactive₂ => ?_
    refine succeeds_selectFrom hp hf₂ hvacant₂ (by omega) (hsub hindex) (fun q hq => ?_) hnd hacc₂
      hactive₂
    obtain ⟨hq₁, hq₂⟩ := hpairs q hq
    exact ⟨hsub hq₁, hopen q.2 hq₂ fun heq => hnew (List.mem_map.2 ⟨q, hq, heq⟩)⟩

section
variable {p : ℕ} {α : Type} {xs : List α}

theorem mem_positioned {c : ZMod p × α} :
    c ∈ positioned 0 xs ↔ ∃ i : ℕ, xs[i]? = some c.2 ∧ (i : ZMod p) = c.1 := by
  simp only [positioned, List.mem_map, Prod.exists, List.mem_zipIdx_iff_getElem?]
  constructor
  · rintro ⟨x, i, hx, rfl⟩
    exact ⟨i, hx, rfl⟩
  · rintro ⟨i, hx, hi⟩
    exact ⟨c.2, i, hx, Prod.ext hi rfl⟩

/-- As many positions as there are field elements are different. -/
theorem nodup_positioned (h : xs.length ≤ p) : ((positioned (p := p) 0 xs).map (·.1)).Nodup := by
  have hkeys : (positioned (p := p) 0 xs).map (·.1) = (List.range xs.length).map Nat.cast := by
    rw [List.range_eq_range', ← List.zipIdx_map_snd, List.map_map, positioned, List.map_map]
    rfl
  rw [hkeys]
  refine List.Nodup.map_on (fun i hi j hj hij => ?_) List.nodup_range
  rw [List.mem_range] at hi hj
  rw [ZMod.natCast_eq_natCast_iff', Nat.mod_eq_of_lt (by omega), Nat.mod_eq_of_lt (by omega)] at hij
  exact hij

/-- **The value at a position is chosen.** -/
theorem chosen_positioned (h : xs.length ≤ p) {i : ℕ} {x : α} (hx : xs[i]? = some x)
    (g : α → ZMod p) : chosen (i : ZMod p) ((positioned 0 xs).map fun c => (c.1, g c.2)) = g x := by
  refine chosen_of_mem ?_ (List.mem_map.2 ⟨((i : ZMod p), x), mem_positioned.2 ⟨i, hx, rfl⟩, rfl⟩)
  rw [List.map_map]
  exact nodup_positioned h

/-- If something is chosen, then at a position. -/
theorem exists_of_chosen_ne_zero {x : ZMod p} {g : α → ZMod p}
    (h : chosen x ((positioned 0 xs).map fun c => (c.1, g c.2)) ≠ 0) :
    ∃ (i : ℕ) (y : α), xs[i]? = some y ∧ x = i := by
  by_contra hnone
  refine h (chosen_of_forall_ne fun c hc heq => hnone ?_)
  obtain ⟨c, hmem, rfl⟩ := List.mem_map.1 hc
  obtain ⟨i, hi, hkey⟩ := mem_positioned.1 hmem
  exact ⟨i, c.2, hi, heq.symm.trans hkey.symm⟩

end

/-! ## Selectors with a bound -/

/-- A selector before its index is bounded; it gives its inputs and the sum of its
    indicators. -/
def selection (n : Value) : Build σ (List Signal × Signal × Expr) := do
  checkBound n 1
  let xs ← signals .input "in" n
  let index ← signal .input "index"
  let out ← signal .output "out"
  let terms ← signals .intermediate "terms" n
  let eqs ← slots "eqs" n
  let sums ← selectFrom eqs index 0 (← const 0) (← const 0) (xs.zip terms)
  assign out sums.1
  return (xs, index, sums.2)

/-- An index is bounded by the size of a selector, and one indicator is set. -/
def boundIndex (n : Value) (xs : List Signal) (index : Signal) (active : Expr) :
    Build σ Unit := do
  let lt ← component "lt" (lessThanTemplate (.int (max 1 (← demand n.bitLength) : ℕ)))
  assignAll (← terminalSignals lt "in") [.ofSignal index, ← const xs.length]
  constrain (.ofSignal (← terminalSignal lt "out")) (← const 1)
  constrain active (← const 1)

/-- An index is forced below a bound by a comparison. -/
def forceBelow (width : ℕ) (index : Signal) (n : ℕ) : Build σ Unit := do
  let lt ← component "lt" (lessThanTemplate (.int width))
  assignAll (← terminalSignals lt "in") [.ofSignal index, ← const n]
  constrain (.ofSignal (← terminalSignal lt "out")) (← const 1)

theorem boundIndex_eq (n : Value) (xs : List Signal) (index : Signal) (active : Expr) :
    (boundIndex n xs index active : Build σ Unit) =
      demand n.bitLength >>= fun k => forceBelow (max 1 k) index xs.length >>= fun _ =>
        const 1 >>= constrain active := by
  simp only [boundIndex, forceBelow, bind_assoc]

theorem quinSelector_safe (n : Value) : (quinSelector n (.bool true) : Build σ Unit) =
    selection n >>= fun s => boundIndex n s.1 s.2.1 s.2.2 := by
  simp only [quinSelector, selection, boundIndex, bind_assoc, pure_bind]
  rfl

theorem yields_checkBound {n k : ℕ} (h : k ≤ n) :
    (checkBound (.int n) k : Build σ Unit).Yields sc () [] sc := by
  obtain ⟨v, hv, htruth⟩ := Value.binary_lt_of_index (n := .int n) rfl k
  rw [decide_eq_false (by omega)] at htruth
  refine (yields_demand (a := false) ?_).map rfl
  rw [hv]
  exact htruth

/-- Smaller sizes are refused. -/
theorem fails_checkBound {n k : Int} (h : n < k) :
    (checkBound (.int n) k : Build σ Unit).Fails sc (Refused n) := by
  obtain ⟨v, hv, htruth⟩ := Value.binary_lt_of_index (n := .int n) rfl k
  rw [decide_eq_true h] at htruth
  refine (yields_demand (a := true) ?_).fails ?_
  · rw [hv]
    exact htruth
  · exact fails_naming n (fun path text => .boundTooSmall path k text) fun _ _ => rfl

/-- The inputs of a selector. -/
def selectorInputs (xs : List Signal) (mark : Mark) (index : Signal) : List Declaration :=
  [⟨"in", .input, .row xs mark⟩, ⟨"index", .input, .single index⟩]

theorem length_flat_selectorInputs (xs : List Signal) (mark : Mark) (index : Signal) :
    (Declaration.flat (selectorInputs xs mark index)).length = xs.length + 1 := by
  simp [selectorInputs]

/-- A single output. -/
def soleOutput (out : Signal) : List Declaration := [⟨"out", .output, .single out⟩]

/-- What a selector has done before its index is bounded. -/
structure Selects (sc : Scene) (f : PrimeField) (xs : List Signal) (mark : Mark)
    (index out : Signal) (active : Expr) (count : (Signal → ZMod f.p) → ZMod f.p)
    (sts : List Statement) (sc' : Scene) : Prop where
  interface : sc.Interface (selectorInputs xs mark index) (soleOutput out)
  grows : (sc.declareAll (selectorInputs xs mark index ++ soleOutput out)).Grows sc'
  degree : 1 ≤ active.degree
  line : active.Line f (sc'.within (Set.Ico (sc.signals.length : ℤ) sc'.signals.length)) count
  step : (sc.declareAll (selectorInputs xs mark index ++ soleOutput out)).Step f sts sc'
    (Set.Ico (sc.signals.length : ℤ) (sc.signals.length + xs.length + 1))
    (Set.Ico (sc.signals.length + xs.length + 1 : ℤ) sc'.signals.length)
    {k | sc.arrays ≤ k.1} {"terms", "eqs"} (fun _ => True)
    fun v => v out = chosen (v index) ((positioned 0 xs).map fun c => (c.1, v c.2)) ∧
      count v = chosen (v index) ((positioned 0 xs).map fun c => (c.1, 1))

/-- The output of a component, a row of terms and places for indicators are declared. -/
structure Prepared (sc : Scene) (n k : ℕ) (out : Signal) (terms : List Signal)
    (eqs : SlotArray) (sc' : Scene) : Prop where
  output : sc.New .output (.single out)
  grows : (sc.declare ⟨"out", .output, .single out⟩).Grows sc'
  size : sc'.signals.length = sc.signals.length + n + 1
  uid : out.uid = sc.signals.length
  length : terms.length = n
  numbers : Signal.numbers terms =
    Set.Ico (sc.signals.length + 1 : ℤ) (sc.signals.length + n + 1)
  nodup : (terms.map (·.uid)).Nodup
  openOut : sc'.Open out
  openTerm : ∀ t ∈ terms, sc'.Open t
  vacant : sc'.Vacant eqs k 0
  id : eqs.id = sc.arrays
  lift : ∀ {f xs sc'' I U F N Pre Post}, sc'.Step f xs sc'' I U F N Pre Post →
    (sc.declare ⟨"out", .output, .single out⟩).Step f xs sc'' I U F ({"terms"} ∪ ({"eqs"} ∪ N))
      Pre Post

namespace Prepared

variable {sc' : Scene} {n k : ℕ} {out : Signal} {terms : List Signal} {eqs : SlotArray}
  (h : Prepared sc n k out terms eqs sc')
include h

/-- The output is numbered before the terms and the children. -/
theorem output_notMem (m : ℤ) :
    out.uid ∉ Signal.numbers terms ∪ Set.Ico (sc'.signals.length : ℤ) m := by
  have huid := h.uid
  have hsize := h.size
  rw [h.numbers, Set.mem_union, Set.mem_Ico, Set.mem_Ico]
  omega

/-- The output, the terms and the children are all that comes after the inputs. -/
theorem numbers_all {m : ℕ} (hm : sc'.signals.length ≤ m) :
    Signal.numbers terms ∪ Set.Ico (sc'.signals.length : ℤ) m ∪ {out.uid} =
      Set.Ico (sc.signals.length : ℤ) m := by
  have huid := h.uid
  have hsize := h.size
  rw [h.numbers]
  ext u
  simp only [Set.mem_union, Set.mem_Ico, Set.mem_singleton_iff]
  omega

end Prepared

theorem succeeds_prepare {α : Type} {Q : α → List Statement → Scene → Prop} {n k : ℕ}
    {g : Signal → List Signal → SlotArray → Build σ α} (hout : "out" ∉ sc.names)
    (hterms : "terms" ∉ sc.names) (heqs : "eqs" ∉ sc.names) (hk : k ≤ sc.signals.length + n)
    (hg : ∀ out terms eqs sc', Prepared sc n k out terms eqs sc' →
      (g out terms eqs).Succeeds sc' Q) :
    (do let out ← signal .output "out"
        let terms ← signals .intermediate "terms" (.int n)
        let eqs ← slots "eqs" (.int k)
        g out terms eqs).Succeeds sc Q := by
  refine .fit fun hfit => (yields_signal hout).skip fun _ hfit₁ => ?_
  set out := sc.single .output "out"
  set sc₁ := sc.declare ⟨"out", .output, .single out⟩ with hsc₁
  refine succeeds_row n (by simp [hsc₁, hterms]) fun terms hlen hnew hfit₂ => ?_
  set sc₂ := sc₁.declare ⟨"terms", .intermediate, .row terms sc₁.mark⟩ with hsc₂
  have hlen₁ : sc₁.signals.length = sc.signals.length + 1 := by simp [hsc₁]
  have hlen₂ : sc₂.signals.length = sc.signals.length + n + 1 := by
    simp [hsc₂, hlen₁, hlen]
    omega
  refine (yields_slots (by simp [hsc₁, hsc₂, heqs]) (by omega)).skip fun hgrows₃ _ => ?_
  refine hg out terms _ _ ⟨sc.new_single .output "out", (sc₁.grows_declare _).trans hgrows₃, hlen₂,
    rfl, hlen, ?_, hnew.consecutive.nodup, ?_, ?_, Scene.vacant_slots hfit₂ "eqs" k, rfl,
    fun h => h.arrayed.declared rfl⟩
  · rw [hnew.consecutive.numbers, hlen₁, hlen]
    ext u
    simp only [Set.mem_Ico]
    omega
  · exact (((sc.new_single .output "out").isOpen_single hfit (Or.inl rfl)).declare _).array _
  · exact fun t ht => (hnew.isOpen_row hfit₁ (Or.inr rfl) t ht).array _

theorem map_uid_zip {xs terms : List Signal} (h : terms.length ≤ xs.length) :
    (xs.zip terms).map (·.2.uid) = terms.map (·.uid) := by
  rw [← List.map_snd_zip h, List.map_map]
  simp [List.map_snd_zip h]

/-- **The sums of a selector**, once its signals are declared. -/
theorem succeeds_sums (hp : f.p.Prime) (hf : sc.field = f) {sc₀ : Scene} {n : ℕ} (hn : 1 ≤ n)
    {xs terms : List Signal} {index out : Signal} {eqs : SlotArray} (hlen : xs.length = n)
    (hprep : Prepared sc₀ n n out terms eqs sc) (hin : ∀ s ∈ xs ++ [index], s ∈ sc.within I) :
    (do let (acc, active) ← selectFrom eqs index 0 (.ofInt f 0) (.ofInt f 0) (xs.zip terms)
        assign out acc
        return (xs, index, active) : Build σ (List Signal × Signal × Expr)).Succeeds sc
      fun r sts sc' => ∃ (active : Expr) (count : (Signal → ZMod f.p) → ZMod f.p),
        r = (xs, index, active) ∧ 1 ≤ active.degree ∧
          active.Line f (sc'.within (I ∪ Set.Ico (sc₀.signals.length : ℤ) sc'.signals.length))
            count ∧
          sc.Step f sts sc' I (Set.Ico (sc₀.signals.length : ℤ) sc'.signals.length)
            {k | k.1 = eqs.id} ∅ (fun _ => True)
            fun v => v out = chosen (v index) ((positioned 0 xs).map fun c => (c.1, v c.2)) ∧
              count v = chosen (v index) ((positioned 0 xs).map fun c => (c.1, 1)) := by
  have hzip : terms.length = xs.length := hprep.length.trans hlen.symm
  have hpairs : ∀ q ∈ xs.zip terms, q.1 ∈ sc.within I ∧ sc.Open q.2 := by
    rintro ⟨x, term⟩ hq
    obtain ⟨hx, hterm⟩ := List.of_mem_zip hq
    exact ⟨hin x (by simp [hx]), hprep.openTerm term hterm⟩
  refine (succeeds_selectFrom hp hf hprep.vacant (by simp [hlen]) (hin index (by simp)) hpairs
    (by rw [map_uid_zip hzip.le]; exact hprep.nodup) (.ofInt 0) (.ofInt 0)).bind ?_
  rintro ⟨acc, active⟩ sts sc₁ hgrows₁ - ⟨hdegree, D, E, hacc, hactive, hstep⟩
  rw [List.map_fst_zip hzip.ge] at hdegree hstep
  rw [List.map_snd_zip hzip.le] at hacc hactive hstep
  have hassign := sc₁.step_assign hacc.toForm (fun s hs => hs.2) sc₁.path out
  have hnumbers := hprep.numbers_all hgrows₁.length_le
  refine (yields_assign (hgrows₁.field.trans hf)
    (hprep.openOut.later hgrows₁ hstep.toEffect (hprep.output_notMem _))
    (hacc.toForm.mono fun s hs => hs.1)).emit fun hgrows₂ _ =>
    (yields_pure (xs, index, active)).succeeds fun _ _ => ⟨active, E, rfl, ?_, ?_, ?_⟩
  · refine hdegree (Or.inl fun hnil => ?_)
    have := congrArg List.length hnil
    simp [positioned, hlen] at this
    omega
  · refine hactive.mono (Scene.within_subset hgrows₂ (Set.union_subset_union_right I ?_))
    exact Set.subset_union_left.trans hnumbers.subset
  · refine (hstep.trans hassign subset_rfl fun _ _ _ => trivial).mono subset_rfl hnumbers (by simp)
      (by simp) (fun _ h => h) ?_
    rintro v ⟨⟨hD, hE⟩, hvout⟩
    exact ⟨by rw [hvout, hD]; simp, by rw [hE]; simp⟩

/-- **A selector up to its sums.** -/
theorem succeeds_selection (hp : f.p.Prime) (hf : sc.field = f) (hblank : sc.Blank) {n : ℕ}
    (hn : 1 ≤ n) :
    (selection (.int n) : Build σ (List Signal × Signal × Expr)).Succeeds sc fun r sts sc' =>
      r.1.length = n ∧
        ∃ mark out count, Selects sc f r.1 mark r.2.1 out r.2.2 count sts sc' := by
  refine (yields_checkBound hn).skip fun _ _ => ?_
  refine succeeds_row n (by simp [hblank.names]) fun xs hlen hbus _ => ?_
  set sc₁ := sc.declare ⟨"in", .input, .row xs sc.mark⟩ with hsc₁
  refine (yields_signal (by simp [hsc₁, hblank.names])).skip fun _ _ => ?_
  set index := sc₁.single .input "index"
  set sc₂ := sc₁.declare ⟨"index", .input, .single index⟩ with hsc₂
  have hlen₂ : sc₂.signals.length = sc.signals.length + n + 1 := by
    simp [hsc₁, hsc₂, hlen]
    omega
  refine succeeds_prepare (by simp [hsc₁, hsc₂, hblank.names])
    (by simp [hsc₁, hsc₂, hblank.names]) (by simp [hsc₁, hsc₂, hblank.names]) (by omega)
    fun out terms eqs sc₃ hprep => ?_
  have hinterface : sc.Interface (selectorInputs xs sc.mark index) (soleOutput out) :=
    (((Scene.Interface.nil sc).input hbus "in").input (sc₁.new_single .input "index")
      "index").output hprep.output "out"
  have hf₃ : sc₃.field = f := hprep.grows.field.trans (by simpa [hsc₁, hsc₂] using hf)
  have hin : ∀ s ∈ xs ++ [index], s ∈ sc₃.within
      (Set.Ico (sc.signals.length : ℤ) (sc.signals.length + n + 1)) := by
    intro s hs
    refine Scene.within_subset hprep.grows ?_ (hinterface.within_numbers (s := s) ?_)
    · rw [length_flat_selectorInputs, hlen, Nat.cast_add, Nat.cast_one, ← add_assoc]
    · simpa [selectorInputs] using hs
  refine (yields_const 0).skip fun _ _ => (yields_const 0).skip fun _ _ => ?_
  rw [hf₃]
  refine (succeeds_sums hp hf₃ hn hlen hprep hin).mono ?_
  rintro _ sts sc₄ hgrows₄ - ⟨active, count, rfl, hdegree, hline, hstep⟩
  have hle := hgrows₄.length_le
  rw [hprep.size] at hle
  refine ⟨hlen, sc.mark, out, count, hinterface, hprep.grows.trans hgrows₄, hdegree, ?_, ?_⟩
  · refine hline.mono (Scene.within_subset (.refl sc₄) (Set.union_subset ?_ ?_))
    · exact Set.Ico_subset_Ico_right (by omega)
    · exact Set.Ico_subset_Ico_left (by omega)
  · refine (hprep.lift hstep).mono ?_ ?_ ?_ ?_ (fun _ h => h) fun _ h => h
    · rw [hlen]
    · rw [hlen, hlen₂]
      push_cast
      rfl
    · exact fun k hk => (hk.trans hprep.id).ge
    · simp [Set.pair_comm]

theorem lt_two_pow_bitLength (n : ℕ) : n < 2 ^ Decimal.bitLength n := by
  rcases Nat.eq_zero_or_pos n with rfl | hn
  · decide
  · rw [bitLength_eq hn.ne']
    exact Nat.lt_log2_self

theorem bitLength_pos {n : ℕ} (hn : 1 ≤ n) : 1 ≤ Decimal.bitLength n := by
  rw [bitLength_eq (by omega)]
  omega

/-- The digits of a size and one more fit into a field. -/
theorem width_bitLength {n : ℕ} (hn : 1 ≤ n) : Width f (Decimal.bitLength n) ↔
    Decimal.bitLength n + 1 < Decimal.bitLength f.p := by
  have := bitLength_pos hn
  rw [Width]
  constructor
  · rintro ⟨-, h⟩
    exact_mod_cast h
  · exact fun h => ⟨by omega, by exact_mod_cast h⟩

theorem Width.le_p {n : ℕ} (h : Width f (Decimal.bitLength n)) : n ≤ f.p :=
  (lt_two_pow_bitLength n).le.trans (lt_bitLength (by have := h.2; omega))

/-- The index names an entry of a row, and a signal has its value. -/
def Picks (f : PrimeField) (row : List Signal) (index out : Signal) (v : Signal → ZMod f.p) :
    Prop :=
  ∃ (i : ℕ) (x : Signal), row[i]? = some x ∧ v index = i ∧ v out = v x

section
variable {n : ℕ} {xs : List Signal} {mark : Mark} {index out : Signal} {active : Expr}
  {count : (Signal → ZMod f.p) → ZMod f.p} {sts : List Statement} {sc₁ : Scene}

/-- The name of the bound is free. -/
theorem Selects.free (h : Selects sc f xs mark index out active count sts sc₁)
    (hblank : sc.Blank) : "lt" ∉ sc₁.names := by
  intro hmem
  have := h.step.names hmem
  simp [selectorInputs, soleOutput, Scene.declareAll, hblank.names] at this

theorem Selects.index_mem (h : Selects sc f xs mark index out active count sts sc₁) :
    index ∈ sc₁.within (Set.Ico (sc.signals.length : ℤ) (sc.signals.length + xs.length + 1)) := by
  refine Scene.within_subset h.grows ?_ (h.interface.within_numbers (s := index) (by
    simp [selectorInputs]))
  rw [length_flat_selectorInputs, Nat.cast_add, Nat.cast_one, ← add_assoc]

/-- **A comparison with a bound** is satisfied by every index below it. -/
theorem succeeds_forceBelow (hp : f.p.Prime) (hf : sc.field = f) (hname : "lt" ∉ sc.names)
    {width : ℕ} (hwidth : Width f width) (hn : n ≤ 2 ^ width) (hindex : index ∈ sc.within I) :
    (forceBelow width index n : Build σ Unit).Succeeds sc fun _ sts sc' =>
      sc.Step f sts sc' I (Set.Ico (sc.signals.length : ℤ) sc'.signals.length) ∅ {"lt"}
        (fun v => ∃ i : ℕ, i < n ∧ v index = i) fun _ => True := by
  refine .fit fun hfit => (succeeds_placedLessThan hp hf hname hwidth).bind ?_
  rintro lt xs sc₁ hgrows₁ hfit₁ ⟨x, y, o, mark, hplaced⟩
  have hf₁ : sc₁.field = f := hgrows₁.field.trans hf
  refine (yields_terminalSignals (hplaced.terminal "in")).skip fun _ _ => ?_
  refine (yields_const n).skip fun _ _ => ?_
  rw [hf₁]
  have hline : (Expr.ofSignal index).Line f {index} fun v => v index :=
    .ofSignal rfl ((hfit.field index hindex.1).trans hf)
  have hmine : ∀ s ∈ ({index} : Set Signal), s ∈ sc.signals ∧ s.uid ∈ I := by
    rintro s rfl
    exact hindex
  have hfitting {v : Signal → ZMod f.p} {i : ℕ} (hi : i < n) (hvx : v x = i)
      (hvy : v y = (n : ℤ)) : Fitting width (v x) (v y) i n :=
    ⟨by omega, hn, hvx, by rw [hvy, Int.cast_natCast]⟩
  refine (succeeds_feed [x, y] (fun v => ∃ i : ℕ, i < n ∧ v index = i) hplaced hgrows₁ hf₁ (by simp)
    (.cons hline (.cons (.ofInt n) .nil)) rfl hmine ?_).bind ?_
  · rintro v ⟨i, hi, hvi⟩ hfed
    simp only [List.forall₂_cons, List.forall₂_nil_left_iff] at hfed
    exact ⟨i, n, hfitting hi (hfed.1.trans hvi) hfed.2.1⟩
  rintro _ ys _ hgrows₂ - ⟨rfl, hfed⟩
  have hf₂ : (sc₁.assignAll [x, y]).field = f := hf₁
  have ho : o ∈ sc₁.signals := (hplaced.given o (by simp)).1
  have hlineOut : (Expr.ofSignal o).Line f {s | s ∈ sc₁.signals} fun v => v o :=
    .ofSignal ho ((hfit₁.field o ho).trans hf₁)
  have hone : (Expr.ofInt f 1).Line f {s | s ∈ sc₁.signals} _ := .ofInt 1
  refine (yields_terminalSignal (hplaced.terminal "out")).skip fun _ _ => ?_
  refine (yields_const 1).skip fun _ _ => ?_
  rw [hf₂]
  refine (yields_constrain hf₂ hlineOut.toForm hone (by simp)).succeeds fun _ _ => ?_
  have hrow := (sc₁.assignAll [x, y]).step_constrain (I := ∅) hlineOut.toForm hone.toForm sc₁.path
  have hsteps := hfed.trans hrow (Set.empty_subset _) (by
    rintro v ⟨i, hi, hvi⟩ ⟨hfed, hlt⟩
    simp only [List.forall₂_cons, List.forall₂_nil_left_iff] at hfed
    rw [hlt i n (hfitting hi (hfed.1.trans hvi) hfed.2.1), flag, if_pos hi, Int.cast_one])
  rw [List.append_assoc] at hsteps
  exact hsteps.mono subset_rfl (Set.union_empty _) (by simp) (by simp) (fun _ h => h)
    fun _ _ => trivial

/-- **The index of a selector is bounded.**  The sum of the indicators alone says that the
    index is a position; the comparison is satisfied by every position. -/
theorem succeeds_boundIndex (hp : f.p.Prime) (hf : sc.field = f) (hblank : sc.Blank)
    (hn : 1 ≤ xs.length) (hwidth : Width f (Decimal.bitLength xs.length))
    (h : Selects sc f xs mark index out active count sts sc₁) :
    (boundIndex (.int xs.length) xs index active : Build σ Unit).Succeeds sc₁ fun _ ys sc' =>
      sc.Provides f (selectorInputs xs mark index) (soleOutput out)
        (fun v => ∃ i : ℕ, i < xs.length ∧ v index = i)
        (Picks f xs index out) (sts ++ ys) sc' := by
  have := Fact.mk hp
  have hf₁ : sc₁.field = f := h.grows.field.trans (by
    simpa [selectorInputs, soleOutput, Scene.declareAll] using hf)
  rw [boundIndex_eq]
  refine (yields_demand (a := Decimal.bitLength xs.length) rfl).skip fun _ _ => ?_
  rw [max_eq_right (bitLength_pos hn)]
  refine (succeeds_forceBelow hp hf₁ (h.free hblank) hwidth (lt_two_pow_bitLength _).le
    h.index_mem).bind ?_
  rintro _ ys sc₂ hgrows₂ - hbelow
  have hf₂ : sc₂.field = f := hgrows₂.field.trans hf₁
  have hactive := h.line.mono (U := {s | s ∈ sc₂.signals}) fun s hs => hgrows₂.mem hs.1
  have hone : (Expr.ofInt f 1).Line f {s | s ∈ sc₂.signals} _ := .ofInt 1
  refine (yields_const 1).skip fun _ _ => ?_
  rw [hf₂]
  refine (yields_constrain hf₂ hactive.toForm hone (by have := h.degree; simp; omega)).succeeds
    fun _ _ => ?_
  have hfront : (sc.declareAll (selectorInputs xs mark index ++ soleOutput out)).Step f sts sc₁
      _ _ _ _ (fun v => ∃ i : ℕ, i < xs.length ∧ v index = i) _ :=
    h.step.imp (fun _ _ => trivial) fun _ h => h
  have hsteps := (hfront.trans hbelow Set.subset_union_left fun v hv _ => hv).trans
    (sc₂.step_constrain (I := ∅) hactive.toForm hone.toForm sc₂.path) (Set.empty_subset _) (by
      rintro v ⟨i, hi, hvi⟩ ⟨⟨-, hcount⟩, -⟩
      rw [hcount, hvi, chosen_positioned hwidth.le_p (List.getElem?_eq_getElem hi) fun _ => 1,
        Int.cast_one])
  rw [List.append_assoc] at hsteps
  refine h.interface.provides hblank (h.grows.trans hgrows₂) (hsteps.imp (fun _ h => h) ?_) ?_ ?_
    (by simp)
  · rintro v ⟨⟨⟨hvout, hcount⟩, -⟩, hone⟩
    obtain ⟨i, x, hx, hvi⟩ := exists_of_chosen_ne_zero (g := fun _ => 1) (by
      rw [← hcount, hone, Int.cast_one]
      exact one_ne_zero)
    exact ⟨i, x, hx, hvi, by rw [hvout, hvi, chosen_positioned hwidth.le_p hx v]⟩
  · rw [h.interface.numbers.numbers, length_flat_selectorInputs, Nat.cast_add, Nat.cast_one,
      ← add_assoc]
  · rw [length_flat_selectorInputs]
    have := hgrows₂.length_le
    have := h.grows.length_le
    ext u
    simp [selectorInputs, soleOutput, Scene.declareAll] at this ⊢
    omega

end

/-- **The component that selects one of `n` inputs.** -/
theorem succeeds_quinSelector (hp : f.p.Prime) (hf : sc.field = f) (hblank : sc.Blank) {n : ℕ}
    (hn : 1 ≤ n) (hwidth : Width f (Decimal.bitLength n)) :
    (quinSelector (.int n) (.bool true) : Build σ Unit).Succeeds sc fun _ sts sc' =>
      ∃ xs mark index out, xs.length = n ∧
        sc.Provides f (selectorInputs xs mark index) (soleOutput out)
          (fun v => ∃ i : ℕ, i < xs.length ∧ v index = i)
          (Picks f xs index out) sts sc' := by
  rw [quinSelector_safe]
  refine (succeeds_selection hp hf hblank hn).bind ?_
  rintro ⟨xs, index, active⟩ sts sc₁ - - ⟨rfl, mark, out, count, hselects⟩
  refine (succeeds_boundIndex hp hf hblank hn hwidth hselects).mono ?_
  rintro _ ys sc' - - hprov
  exact ⟨xs, mark, index, out, rfl, hprov⟩

/-- **A size is refused** whose positions are too wide to be compared. -/
theorem fails_quinSelector (hp : sc.field.p.Prime) (hblank : sc.Blank) {n : ℕ} (hn : 1 ≤ n)
    (hwidth : ¬ Width sc.field (Decimal.bitLength n)) :
    (quinSelector (.int n) (.bool true) : Build σ Unit).Fails sc
      (Refused (Decimal.bitLength n)) := by
  rw [quinSelector_safe]
  refine (succeeds_selection hp rfl hblank hn).fails ?_
  rintro ⟨xs, index, active⟩ sts sc₁ hgrows - ⟨-, mark, out, count, hselects⟩
  refine (yields_demand (a := Decimal.bitLength n) rfl).fails ?_
  rw [max_eq_right (bitLength_pos hn)]
  refine (fails_component (hselects.free hblank) fun id => fails_lessThan ?_).bind
  rw [Scene.enter_field, hgrows.field]
  exact hwidth

/-! ## Entries of rows -/

theorem Picks.congr {row row' : List Signal} {index index' out : Signal} {v : Signal → ZMod f.p}
    (h : Picks f row index out v) (hrow : row.map v = row'.map v) (hindex : v index = v index') :
    Picks f row' index' out v := by
  obtain ⟨i, x, hx, hi, hout⟩ := h
  have hget := congrArg (·[i]?) hrow
  simp only [List.getElem?_map, hx, Option.map_some] at hget
  obtain ⟨y, hy, hyx⟩ := Option.map_eq_some_iff.1 hget.symm
  exact ⟨i, y, hy, hindex ▸ hi, hout.trans hyx.symm⟩

/-- A named selector. -/
theorem succeeds_placedSelector (hp : f.p.Prime) (hf : sc.field = f) (hwarn : sc.policy = .warn)
    {name : String} (hname : name ∉ sc.names) {n : ℕ} (hn : 1 ≤ n)
    (hwidth : Width f (Decimal.bitLength n)) :
    (component name (quinSelectorTemplate (.int n)) : Build σ Component).Succeeds sc
      fun c sts sc₁ => ∃ xs mark index out, xs.length = n ∧
        sc.Placed f (selectorInputs xs mark index) (soleOutput out)
          (fun v => ∃ i : ℕ, i < xs.length ∧ v index = i) (Picks f xs index out) ∅ {name} c sts
          sc₁ := by
  refine succeeds_placed (f := f) hname fun id => ?_
  refine (succeeds_quinSelector hp (by simpa using hf) (sc.blank_enter id name) hn hwidth).mono ?_
  rintro _ sts sc' - - ⟨xs, mark, index, out, hlen, hprov⟩
  exact ⟨_, _, _, _, hprov, Or.inl hwarn, fun c sc₁ h => ⟨xs, mark, index, out, hlen, h⟩⟩

/-- **The entry of a row at an index** is one step. -/
theorem succeeds_entryAt (hp : f.p.Prime) (hf : sc.field = f) (hwarn : sc.policy = .warn)
    {name : String} (hname : name ∉ sc.names) {row : List Signal} {n : ℕ} (hlen : row.length = n)
    (hn : 1 ≤ n) (hwidth : Width f (Decimal.bitLength n)) (hrow : ∀ s ∈ row, s ∈ sc.within I)
    {index : Signal} (hindex : index ∈ sc.within I) :
    (entryAt name row (.int n) index : Build σ Signal).Succeeds sc fun out sts sc' =>
      out ∈ sc'.within (Set.Ico (sc.signals.length : ℤ) sc'.signals.length) ∧
        sc.Step f sts sc' I (Set.Ico (sc.signals.length : ℤ) sc'.signals.length) ∅ {name}
          (fun v => ∃ i : ℕ, i < n ∧ v index = i) (Picks f row index out) := by
  refine .fit fun hfit => (succeeds_placedSelector hp hf hwarn hname hn hwidth).bind ?_
  rintro c xs sc₁ hgrows hfit₁ ⟨ins, mark, position, out, hins, hplaced⟩
  have hf₁ : sc₁.field = f := hgrows.field.trans hf
  have hflat : Declaration.flat (selectorInputs ins mark position) = ins ++ [position] := by
    simp [selectorInputs]
  have hopen := hplaced.isOpen
  have hnodup := hplaced.nodup
  rw [hflat] at hopen hnodup
  rw [List.map_append, List.nodup_append] at hnodup
  have hsub : sc.within I ⊆ sc₁.within I := Scene.within_subset hgrows subset_rfl
  have hline {s : Signal} (hs : s ∈ sc.within I) := hfit₁.line hf₁ (hsub hs)
  have hlines : List.Forall₂ (fun (e : Expr) d => e.Line f (sc₁.within I) d)
      (row.map Expr.ofSignal) (row.map fun s (v : Signal → ZMod f.p) => v s) := by
    rw [List.forall₂_map_left_iff, List.forall₂_map_right_iff, List.forall₂_same]
    exact fun s hs => hline (hrow s hs)
  refine (yields_terminalSignals (hplaced.terminal "in")).skip fun _ _ => ?_
  rw [Bus.flat_row]
  refine (succeeds_assignAll hf₁ (fun s hs => hopen s (List.mem_append_left _ hs)) hnodup.1
    (by simp [hins, hlen]) hlines fun s hs => hs).bind ?_
  rintro _ ys _ hgrows₂ - ⟨rfl, hfirst⟩
  refine (yields_terminalSignal (hplaced.terminal "index")).skip fun _ _ => ?_
  have hlast := (sc₁.assignAll ins).step_assign (hline hindex).toForm (fun s hs => hs.2) sc₁.path
    position
  refine (yields_assign (show (sc₁.assignAll ins).field = f from hf₁)
    ((hopen position (by simp)).later hgrows₂ hfirst.toEffect ?_)
    ((hline hindex).toForm.mono fun s hs => hs.1)).emit fun hgrows₃ hfit₃ => ?_
  · rintro ⟨s, hs, heq⟩
    exact hnodup.2.2 _ (List.mem_map_of_mem hs) _ (by simp) heq
  have hout : out ∈ sc₁.signals ∧ (sc.signals.length : ℤ) ≤ out.uid :=
    hplaced.given out (by simp [soleOutput])
  refine (yields_terminalSignal (hplaced.terminal "out")).succeeds fun _ _ => ⟨?_, ?_⟩
  · exact ⟨hout.1, hout.2, hfit₁.numbered out hout.1⟩
  have hinputs := (hfirst.trans hlast Set.subset_union_left fun _ _ _ => trivial).mono subset_rfl
    (V := Signal.numbers (Declaration.flat (selectorInputs ins mark position)))
    (by rw [hflat, Signal.numbers_append, Signal.numbers_cons]; simp) (Set.union_empty _).subset
    (Set.union_empty _).subset (fun v (_ : ∃ i : ℕ, i < n ∧ v index = i) => trivial) fun _ h => h
  have hfed := hplaced.fed hinputs rfl fun v hv hgiven => by
    obtain ⟨i, hi, hvi⟩ := hv
    exact ⟨i, hins ▸ hi, hgiven.2.trans hvi⟩
  refine hfed.imp (fun _ h => h) fun v hv => ?_
  obtain ⟨⟨hvrow, hvindex⟩, hpicks⟩ := hv
  refine hpicks.congr ?_ hvindex
  rw [← List.forall₂_eq_eq_eq, List.forall₂_map_left_iff, List.forall₂_map_right_iff]
  rwa [List.forall₂_map_right_iff] at hvrow

/-- A row of a size whose positions are too wide to be compared. -/
theorem fails_entryAt (hp : sc.field.p.Prime) {name : String} (hname : name ∉ sc.names) {n : ℕ}
    (hn : 1 ≤ n) (hwidth : ¬ Width sc.field (Decimal.bitLength n)) (row : List Signal)
    (index : Signal) :
    (entryAt name row (.int n) index : Build σ Signal).Fails sc
      (Refused (Decimal.bitLength n)) :=
  (fails_component hname fun id => fails_quinSelector (by simpa using hp) (sc.blank_enter id name)
    hn (by simpa using hwidth)).bind

end RankOne.Gadget
