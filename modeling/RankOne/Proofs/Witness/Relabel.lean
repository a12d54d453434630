/-
  RankOne — which inputs are public changes no value.

  Circuits of one expansion are evaluated side by side: the same signals are known
  at their places, with the same values, and both evaluations end alike.

  * `SameEnd`: two computations give related results, or fail with errors of the same
    kind;
  * `Matched`: the same signals have the same known values;
  * `loadInputs_alike`, `resolveOverrides_alike`, `runRules_alike`, `verify_alike`:
    the steps of an evaluation, side by side;
  * `publicness_only_relabels`: what follows for two compilations of a template.
-/
import RankOne.Gadget.Indicator
import RankOne.Proofs.Circuit.Relabel
import RankOne.Proofs.Witness.Rules

namespace RankOne

/-! ## Ends of two computations -/

/-- Two computations end alike: with related results, or with errors of the same
    kind. -/
def SameEnd {α β : Type} (R : α → β → Prop) : Except Error α → Except Error β → Prop
  | .ok a, .ok b => R a b
  | .error e, .error e' => e.kind = e'.kind
  | _, _ => False

namespace SameEnd

variable {α β γ δ ι : Type} {R : α → β → Prop} {S : γ → δ → Prop}

theorem bind {x : Except Error α} {y : Except Error β} {f : α → Except Error γ}
    {g : β → Except Error δ} (h : SameEnd R x y) (hfg : ∀ a b, R a b → SameEnd S (f a) (g b)) :
    SameEnd S (x >>= f) (y >>= g) := by
  cases x with
  | ok a =>
    cases y with
    | ok b => exact hfg a b h
    | error e => exact h.elim
  | error e =>
    cases y with
    | ok b => exact h.elim
    | error e' => exact h

theorem of_eq {x y : Except Error α} (h : x = y) : SameEnd (· = ·) x y := by
  subst h
  cases x <;> exact rfl

/-- Two loops over one list end alike if their steps do. -/
theorem foldlM {f : α → ι → Except Error α} {g : β → ι → Except Error β} :
    ∀ {xs : List ι} {a : α} {b : β}, (∀ a b, R a b → ∀ x ∈ xs, SameEnd R (f a x) (g b x)) →
      R a b → SameEnd R (xs.foldlM f a) (xs.foldlM g b)
  | [], _, _, _, h => h
  | x :: xs, a, b, hstep, h => by
    rw [List.foldlM_cons, List.foldlM_cons]
    refine (hstep a b h x List.mem_cons_self).bind fun a' b' h' => ?_
    exact foldlM (fun a b hab y hy => hstep a b hab y (List.mem_cons_of_mem x hy)) h'

end SameEnd

namespace Witness

variable {sts : List Statement} {c₁ c₂ : Circuit} (ha : Circuit.Alike sts c₁ c₂)

/-! ## Known values -/

/-- The same signals have the same known values. -/
structure Matched (c₁ c₂ : Circuit) (v₁ v₂ : Known) : Prop where
  size₁ : v₁.size = c₁.system.signals
  size₂ : v₂.size = c₁.system.signals
  entry : ∀ s ∈ c₁.signals, v₂[c₂.place s]? = v₁[c₁.place s]?

section
variable {v₁ v₂ : Known}
include ha

theorem place_eq_iff {s u : Signal} (hs : s ∈ c₁.signals) (hu : u ∈ c₁.signals) :
    c₂.place s = c₂.place u ↔ c₁.place s = c₁.place u :=
  ⟨fun h => by rw [ha.second.place_inj (ha.mem_iff.2 hs) (ha.mem_iff.2 hu) h],
    fun h => by rw [ha.first.place_inj hs hu h]⟩

theorem Matched.set (h : Matched c₁ c₂ v₁ v₂) {s : Signal} (hs : s ∈ c₁.signals) (x : Option ℕ) :
    Matched c₁ c₂ (v₁.setIfInBounds (c₁.place s) x) (v₂.setIfInBounds (c₂.place s) x) where
  size₁ := by rw [Array.size_setIfInBounds, h.size₁]
  size₂ := by rw [Array.size_setIfInBounds, h.size₂]
  entry u hu := by
    have hlt₁ := ha.first.place_lt hs
    have hlt₂ := ha.second.place_lt (ha.mem_iff.2 hs)
    rw [ha.size] at hlt₂
    simp only [Array.getElem?_setIfInBounds, place_eq_iff ha hs hu, h.size₁, h.size₂, hlt₁, hlt₂,
      if_true]
    split_ifs
    · rfl
    · exact h.entry u hu

/-- Before any rule has run, only the constant is known. -/
theorem initial_alike : Matched c₁ c₂ (initial c₁) (initial c₂) := by
  have hone : Workspace.one c₁.field ∈ c₁.signals := Array.mem_of_getElem? ha.first.first
  have h₁ : c₁.place (Workspace.one c₁.field) = 0 := ha.first.place 0 _ ha.first.first
  have h₂ : c₂.place (Workspace.one c₁.field) = 0 := by
    rw [← ha.field]; exact ha.second.place 0 _ ha.second.first
  have hnone : Matched c₁ c₂ (Array.replicate c₁.system.signals none)
      (Array.replicate c₂.system.signals none) :=
    { size₁ := by simp
      size₂ := by simp [ha.size]
      entry := fun s hs => by
        have hlt₁ := ha.first.place_lt hs
        have hlt₂ := ha.second.place_lt (ha.mem_iff.2 hs)
        simp [hlt₁, hlt₂] }
  have h := hnone.set ha hone (some 1)
  rwa [h₁, h₂] at h

/-! ## Inputs -/

theorem loadSignals_alike : ∀ {ss : List Signal} {v₁ v₂ : Known} {missing : List String}
    {given : Mapping}, (∀ s ∈ ss, s ∈ c₁.signals) → Matched c₁ c₂ v₁ v₂ →
    SameEnd (fun x y => Matched c₁ c₂ x.1 y.1 ∧ y.2 = x.2) (loadSignals c₁ ss v₁ missing given)
      (loadSignals c₂ ss v₂ missing given)
  | [], _, _, _, _, _, h => ⟨h, rfl⟩
  | s :: ss, v₁, v₂, missing, given, hss, h => by
    obtain ⟨hs, hss⟩ := List.forall_mem_cons.1 hss
    rw [loadSignals, loadSignals, ha.settings, ha.field]
    cases given.find? (s.path.drop 5).toString with
    | none => exact loadSignals_alike hss h
    | some v =>
      refine (SameEnd.of_eq rfl).bind fun n m hnm => ?_
      rw [← hnm]
      exact loadSignals_alike hss (h.set ha hs _)

theorem loadInputs_alike (inputs : Mapping) (h : Matched c₁ c₂ v₁ v₂) :
    SameEnd (Matched c₁ c₂) (loadInputs c₁ inputs v₁) (loadInputs c₂ inputs v₂) := by
  have hinputs : inputSignals c₂ = inputSignals c₁ := by rw [inputSignals, ha.main]; rfl
  have hmem : ∀ s ∈ inputSignals c₁, s ∈ c₁.signals := fun s hs =>
    ((ha.first.inputs s).1 hs).1
  rw [loadInputs, loadInputs, hinputs]
  refine (loadSignals_alike ha hmem h).bind ?_
  rintro ⟨v₁, missing, given⟩ ⟨v₂, missing', given'⟩ ⟨hv, heq⟩
  cases heq
  dsimp only
  split_ifs
  · exact rfl
  · exact rfl
  · exact hv

/-! ## Overrides -/

/-- A path names the same signal, or main inputs in both circuits. -/
theorem byPath?_alike (path : String) : c₂.byPath? path = c₁.byPath? path ∨
    ∃ s₁ s₂, c₁.byPath? path = some s₁ ∧ c₂.byPath? path = some s₂ ∧
      Circuit.isMainInput s₁ = true ∧ Circuit.isMainInput s₂ = true := by
  obtain ⟨front, ins₁, ins₂, rest, -, h₁, h₂, hin₁, hin₂⟩ := ha.order
  have hperm : ins₂.Perm ins₁ := by
    have h := ha.signals
    rw [h₁, h₂, List.perm_append_right_iff, List.perm_append_left_iff] at h
    exact h
  rw [Circuit.byPath?, Circuit.byPath?, h₁, h₂]
  simp only [List.reverse_append, List.find?_append]
  cases rest.reverse.find? (·.path == path) with
  | some s => exact Or.inl rfl
  | none =>
    simp only [Option.none_or]
    cases hf₁ : ins₁.reverse.find? (·.path == path) with
    | some s₁ =>
      have hs₁ := List.mem_reverse.1 (List.mem_of_find?_eq_some hf₁)
      have hsome : (ins₂.reverse.find? (·.path == path)).isSome := by
        rw [List.find?_isSome]
        exact ⟨s₁, List.mem_reverse.2 (hperm.mem_iff.2 hs₁), by simpa using List.find?_some hf₁⟩
      obtain ⟨s₂, hf₂⟩ := Option.isSome_iff_exists.1 hsome
      have hs₂ := List.mem_reverse.1 (List.mem_of_find?_eq_some hf₂)
      rw [hf₂]
      exact Or.inr ⟨s₁, s₂, rfl, rfl, hin₁ s₁ hs₁, hin₂ s₂ hs₂⟩
    | none =>
      have hf₂ : ins₂.reverse.find? (·.path == path) = none := by
        rw [List.find?_eq_none] at hf₁ ⊢
        intro s hs
        exact hf₁ s (List.mem_reverse.2 (hperm.mem_iff.1 (List.mem_reverse.1 hs)))
      rw [hf₂]
      exact Or.inl rfl

theorem signal?_alike (path : String) : c₂.signal? path = c₁.signal? path ∨
    ∃ s₁ s₂, c₁.signal? path = some s₁ ∧ c₂.signal? path = some s₂ ∧
      Circuit.isMainInput s₁ = true ∧ Circuit.isMainInput s₂ = true := by
  rw [Circuit.signal?, Circuit.signal?]
  rcases byPath?_alike ha path with h | ⟨s₁, s₂, h₁, h₂, hin⟩
  · rw [h]
    cases c₁.byPath? path with
    | some s => exact Or.inl rfl
    | none => exact byPath?_alike ha _
  · rw [h₁, h₂]
    exact Or.inr ⟨s₁, s₂, rfl, rfl, hin⟩

/-- One override names the same signal in both circuits, or is refused in both. -/
theorem resolveOverride_alike (path : String) (v : Value) :
    SameEnd (fun x y => ∃ s ∈ c₁.signals, x.1 = c₁.place s ∧ y = (c₂.place s, x.2))
      (resolveOverride c₁ path v) (resolveOverride c₂ path v) := by
  rw [resolveOverride, resolveOverride]
  rcases signal?_alike ha path with h | ⟨s₁, s₂, h₁, h₂, hin₁, hin₂⟩
  · rw [h, ha.settings, ha.field]
    cases hs : c₁.signal? path with
    | none => exact rfl
    | some s =>
      dsimp only
      split_ifs
      · exact rfl
      · refine (SameEnd.of_eq rfl).bind fun n m hnm => ?_
        exact ⟨s, mem_of_signal? hs, rfl, by rw [hnm]⟩
  · -- main inputs cannot be overridden
    rw [Circuit.isMainInput, Bool.and_eq_true, beq_iff_eq, beq_iff_eq] at hin₁ hin₂
    rw [h₁, h₂]
    dsimp only
    rw [if_pos ⟨Or.inr hin₁.1, Or.inr hin₁.2⟩, if_pos ⟨Or.inr hin₂.1, Or.inr hin₂.2⟩]
    exact rfl

/-- What is forced at the place of every signal is the same. -/
def SameForced (c₁ c₂ : Circuit) (f₁ f₂ : List (ℕ × ℕ)) : Prop :=
  ∀ s ∈ c₁.signals, forcedAt f₂ (c₂.place s) = forcedAt f₁ (c₁.place s)

theorem resolveOverrides_alike (overrides : Mapping) : SameEnd (SameForced c₁ c₂)
    (resolveOverrides c₁ overrides) (resolveOverrides c₂ overrides) := by
  refine SameEnd.foldlM (fun f₁ f₂ hf p _ => ?_) fun _ _ => rfl
  refine (resolveOverride_alike ha p.1 p.2).bind ?_
  rintro ⟨i, n⟩ _ ⟨s, hs, rfl, rfl⟩ u hu
  simp only [forcedAt_force, place_eq_iff ha hs hu, hf u hu]

/-- The completed values of the one circuit are those of the other, permuted. -/
theorem complete_alike (h : Matched c₁ c₂ v₁ v₂) : (complete v₂).map Int.ofNat =
    Combination.permuted ha.perm ((complete v₁).map Int.ofNat) := by
  have hsize : ((complete v₂).map Int.ofNat).size = c₂.signals.size := by
    simp [complete, h.size₂, ← ha.size, ha.second.size]
  refine Array.ext (by simp [complete, h.size₁, h.size₂]) fun j hj hj' => ?_
  rw [hsize] at hj
  have hs := Array.getElem_mem hj
  have hplace := ha.second.place j _ (Array.getElem?_eq_getElem hj)
  have hperm : ha.perm.symm j = c₁.place c₂.signals[j] := by
    rw [← ha.symm.relabelling_place hs, hplace]; rfl
  have hentry := h.entry _ (ha.mem_iff.1 hs)
  rw [hplace] at hentry
  have hlt : j < v₂.size := by rw [h.size₂, ← ha.size, ha.second.size]; exact hj
  rw [Array.getElem?_eq_getElem hlt] at hentry
  simp [Combination.permuted, complete, hperm, Array.getD_eq_getD_getElem?, ← hentry]

/-! ## Rules -/

section
variable (hown : ∀ st ∈ sts, st.Own c₁)
include hown

/-- A rule gives the same in both circuits. -/
theorem ruleValue_alike {f₁ f₂ : List (ℕ × ℕ)} (hf : SameForced c₁ c₂ f₁ f₂)
    (h : Matched c₁ c₂ v₁ v₂) {r : Rule} (hr : r ∈ c₁.rules) :
    ruleValue c₁ f₁ v₁ r = ruleValue c₂ f₂ v₂ r := by
  have hread : ∀ s ∈ {s | s ∈ c₁.signals}, read c₁ v₁ s = read c₂ v₂ s := by
    intro s hs
    rw [read, read, ha.first.index_eq hs, ha.second.index_eq (ha.mem_iff.2 hs)]
    simp only [bind, Except.bind, h.entry s hs]
  have heval : ∀ e ∈ r.exprs, e.evaluate (read c₁ v₁) = e.evaluate (read c₂ v₂) := fun e he =>
    Expr.evaluate_congr hread e (ha.first.exprs_over hown hr e he)
  rw [ruleValue, ruleValue, hf _ (ha.first.target_mem hown hr)]
  cases forcedAt f₁ (c₁.place r.target) with
  | some n => rfl
  | none =>
    dsimp only
    unfold Rule.exprs at heval
    unfold runRule
    cases hact : r.action with
    | assign e =>
      rw [hact] at heval
      exact heval e List.mem_cons_self
    | hint g deps =>
      rw [hact] at heval
      dsimp only
      rw [ha.field, mapM_congr heval]

theorem runRules_alike {f₁ f₂ : List (ℕ × ℕ)} (hf : SameForced c₁ c₂ f₁ f₂) :
    ∀ {rs : List Rule} {v₁ v₂ : Known}, (∀ r ∈ rs, r ∈ c₁.rules) → Matched c₁ c₂ v₁ v₂ →
      SameEnd (Matched c₁ c₂) (runRules c₁ f₁ rs v₁) (runRules c₂ f₂ rs v₂)
  | [], _, _, _, h => h
  | r :: rs, v₁, v₂, hrs, h => by
    obtain ⟨hr, hrs⟩ := List.forall_mem_cons.1 hrs
    have ht := ha.first.target_mem hown hr
    have ht₂ := ha.mem_iff.2 ht
    rw [runRules_cons (ha.first.index_eq ht) (h.size₁ ▸ ha.first.place_lt ht),
      runRules_cons (ha.second.index_eq ht₂) (by rw [h.size₂, ← ha.size]; exact ha.second.place_lt ht₂)]
    refine (SameEnd.of_eq (ruleValue_alike ha hown hf h hr)).bind fun n m hnm => ?_
    rw [← hnm]
    exact runRules_alike hf hrs (h.set ha (ha.first.target_mem hown hr) _)

/-! ## The check -/

theorem verify_alike (h : Matched c₁ c₂ v₁ v₂) :
    SameEnd (fun _ _ => True) (verify c₁ (complete v₁)) (verify c₂ (complete v₂)) := by
  rw [verify, verify, complete_alike ha h, ha.unsatisfiedRows hown]
  refine (SameEnd.of_eq rfl).bind ?_
  rintro rows _ rfl
  cases rows with
  | nil => exact trivial
  | cons row rest =>
    dsimp only
    rw [ha.constraints hown, List.getElem?_map]
    cases c₁.system.constraints[row]? with
    | none => exact trivial
    | some r => exact rfl

/-! ## Evaluation -/

/-- **Alike circuits are evaluated alike**: to the same value for every signal, or to
    errors of the same kind. -/
theorem evaluate_alike (inputs overrides : Mapping) :
    SameEnd (fun w₁ w₂ => ∀ s ∈ c₁.signals, w₁.valueOf s = w₂.valueOf s)
      (evaluate c₁ inputs overrides) (evaluate c₂ inputs overrides) := by
  have hcompute : SameEnd
      (fun x y => ∃ v₁ v₂, Matched c₁ c₂ v₁ v₂ ∧ x = complete v₁ ∧ y = complete v₂)
      (compute c₁ inputs overrides) (compute c₂ inputs overrides) := by
    refine (loadInputs_alike ha inputs (initial_alike ha)).bind fun v₁ v₂ hv => ?_
    refine (resolveOverrides_alike ha overrides).bind fun f₁ f₂ hf => ?_
    rw [ha.rules]
    refine (runRules_alike ha hown hf (fun _ hr => hr) hv).bind fun u₁ u₂ hu => ?_
    exact ⟨u₁, u₂, hu, rfl, rfl⟩
  refine hcompute.bind ?_
  rintro _ _ ⟨v₁, v₂, hv, rfl, rfl⟩
  refine (verify_alike ha hown hv).bind fun _ _ _ s hs => ?_
  have hentry := hv.entry s hs
  simp [valueOf, complete, Array.getD_eq_getD_getElem?, hentry]

end

end

end Witness

open Combination (permuted)

/-- **Publicness only relabels.**  Two compilations of a template under different
    lists of public inputs have, up to a permutation of the witness positions that
    fixes the constant and the outputs, the same rows; a vector violates in the one
    the rows that its permuted form violates in the other; and the same inputs and
    overrides give every signal the same value, or fail with errors of the same
    kind. -/
theorem publicness_only_relabels {σ : Type} {settings : Settings} {t : Template σ} {host : σ}
    {public₁ public₂ : List String} {c₁ c₂ : Circuit}
    (h₁ : OwnCompilation settings t host public₁ c₁)
    (h₂ : (compile settings t host public₂).result = .ok c₂) :
    c₂.system.signals = c₁.system.signals ∧ c₂.system.outputs = c₁.system.outputs ∧
    c₂.system.prime = c₁.system.prime ∧
    ∃ π : Equiv.Perm ℕ,
      (∀ i, c₁.system.signals ≤ i → π i = i) ∧ (∀ i ≤ c₁.system.outputs, π i = i) ∧
      (∀ s ∈ c₁.signals, s ∈ c₂.signals ∧ c₂.place s = π (c₁.place s)) ∧
      c₂.system.constraints = c₁.system.constraints.map (·.relabel π) ∧
      (∀ w, c₂.system.unsatisfiedRows (permuted π w) = c₁.system.unsatisfiedRows w) ∧
      ∀ inputs overrides, SameEnd (fun w₁ w₂ => ∀ s ∈ c₁.signals, w₁.valueOf s = w₂.valueOf s)
        (Witness.evaluate c₁ inputs overrides) (Witness.evaluate c₂ inputs overrides) := by
  have ha := compile_alike h₁.result h₂
  refine ⟨ha.size, ha.outputs, ha.prime, ha.perm, fun i hi => ha.relabelling_of_le hi,
    fun i hi => ha.relabelling_front hi, fun s hs => ?_, ha.constraints h₁.own,
    ha.unsatisfiedRows h₁.own, Witness.evaluate_alike ha h₁.own⟩
  exact ⟨ha.mem_iff.2 hs, (ha.relabelling_place hs).symm⟩

open Build in
/-- An input that passes where another one is zero, which a child tells. -/
def gated : Build Unit Unit := do
  let x ← signal .input "x"
  let y ← signal .input "y"
  let z ← signal .output "z"
  let zero ← component "zero" Gadget.isZeroTemplate
  assign (← terminalSignal zero "in") (.ofSignal y)
  assign z (← times (.ofSignal x) (.ofSignal (← terminalSignal zero "out")))

/-- The template of the gate. -/
def gatedTemplate : Template Unit := ⟨.of "Gated" [], gated⟩

/-- When its second input is made public, it moves before the first one, and the rows
    are those of the private gate with these positions exchanged. -/
theorem gated_relabelled :
    ∃ c₁ c₂, (compile { prime := .int 7 } gatedTemplate () []).result = .ok c₁ ∧
      (compile { prime := .int 7 } gatedTemplate () ["y"]).result = .ok c₂ ∧
      ∃ π : Equiv.Perm ℕ, π 3 = 2 ∧
        c₂.system.constraints = c₁.system.constraints.map (·.relabel π) ∧
        ∀ inputs overrides, SameEnd (fun w₁ w₂ => ∀ s ∈ c₁.signals, w₁.valueOf s = w₂.valueOf s)
          (Witness.evaluate c₁ inputs overrides) (Witness.evaluate c₂ inputs overrides) := by
  obtain ⟨c₁, h₁, hown, s, hs, hy, hplace⟩ := exists_ok
    (x := (compile { prime := .int 7 } gatedTemplate () []).result)
    (P := fun c => (∀ st ∈ executed { prime := .int 7 } gatedTemplate (), st.Own c) ∧
      ∃ s ∈ c.signals.toList, s.path = "main.y" ∧ c.place s = 3)
    (by decide +kernel)
  obtain ⟨c₂, h₂, hplace₂⟩ := exists_ok
    (x := (compile { prime := .int 7 } gatedTemplate () ["y"]).result)
    (P := fun c => ∀ s ∈ c.signals, s.path = "main.y" → c.place s = 2) (by decide +kernel)
  obtain ⟨-, -, -, π, -, -, hπ, hrows, -, heval⟩ := publicness_only_relabels ⟨h₁, hown⟩ h₂
  obtain ⟨hs₂, hmoved⟩ := hπ s (Array.mem_toList_iff.1 hs)
  refine ⟨c₁, c₂, h₁, h₂, π, ?_, hrows, heval⟩
  rw [← hplace, ← hmoved]
  exact hplace₂ s hs₂ hy

open Build in
/-- An input that equals a kept signal, and an output that copies another input. -/
def pinned : Build Unit Unit := do
  let x ← signal .input "x"
  let y ← signal .input "y"
  let o ← signal .output "o"
  constrain (.ofSignal (kept 2)) (.ofSignal x)
  assign o (.ofSignal y)

def pinnedTemplate : Template Unit := ⟨.of "Pinned" [], pinned⟩

/-- A kept signal does not move with the others: at the position of the input it cancels
    in the row, and once that input has moved it does not.  A vector then satisfies the one
    system, and its permuted form violates the other. -/
theorem kept_signal_not_relabelled :
    (∃ c, (compile { prime := .int 97 } pinnedTemplate () []).result = .ok c ∧
      c.system.constraints.map (fun r => r.sides.map (·.terms)) =
        [[[], [], []], [[], [], [(1, 1), (3, 96)]]] ∧
      c.system.unsatisfiedRows #[1, 0, 5, 0] = .ok []) ∧
    ∃ c, (compile { prime := .int 97 } pinnedTemplate () ["y"]).result = .ok c ∧
      c.system.constraints.map (fun r => r.sides.map (·.terms)) =
        [[[], [], [(2, 96), (3, 1)]], [[], [], [(1, 1), (2, 96)]]] ∧
      c.system.unsatisfiedRows #[1, 0, 0, 5] = .ok [0] :=
  ⟨exists_ok (by decide +kernel), exists_ok (by decide +kernel)⟩

end RankOne
