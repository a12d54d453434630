/-
  RankOne — running the rules.

  * `ruleValue`: what the rule of a signal gives: the override, or what it
    computes;
  * `Extends`: more is known; what a rule gives stays;
  * `runRules_spec`: after the loop, every target has what its rule gives on the
    final values;
  * `Filled`: what the rules that have not run compute is all that is unknown;
  * `over_known`, `runRules_stops`: in an order that respects what the rules read,
    no rule reads a signal that is not known, and the loop can only stop at a hint.
-/
import RankOne.Proofs.Circuit.Determined
import RankOne.Proofs.Witness.Input

namespace RankOne

namespace Witness

/-! ## One rule -/

/-- What the rule of a signal gives. -/
def ruleValue (c : Circuit) (forced : List (ℕ × ℕ)) (values : Known) (r : Rule) :
    Except Error ℕ :=
  match forcedAt forced (c.place r.target) with
  | some n => .ok n
  | none => runRule c values r

section
variable {c : Circuit} {forced : List (ℕ × ℕ)} {values values' final : Known} {r : Rule}
  {rs : List Rule} {n : ℕ}

/-- The targets of the rules are where the circuit has places for them. -/
def Placed (c : Circuit) (size : ℕ) (rs : List Rule) : Prop :=
  ∀ r ∈ rs, c.index r.target = .ok (c.place r.target) ∧ c.place r.target < size

theorem runRules_cons (hr : c.index r.target = .ok (c.place r.target))
    (hlt : c.place r.target < values.size) : runRules c forced (r :: rs) values =
    ruleValue c forced values r >>= fun n =>
      runRules c forced rs (values.setIfInBounds (c.place r.target) (some n)) := by
  have hvalue : valueAt c forced values r (c.place r.target) = ruleValue c forced values r := by
    rw [valueAt, ruleValue, forcedAt]
    cases forced.find? (·.1 == c.place r.target) <;> rfl
  rw [runRules, hr]
  change (valueAt c forced values r (c.place r.target) >>= _) = _
  rw [hvalue]
  simp only [if_pos hlt]

theorem runRules_append (pre : List Rule) : ∀ values : Known,
    runRules c forced (pre ++ rs) values =
      runRules c forced pre values >>= runRules c forced rs := by
  induction pre with
  | nil => exact fun _ => rfl
  | cons r pre ih =>
    intro values
    rw [List.cons_append, runRules, runRules, bind_assoc]
    refine bind_congr fun i => ?_
    rw [bind_assoc]
    refine bind_congr fun n => ?_
    split_ifs
    · exact ih _
    · rfl

/-- The loop changes no size. -/
theorem size_runRules : ∀ {rs : List Rule} {values : Known},
    runRules c forced rs values = .ok final → final.size = values.size
  | [], _, h => by cases h; rfl
  | r :: rs, values, h => by
    rw [runRules] at h
    obtain ⟨i, -, h⟩ := bind_eq_ok.1 h
    obtain ⟨n, -, h⟩ := bind_eq_ok.1 h
    split_ifs at h
    exact (size_runRules h).trans Array.size_setIfInBounds

/-- Whatever is known stays known. -/
def Extends (values values' : Known) : Prop :=
  ∀ i n : ℕ, values[i]? = some (some n) → values'[i]? = some (some n)

theorem Extends.refl (values : Known) : Extends values values := fun _ _ h => h

theorem Extends.trans (h : Extends values values') (h' : Extends values' final) :
    Extends values final := fun i n hn => h' i n (h i n hn)

/-- Setting a place of which nothing is known. -/
theorem extends_set {i : ℕ} (h : values[i]? = some none) (n : ℕ) :
    Extends values (values.setIfInBounds i (some n)) := by
  intro j m hm
  rw [Array.getElem?_setIfInBounds_ne fun hij => ?_]
  · exact hm
  · rw [← hij, h] at hm; cases hm

theorem read_eq_ok {s : Signal} {x : Int} : read c values s = .ok x ↔
    ∃ i, c.index s = .ok i ∧ ∃ n : ℕ, values[i]? = some (some n) ∧ (n : Int) = x := by
  rw [read, bind_eq_ok]
  refine exists_congr fun i => and_congr_right fun _ => ?_
  rcases values[i]? with _ | _ | n <;> simp

theorem read_of_index {s : Signal} {x : Int} {i : ℕ} (hi : c.index s = .ok i) :
    read c values s = .ok x ↔ ∃ n : ℕ, values[i]? = some (some n) ∧ (n : Int) = x := by
  rw [read_eq_ok, hi]
  simp only [Except.ok.injEq, exists_eq_left']

theorem Extends.read (h : Extends values values') (s : Signal) (x : Int)
    (hx : read c values s = .ok x) : read c values' s = .ok x := by
  obtain ⟨i, hi, n, hn, hx⟩ := read_eq_ok.1 hx
  exact read_eq_ok.2 ⟨i, hi, n, h _ n hn, hx⟩

theorem mapM_mono {α β ε : Type} {g g' : α → Except ε β} (h : ∀ a b, g a = .ok b → g' a = .ok b) :
    ∀ {xs : List α} {ys : List β}, xs.mapM g = .ok ys → xs.mapM g' = .ok ys
  | [], _, hm => hm
  | x :: xs, _, hm => by
    rw [List.mapM_cons] at hm ⊢
    obtain ⟨y, hy, hm⟩ := bind_eq_ok.1 hm
    obtain ⟨ys, hys, hm⟩ := bind_eq_ok.1 hm
    rw [h x y hy, mapM_mono h hys]
    exact hm

/-- What a rule gives stays when more is known. -/
theorem Extends.ruleValue (h : Extends values values') (hn : ruleValue c forced values r = .ok n) :
    ruleValue c forced values' r = .ok n := by
  unfold Witness.ruleValue at hn ⊢
  split at hn
  · exact hn
  · unfold runRule at hn ⊢
    split at hn
    · exact Expr.evaluate_mono h.read _ hn
    · obtain ⟨args, ha, hn⟩ := bind_eq_ok.1 hn
      rw [mapM_mono (fun d m hd => Expr.evaluate_mono h.read d hd) ha]
      exact hn

/-! ## All rules -/

/-- **After the loop, every target has what its rule gives on the final values.** -/
theorem runRules_spec : ∀ {rs : List Rule} {values final : Known}, Placed c values.size rs →
    (rs.map (c.place ·.target)).Nodup → (∀ r ∈ rs, values[c.place r.target]? = some none) →
    runRules c forced rs values = .ok final →
      final.size = values.size ∧ Extends values final ∧
      ∀ r ∈ rs, ∃ n, final[c.place r.target]? = some (some n) ∧ ruleValue c forced final r = .ok n
  | [], values, _, _, _, _, h => by cases h; exact ⟨rfl, .refl _, by simp⟩
  | r :: rs, values, final, hplaced, hnodup, hfree, h => by
    obtain ⟨⟨hindex, hlt⟩, hplaced⟩ := List.forall_mem_cons.1 hplaced
    rw [runRules_cons hindex hlt] at h
    obtain ⟨n, hn, h⟩ := bind_eq_ok.1 h
    obtain ⟨hr, hnodup⟩ := List.nodup_cons.1 hnodup
    obtain ⟨hfr, hfree⟩ := List.forall_mem_cons.1 hfree
    obtain ⟨hsize, hext, hrules⟩ := runRules_spec
      (by rw [Array.size_setIfInBounds]; exact hplaced) hnodup (fun q hq => by
      rw [Array.getElem?_setIfInBounds_ne fun hp => hr (List.mem_map.2 ⟨q, hq, hp.symm⟩)]
      exact hfree q hq) h
    have hall : Extends values final := (extends_set hfr n).trans hext
    refine ⟨by rw [hsize, Array.size_setIfInBounds], hall, List.forall_mem_cons.2 ⟨?_, hrules⟩⟩
    exact ⟨n, hext _ _ (Array.getElem?_setIfInBounds_self_of_lt hlt), hall.ruleValue hn⟩

/-- Values that already satisfy the rules are what the loop works towards. -/
theorem runRules_extends {full : Known} : ∀ {rs : List Rule} {values final : Known},
    Placed c values.size rs → (∀ r ∈ rs, ∀ n, ruleValue c forced full r = .ok n →
      full[c.place r.target]? = some (some n)) →
    Extends values full → runRules c forced rs values = .ok final → Extends final full
  | [], _, _, _, _, hext, h => by cases h; exact hext
  | r :: rs, values, final, hplaced, hfull, hext, h => by
    obtain ⟨⟨hindex, hlt⟩, hplaced⟩ := List.forall_mem_cons.1 hplaced
    rw [runRules_cons hindex hlt] at h
    obtain ⟨n, hn, h⟩ := bind_eq_ok.1 h
    obtain ⟨hr, hfull⟩ := List.forall_mem_cons.1 hfull
    refine runRules_extends (by rw [Array.size_setIfInBounds]; exact hplaced) hfull
      (fun i m hm => ?_) h
    rw [Array.getElem?_setIfInBounds] at hm
    split_ifs at hm with hi
    · cases hm; rw [← hi]; exact hr n (hext.ruleValue hn)
    · exact hext i m hm

/-! ## Progress -/

/-- Every hint that the loop asks gives a value. -/
def HintsAnswer (c : Circuit) (forced : List (ℕ × ℕ)) (rs : List Rule) (values : Known) : Prop :=
  ∀ (pre : List Rule) (r : Rule) (post : List Rule) (values' : Known) (h : Hint)
    (deps : List Expr) (args : List ℕ), rs = pre ++ r :: post →
    runRules c forced pre values = .ok values' → forcedAt forced (c.place r.target) = none →
    r.action = .hint h deps → deps.mapM (·.evaluate (read c values')) = .ok args →
    ∃ n, h.run c.field args = .ok (.value n)

theorem runHint_eq_ok {f : PrimeField} {target : Signal} {h : Hint} {args : List ℕ} :
    runHint f target h args = .ok n ↔ ∃ m, h.run f args = .ok (.value m) ∧ n = f.reduce m := by
  unfold runHint
  cases h.run f args with
  | error e => cases e <;> simp
  | ok a => cases a <;> simp [eq_comm]

/-- A loop that ends has asked only hints that answer. -/
theorem hintsAnswer_of_runRules (hplaced : Placed c values.size rs)
    (h : runRules c forced rs values = .ok final) : HintsAnswer c forced rs values := by
  rintro pre r post values' hint deps args rfl hpre hfree ha hargs
  rw [runRules_append, hpre] at h
  obtain ⟨hindex, hlt⟩ := hplaced r (List.mem_append_right pre List.mem_cons_self)
  rw [← size_runRules hpre] at hlt
  obtain ⟨n, hn, -⟩ := bind_eq_ok.1 ((runRules_cons hindex hlt).symm.trans h)
  rw [ruleValue, hfree] at hn
  dsimp only at hn
  rw [runRule, ha] at hn
  obtain ⟨args', hargs', hn⟩ := bind_eq_ok.1 hn
  obtain ⟨m, hm, -⟩ := runHint_eq_ok.1 hn
  rw [hargs] at hargs'
  cases hargs'
  exact ⟨m, hm⟩

end

end Witness

/-! ## Rules of a circuit -/

/-- A rule reads the signals of its expressions. -/
theorem Rule.mem_reads {r : Rule} {e : Expr} (he : e ∈ r.exprs) {s : Signal} (hs : s ∈ e.signals) :
    ∃ t ∈ r.reads, t.uid = s.uid := by
  unfold Rule.exprs at he
  unfold Rule.reads
  cases ha : r.action with
  | assign a =>
    rw [ha] at he
    rw [List.mem_singleton.1 he] at hs
    exact ⟨s, hs, rfl⟩
  | hint h deps =>
    rw [ha] at he
    exact Signal.exists_mem_sorted (List.mem_flatMap.2 ⟨e, he, hs⟩)

/-- A rule reads signals of its expressions. -/
theorem Rule.reads_subset {r : Rule} {S : Set Signal} {f : PrimeField}
    (h : ∀ e ∈ r.exprs, e.Over f S) : ∀ s ∈ r.reads, s ∈ S := by
  unfold Rule.exprs at h
  unfold Rule.reads
  cases ha : r.action with
  | assign e =>
    rw [ha] at h
    exact (h e List.mem_cons_self).signals
  | hint g deps =>
    rw [ha] at h
    intro s hs
    obtain ⟨e, he, hse⟩ := List.mem_flatMap.1 (Signal.mem_of_mem_sorted hs)
    exact (h e he).signals s hse

theorem mapM_congr {ε α β : Type} {f g : α → Except ε β} : ∀ {xs : List α},
    (∀ x ∈ xs, f x = g x) → xs.mapM f = xs.mapM g
  | [], _ => rfl
  | x :: xs, h => by
    rw [List.forall_mem_cons] at h
    rw [List.mapM_cons, List.mapM_cons, h.1, mapM_congr h.2]

theorem mapM_ok {α β ε : Type} {g : α → Except ε β} : ∀ {xs : List α},
    (∀ x ∈ xs, ∃ y, g x = .ok y) → ∃ ys, xs.mapM g = .ok ys
  | [], _ => ⟨[], rfl⟩
  | x :: xs, h => by
    obtain ⟨⟨y, hy⟩, h⟩ := List.forall_mem_cons.1 h
    obtain ⟨ys, hys⟩ := mapM_ok h
    exact ⟨y :: ys, by rw [List.mapM_cons, hy, hys]; rfl⟩

theorem forM_ok {α ε : Type} {g : α → Except ε Unit} : ∀ {xs : List α},
    (∀ x ∈ xs, g x = .ok ()) → xs.forM g = .ok ()
  | [], _ => rfl
  | x :: xs, h => by
    obtain ⟨hx, h⟩ := List.forall_mem_cons.1 h
    change (g x >>= fun _ => xs.forM g) = _
    rw [hx]
    exact forM_ok h

namespace Circuit

section
variable {c : Circuit} {sts : List Statement} {r : Rule}

theorem Coherent.exprs_over (hc : c.Coherent sts) (hown : ∀ st ∈ sts, st.Own c) (hr : r ∈ c.rules) :
    ∀ e ∈ r.exprs, e.Over c.field {s | s ∈ c.signals} := by
  rcases hc.rule_cases hr with ⟨e, hst, ha⟩ | ⟨h, deps, hst, ha⟩ <;> rw [Rule.exprs, ha] <;>
    exact (hown _ hst).exprs

theorem Coherent.places_nodup (hc : c.Coherent sts) (hown : ∀ st ∈ sts, st.Own c) :
    (c.rules.map (c.place ·.target)).Nodup := by
  have hnodup := hc.single
  rw [List.nodup_iff_pairwise_ne, List.pairwise_map] at hnodup ⊢
  refine hnodup.imp_of_mem fun {q r} hq hr hne hp => hne ?_
  rw [hc.place_inj (hc.target_mem hown hq) (hc.target_mem hown hr) hp]

end

end Circuit

namespace Witness

section
variable {c : Circuit} {sts : List Statement} {forced : List (ℕ × ℕ)} {values : Known} {r : Rule}

/-- All that a rule reads is known. -/
def Ready (c : Circuit) (values : Known) (r : Rule) : Prop :=
  ∀ s ∈ c.signals, (∃ t ∈ r.reads, t.uid = s.uid) → ∃ n : ℕ, values[c.place s]? = some (some n)

/-- The signals of the circuit that have a value. -/
def knownSignals (c : Circuit) (values : Known) : Set Signal :=
  {s | s ∈ c.signals ∧ ∃ n : ℕ, values[c.place s]? = some (some n)}

/-- All signals of a shallow expression of a rule that is ready are known. -/
theorem Ready.over (h : Ready c values r) {e : Expr} (he : e ∈ r.exprs)
    (hover : e.Over c.field {s | s ∈ c.signals}) (hs : e.Shallow) :
    e.Over c.field (knownSignals c values) := by
  refine (hs.over hover).mono ?_
  rintro s ⟨hs, t, ht, hu⟩
  obtain ⟨t', ht', hu'⟩ := Rule.mem_reads he ht
  exact ⟨hs, h s hs ⟨t', ht', hu'.trans hu⟩⟩

/-- An expression of which all signals are known can be evaluated. -/
theorem evaluate_of_known (hc : c.Coherent sts) {e : Expr} (h : e.Over c.field (knownSignals c values)) :
    ∃ n, e.evaluate (read c values) = .ok n := by
  have hread : ∀ s ∈ knownSignals c values,
      read c values s = .ok (((values.getD (c.place s) none).getD 0 : ℕ) : Int) := by
    rintro s ⟨hs, n, hn⟩
    exact (read_of_index (hc.index_eq hs)).2
      ⟨n, hn, by rw [Array.getD_eq_getD_getElem?, hn]; rfl⟩
  obtain ⟨n, hn, -⟩ := Expr.evaluate_value hread e h
  exact ⟨n, hn⟩

/-- A rule whose expressions can be evaluated gives a value, unless its hint fails. -/
theorem ruleValue_eq_error {e : Error}
    (heval : ∀ x ∈ r.exprs, ∃ n, x.evaluate (read c values) = .ok n)
    (herr : ruleValue c forced values r = .error e) :
    forcedAt forced (c.place r.target) = none ∧ ∃ h deps args, r.action = .hint h deps ∧
      deps.mapM (·.evaluate (read c values)) = .ok args ∧
      runHint c.field r.target h args = .error e := by
  unfold ruleValue at herr
  cases hf : forcedAt forced (c.place r.target) with
  | some n => rw [hf] at herr; cases herr
  | none =>
    rw [hf] at herr
    dsimp only at herr
    unfold runRule at herr
    unfold Rule.exprs at heval
    cases ha : r.action with
    | assign x =>
      rw [ha] at heval herr
      obtain ⟨n, hn⟩ := heval x List.mem_cons_self
      cases hn.symm.trans herr
    | hint h deps =>
      rw [ha] at heval herr
      dsimp only at herr
      obtain ⟨args, hargs⟩ := mapM_ok heval
      rw [hargs] at herr
      exact ⟨rfl, h, deps, args, rfl, hargs, herr⟩

/-- A loop that stops has run some rules and stopped at the next one. -/
theorem runRules_eq_error {e : Error} : ∀ {rs : List Rule} {values : Known},
    Placed c values.size rs → runRules c forced rs values = .error e → ∃ pre r post values', rs = pre ++ r :: post ∧
      runRules c forced pre values = .ok values' ∧ ruleValue c forced values' r = .error e
  | [], _, _, h => by cases h
  | r :: rs, values, hplaced, h => by
    obtain ⟨⟨hindex, hlt⟩, hplaced⟩ := List.forall_mem_cons.1 hplaced
    rw [runRules_cons hindex hlt] at h
    cases hn : ruleValue c forced values r with
    | error e' =>
      rw [hn] at h
      cases h
      exact ⟨[], r, rs, values, rfl, rfl, hn⟩
    | ok n =>
      rw [hn] at h
      obtain ⟨pre, q, post, values', rfl, hpre, hq⟩ := runRules_eq_error
        (by rw [Array.size_setIfInBounds]; exact hplaced) h
      refine ⟨r :: pre, q, post, values', rfl, ?_, hq⟩
      rw [runRules_cons hindex hlt, hn]
      exact hpre

/-- Of the signals, only those are unknown that a rule of the list computes. -/
structure Filled (c : Circuit) (rs : List Rule) (values : Known) : Prop where
  size : values.size = c.system.signals
  known : ∀ s ∈ c.signals, (∀ q ∈ rs, q.target.uid ≠ s.uid) →
    ∃ n : ℕ, values[c.place s]? = some (some n)

/-- In an order that respects what the rules read, the next one is ready. -/
theorem Filled.ready {rs : List Rule} (h : Filled c (r :: rs) values)
    (hresp : Order.Respects (r :: rs)) : Ready c values r := by
  rintro s hs ⟨t, ht, hu⟩
  exact h.known s hs fun q hq => hu ▸ hresp.1 t ht q hq

section
variable (hc : c.Coherent sts) (hown : ∀ st ∈ sts, st.Own c)
include hc hown

/-- Every rule of the circuit has a place for its target. -/
theorem placed {rs : List Rule} (hrs : ∀ r ∈ rs, r ∈ c.rules) (hsize : values.size = c.system.signals) :
    Placed c values.size rs := fun r hr =>
  have hmem := hc.target_mem hown (hrs r hr)
  ⟨hc.index_eq hmem, hsize ▸ hc.place_lt hmem⟩

/-- Running a rule takes it off the list. -/
theorem Filled.set {rs : List Rule} (h : Filled c (r :: rs) values) (hr : r ∈ c.rules) (n : ℕ) :
    Filled c rs (values.setIfInBounds (c.place r.target) (some n)) where
  size := by rw [Array.size_setIfInBounds, h.size]
  known s hs hfree := by
    have hlt := hc.place_lt (hc.target_mem hown hr)
    rw [Array.getElem?_setIfInBounds]
    split_ifs with hp hin
    · exact ⟨n, rfl⟩
    · exact absurd (by rw [h.size]; exact hlt) hin
    · refine h.known s hs (List.forall_mem_cons.2 ⟨fun hu => hp ?_, hfree⟩)
      rw [hc.uid _ (hc.target_mem hown hr) s hs hu]

/-- Running rules takes them off the list. -/
theorem Filled.runRules {rs : List Rule} {values' : Known} : ∀ {pre : List Rule} {values : Known},
    Filled c (pre ++ rs) values → (∀ r ∈ pre, r ∈ c.rules) →
    Witness.runRules c forced pre values = .ok values' → Filled c rs values'
  | [], _, h, _, hrun => by cases hrun; exact h
  | r :: pre, values, h, hpre, hrun => by
    obtain ⟨hr, hpre⟩ := List.forall_mem_cons.1 hpre
    have hmem := hc.target_mem hown hr
    rw [runRules_cons (hc.index_eq hmem) (h.size ▸ hc.place_lt hmem)] at hrun
    obtain ⟨n, -, hrun⟩ := bind_eq_ok.1 hrun
    exact (h.set hc hown hr n).runRules hpre hrun

/-- **In an order that respects what the rules read, no rule reads a signal that is
    not known.** -/
theorem over_known (hflat : ∀ r ∈ c.rules, ∀ e ∈ r.exprs, e.Shallow) {pre post : List Rule}
    {values' : Known} (hrs : ∀ q ∈ pre ++ r :: post, q ∈ c.rules)
    (hresp : Order.Respects (pre ++ r :: post)) (h : Filled c (pre ++ r :: post) values)
    (hrun : runRules c forced pre values = .ok values') :
    ∀ e ∈ r.exprs, e.Over c.field (knownSignals c values') := by
  have hr := hrs r (List.mem_append_right pre List.mem_cons_self)
  have hfilled := h.runRules hc hown (fun q hq => hrs q (List.mem_append_left _ hq)) hrun
  exact fun e he =>
    (hfilled.ready hresp.of_append).over he (hc.exprs_over hown hr e he) (hflat r hr e he)

/-- **In an order that respects what the rules read, the loop can only stop at a
    hint.** -/
theorem runRules_stops (hflat : ∀ r ∈ c.rules, ∀ e ∈ r.exprs, e.Shallow) {rs : List Rule}
    (hrs : ∀ r ∈ rs, r ∈ c.rules) (hresp : Order.Respects rs) (h : Filled c rs values)
    {e : Error} (herr : runRules c forced rs values = .error e) :
    ∃ pre r post values' hint deps args, rs = pre ++ r :: post ∧
      runRules c forced pre values = .ok values' ∧ forcedAt forced (c.place r.target) = none ∧
      r.action = .hint hint deps ∧ deps.mapM (·.evaluate (read c values')) = .ok args ∧
      runHint c.field r.target hint args = .error e := by
  obtain ⟨pre, r, post, values', rfl, hpre, hr⟩ :=
    runRules_eq_error (placed hc hown hrs h.size) herr
  have hover := over_known hc hown hflat hrs hresp h hpre
  obtain ⟨hf, hint, deps, args, ha, hargs, hhint⟩ :=
    ruleValue_eq_error (fun x hx => evaluate_of_known hc (hover x hx)) hr
  exact ⟨pre, r, post, values', hint, deps, args, rfl, hpre, hf, ha, hargs, hhint⟩

/-- Where every hint that is asked answers, the loop ends. -/
theorem runRules_ok (hflat : ∀ r ∈ c.rules, ∀ e ∈ r.exprs, e.Shallow) {rs : List Rule}
    (hrs : ∀ r ∈ rs, r ∈ c.rules) (hresp : Order.Respects rs)
    (hsize : values.size = c.system.signals)
    (hknown : ∀ s ∈ c.signals, (∀ q ∈ rs, q.target.uid ≠ s.uid) →
      ∃ n : ℕ, values[c.place s]? = some (some n))
    (hhints : HintsAnswer c forced rs values) :
    ∃ final, runRules c forced rs values = .ok final := by
  cases hrun : runRules c forced rs values with
  | ok final => exact ⟨final, rfl⟩
  | error e =>
    obtain ⟨pre, r, post, values', hint, deps, args, hsplit, hpre, hf, ha, hargs, herr⟩ :=
      runRules_stops hc hown hflat hrs hresp ⟨hsize, hknown⟩ hrun
    obtain ⟨m, hm⟩ := hhints pre r post values' hint deps args hsplit hpre hf ha hargs
    rw [runHint_eq_ok.2 ⟨m, hm, rfl⟩] at herr
    cases herr

end

end

end Witness

end RankOne
