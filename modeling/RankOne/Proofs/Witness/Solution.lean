/-
  RankOne — the evaluator computes the solution of the rules.

  * `Gives`: the value of a rule on a vector;
  * `Solves`: a canonical vector with the supplied inputs and overrides in which
    every other target has what its rule gives on the vector itself;
  * `solves_of_runRules`, `Solves.eq_complete`: what the loop leaves is the one
    solution;
  * `evaluate_computes_solution`: the evaluator returns the solution, or names the
    first row that it violates; the order of the rules does not matter.
-/
import RankOne.Gadget.Indicator
import RankOne.Proofs.Witness.Rules

namespace RankOne.Witness

/-- A rule gives a value on a vector: that of the expression, or what the hint
    advises for the values of its dependencies. -/
def Gives (c : Circuit) (v : Array ℕ) (r : Rule) (n : ℕ) : Prop :=
  match r.action with
  | .assign e => e.evaluate (c.entry (v.map Int.ofNat)) = .ok n
  | .hint h deps => ∃ args m, deps.mapM (·.evaluate (c.entry (v.map Int.ofNat))) = .ok args ∧
      h.run c.field args = .ok (.value m) ∧ n = c.field.reduce m

/-- A solution of the rules under inputs and overrides. -/
structure Solves (c : Circuit) (inputs overrides : Mapping) (v : Array ℕ) : Prop where
  size : v.size = c.system.signals
  canonical : ∀ x ∈ v, x < c.field.p
  one : v[0]? = some 1
  input : ∀ s ∈ inputSignals c, ∃ n, Supplies c inputs s n ∧ v[c.place s]? = some n
  override : ∀ s ∈ c.signals, ∀ p, override? c overrides s = some p →
    ∃ n, coerce c.settings.inputs c.field p.1 p.2 = .ok n ∧ v[c.place s]? = some n
  rule : ∀ r ∈ c.rules, override? c overrides r.target = none →
    ∃ n, Gives c v r n ∧ v[c.place r.target]? = some n

section
variable {c : Circuit} {sts : List Statement} {inputs overrides : Mapping} {known final : Known}
  {forced : List (ℕ × ℕ)} {rs : List Rule} {v : Array ℕ}

/-! ## Complete vectors -/

theorem Solves.fits (hv : Solves c inputs overrides v) : c.Fits (v.map Int.ofNat) :=
  ⟨by rw [Array.size_map, hv.size], by rw [Array.getElem?_map, hv.one]; rfl⟩

theorem read_complete {s : Signal} {x : Int} :
    read c (v.map some) s = .ok x ↔ c.entry (v.map Int.ofNat) s = .ok x := by
  rw [read_eq_ok, Circuit.entry, bind_eq_ok]
  refine exists_congr fun i => and_congr_right fun _ => ?_
  rw [elementAt_natCast, Array.getElem?_map, Array.getElem?_map]
  cases v[i]? <;> simp

theorem runRule_complete {r : Rule} {n : ℕ} :
    runRule c (v.map some) r = .ok n ↔ Gives c v r n := by
  have hmono {e : Expr} {n : ℕ} : e.evaluate (read c (v.map some)) = .ok n ↔
      e.evaluate (c.entry (v.map Int.ofNat)) = .ok n :=
    ⟨Expr.evaluate_mono (fun _ _ => read_complete.1) e,
      Expr.evaluate_mono (fun _ _ => read_complete.2) e⟩
  unfold runRule Gives
  cases r.action with
  | assign e => exact hmono
  | hint h deps =>
    simp only [bind_eq_ok, runHint_eq_ok]
    constructor
    · rintro ⟨args, ha, m, hm, hn⟩
      exact ⟨args, m, mapM_mono (fun _ _ => hmono.1) ha, hm, hn⟩
    · rintro ⟨args, m, ha, hm, hn⟩
      exact ⟨args, mapM_mono (fun _ _ => hmono.2) ha, m, hm, hn⟩

/-- Where every signal is known, completion changes nothing. -/
theorem map_some_complete (hc : c.Coherent sts) (hsize : final.size = c.system.signals)
    (hall : ∀ s ∈ c.signals, ∃ n : ℕ, final[c.place s]? = some (some n)) :
    (complete final).map some = final := by
  refine Array.ext (by simp [complete]) fun i hi hi' => ?_
  have hlt : i < c.signals.size := by rw [← hc.size, ← hsize]; exact hi'
  obtain ⟨n, hn⟩ := hall _ (Array.getElem_mem hlt)
  rw [hc.place i _ (Array.getElem?_eq_getElem hlt), Array.getElem?_eq_getElem hi',
    Option.some.injEq] at hn
  simp [complete, hn]

/-! ## The loop -/

section
variable (hc : c.Coherent sts) (hown : ∀ st ∈ sts, st.Own c)
include hc hown

/-- What is known at first: the constant and the inputs, and of no target. -/
theorem target_unknown (hload : loadInputs c inputs (initial c) = .ok known) {r : Rule}
    (hr : r ∈ c.rules) : known[c.place r.target]? = some none := by
  obtain ⟨-, -, -, hfree⟩ := loadInputs_spec hc hload
  exact hfree _ (hc.target_mem hown hr) (hc.targets r hr).1 (hc.targets r hr).2

theorem ruleValue_lt (hres : resolveOverrides c overrides = .ok forced) {r : Rule}
    (hr : r ∈ c.rules) {n : ℕ} (hn : ruleValue c forced final r = .ok n) : n < c.field.p := by
  have ht := hc.target_mem hown hr
  cases ho : override? c overrides r.target with
  | some p =>
    obtain ⟨⟨m, hm, hf⟩, -⟩ := forcedAt_eq_some hc hres ht ho
    rw [ruleValue, hf] at hn
    cases hn
    exact coerce_lt hm
  | none =>
    rw [ruleValue, forcedAt_eq_none hc hres ht ho] at hn
    dsimp only at hn
    unfold runRule at hn
    cases ha : r.action with
    | assign e =>
      rw [ha] at hn
      have he : e ∈ r.exprs := by rw [Rule.exprs, ha]; exact List.mem_cons_self
      rw [← (hc.exprs_over hown hr e he).field]
      exact Expr.evaluate_lt hn
    | hint h deps =>
      rw [ha] at hn
      obtain ⟨args, -, hn⟩ := bind_eq_ok.1 hn
      obtain ⟨m, -, rfl⟩ := runHint_eq_ok.1 hn
      exact c.field.reduce_lt m

/-- **After all rules everything is known, and every target has what its rule
    gives.** -/
theorem runRules_complete (hload : loadInputs c inputs (initial c) = .ok known)
    (hres : resolveOverrides c overrides = .ok forced) (hrs : rs.Perm c.rules)
    (h : runRules c forced rs known = .ok final) :
    final.size = c.system.signals ∧ Extends known final ∧
      (∀ r ∈ c.rules, ∃ n, final[c.place r.target]? = some (some n) ∧
        ruleValue c forced final r = .ok n) ∧
      ∀ s ∈ c.signals, ∃ n, final[c.place s]? = some (some n) ∧ n < c.field.p := by
  obtain ⟨hsize, hone, hin, -⟩ := loadInputs_spec hc hload
  obtain ⟨hsize', hext, hrules⟩ := runRules_spec
    (placed hc hown (fun r hr => hrs.mem_iff.1 hr) hsize) ((hrs.map _).nodup_iff.2 (hc.places_nodup hown))
    (fun r hr => target_unknown hc hown hload (hrs.mem_iff.1 hr)) h
  have hrules : ∀ r ∈ c.rules, _ := fun r hr => hrules r (hrs.mem_iff.2 hr)
  refine ⟨hsize'.trans hsize, hext, hrules, fun s hs => ?_⟩
  rcases hc.cover s hs with rfl | hmain | ⟨r, hr, rfl⟩
  · rw [hc.place 0 _ hc.first]; exact ⟨1, hext 0 1 hone, c.field.one_lt_p⟩
  · obtain ⟨n, ⟨u, -, hu⟩, hn⟩ := hin s ((hc.inputs s).2 ⟨hs, hmain⟩)
    exact ⟨n, hext _ n hn, coerce_lt hu⟩
  · obtain ⟨n, hn, hv⟩ := hrules r hr
    exact ⟨n, hn, ruleValue_lt hc hown hres hr hv⟩

/-- **What the loop leaves solves the rules.** -/
theorem solves_of_runRules (hload : loadInputs c inputs (initial c) = .ok known)
    (hres : resolveOverrides c overrides = .ok forced) (hrs : rs.Perm c.rules)
    (h : runRules c forced rs known = .ok final) :
    Solves c inputs overrides (complete final) := by
  obtain ⟨hsize, hext, hrules, hall⟩ := runRules_complete hc hown hload hres hrs h
  obtain ⟨-, hone, hin, -⟩ := loadInputs_spec hc hload
  have hmap := map_some_complete hc hsize fun s hs => (hall s hs).imp fun _ => And.left
  have hget {i n : ℕ} (hn : final[i]? = some (some n)) : (complete final)[i]? = some n := by
    rw [complete, Array.getElem?_map, hn]; rfl
  have hsize' : (complete final).size = c.system.signals := by simpa [complete] using hsize
  refine ⟨hsize', fun x hx => ?_, hget (hext 0 1 hone), fun s hs => ?_, fun s hs p hp => ?_,
    fun r hr ho => ?_⟩
  · obtain ⟨i, hi⟩ := Array.mem_iff_getElem?.1 hx
    have hlt : i < c.signals.size := by
      rw [← hc.size, ← hsize']; exact (Array.getElem?_eq_some_iff.1 hi).1
    obtain ⟨n, hn, hp⟩ := hall _ (Array.getElem_mem hlt)
    rw [hc.place i _ (Array.getElem?_eq_getElem hlt)] at hn
    rw [hget hn] at hi
    cases hi
    exact hp
  · obtain ⟨n, hn, hk⟩ := hin s hs
    exact ⟨n, hn, hget (hext _ n hk)⟩
  · obtain ⟨⟨n, hn, hf⟩, hone, hmain⟩ := forcedAt_eq_some hc hres hs hp
    rcases hc.cover s hs with rfl | hmain' | ⟨r, hr, rfl⟩
    · exact absurd rfl hone
    · rw [hmain] at hmain'; cases hmain'
    · obtain ⟨m, hm, hv⟩ := hrules r hr
      rw [ruleValue, hf] at hv
      cases hv
      exact ⟨n, hn, hget hm⟩
  · obtain ⟨n, hn, hv⟩ := hrules r hr
    rw [ruleValue, forcedAt_eq_none hc hres (hc.target_mem hown hr) ho, ← hmap] at hv
    exact ⟨n, runRule_complete.1 hv, hget hn⟩

/-- A solution extends what is known at first. -/
theorem Solves.extends (hv : Solves c inputs overrides v)
    (hload : loadInputs c inputs (initial c) = .ok known) : Extends known (v.map some) := by
  obtain ⟨hsize, hone, hin, hfree⟩ := loadInputs_spec hc hload
  intro i n hn
  have hlt : i < c.signals.size := by
    rw [← hc.size, ← hsize]; exact (Array.getElem?_eq_some_iff.1 hn).1
  have hs : c.signals[i] ∈ c.signals := Array.getElem_mem hlt
  have hp := hc.place i _ (Array.getElem?_eq_getElem hlt)
  have hget {m : ℕ} (hm : v[i]? = some m) (hnm : m = n) : (v.map some)[i]? = some (some n) := by
    rw [Array.getElem?_map, hm, hnm]; rfl
  rw [← hp] at hn
  rcases hc.cover _ hs with heq | hmain | ⟨r, hr, hu⟩
  · obtain rfl : i = 0 := by rw [← hp, heq]; exact hc.place 0 _ hc.first
    rw [hp, hone] at hn
    exact hget hv.one (Option.some.inj (Option.some.inj hn))
  · have hs' := (hc.inputs _).2 ⟨hs, hmain⟩
    obtain ⟨m, hm, hvm⟩ := hv.input _ hs'
    obtain ⟨k, hk, hkn⟩ := hin _ hs'
    rw [hkn] at hn
    rw [hp] at hvm
    exact hget hvm ((hm.unique hk).trans (Option.some.inj (Option.some.inj hn)))
  · rw [← hu, target_unknown hc hown hload hr] at hn
    cases hn

/-- In a solution every target has what its rule gives. -/
theorem Solves.ruleValue (hv : Solves c inputs overrides v)
    (hres : resolveOverrides c overrides = .ok forced) {r : Rule} (hr : r ∈ c.rules) {n : ℕ}
    (hn : ruleValue c forced (v.map some) r = .ok n) :
    (v.map some)[c.place r.target]? = some (some n) := by
  have ht := hc.target_mem hown hr
  have hget {m : ℕ} (hm : v[c.place r.target]? = some m) (hnm : m = n) :
      (v.map some)[c.place r.target]? = some (some n) := by
    rw [Array.getElem?_map, hm, hnm]; rfl
  cases ho : override? c overrides r.target with
  | some p =>
    obtain ⟨⟨m, hm, hf⟩, -⟩ := forcedAt_eq_some hc hres ht ho
    obtain ⟨k, hk, hvk⟩ := hv.override _ ht p ho
    rw [hm] at hk
    rw [Witness.ruleValue, hf] at hn
    exact hget hvk ((Except.ok.inj hk).symm.trans (Except.ok.inj hn))
  | none =>
    obtain ⟨k, hk, hvk⟩ := hv.rule r hr ho
    rw [Witness.ruleValue, forcedAt_eq_none hc hres ht ho] at hn
    exact hget hvk (Except.ok.inj ((runRule_complete.2 hk).symm.trans hn))

/-- **The loop can only leave the solution.** -/
theorem Solves.eq_complete (hv : Solves c inputs overrides v)
    (hload : loadInputs c inputs (initial c) = .ok known)
    (hres : resolveOverrides c overrides = .ok forced) (hrs : rs.Perm c.rules)
    (h : runRules c forced rs known = .ok final) : v = complete final := by
  obtain ⟨hsize, -, -, hall⟩ := runRules_complete hc hown hload hres hrs h
  have hext : Extends final (v.map some) :=
    runRules_extends (placed hc hown (fun r hr => hrs.mem_iff.1 hr) (loadInputs_spec hc hload).1)
      (fun r hr n => hv.ruleValue hc hown hres (hrs.mem_iff.1 hr)) (hv.extends hc hown hload) h
  refine Array.ext (by rw [hv.size, complete, Array.size_map, hsize]) fun i hi hi' => ?_
  have hlt : i < c.signals.size := by rw [← hc.size, ← hv.size]; exact hi
  obtain ⟨n, hn, -⟩ := hall _ (Array.getElem_mem hlt)
  rw [hc.place i _ (Array.getElem?_eq_getElem hlt)] at hn
  have hvn := hext i n hn
  rw [Array.getElem?_map, Array.getElem?_eq_getElem hi] at hvn
  have hcn : (complete final)[i]? = some n := by rw [complete, Array.getElem?_map, hn]; rfl
  rw [Array.getElem?_eq_getElem hi'] at hcn
  exact (Option.some.inj (Option.some.inj hvn)).trans (Option.some.inj hcn).symm

/-- Where there is a solution, every hint answers, in any order of the rules. -/
theorem Solves.hintsAnswer (hv : Solves c inputs overrides v)
    (hload : loadInputs c inputs (initial c) = .ok known)
    (hres : resolveOverrides c overrides = .ok forced) (hrs : rs.Perm c.rules) :
    HintsAnswer c forced rs known := by
  rintro pre r post values h deps args rfl hpre hf ha hargs
  have hmem {q : Rule} (hq : q ∈ pre ++ r :: post) : q ∈ c.rules := hrs.mem_iff.1 hq
  have hr := hmem (List.mem_append_right pre List.mem_cons_self)
  have ht := hc.target_mem hown hr
  have hmemPre {q : Rule} (hq : q ∈ pre) : q ∈ c.rules := hmem (List.mem_append_left _ hq)
  have hext : Extends values (v.map some) :=
    runRules_extends (placed hc hown (fun q hq => hmemPre hq) (loadInputs_spec hc hload).1)
      (fun q hq n => hv.ruleValue hc hown hres (hmemPre hq)) (hv.extends hc hown hload) hpre
  have ho : override? c overrides r.target = none := by
    cases ho : override? c overrides r.target with
    | none => rfl
    | some p =>
      obtain ⟨⟨m, -, hm⟩, -⟩ := forcedAt_eq_some hc hres ht ho
      rw [hf] at hm; cases hm
  obtain ⟨n, hn, -⟩ := hv.rule r hr ho
  have hrun := runRule_complete.2 hn
  rw [runRule, ha] at hrun
  obtain ⟨args', hargs', hrun⟩ := bind_eq_ok.1 hrun
  obtain ⟨m, hm, -⟩ := runHint_eq_ok.1 hrun
  rw [mapM_mono (fun d m hd => Expr.evaluate_mono hext.read d hd) hargs] at hargs'
  cases hargs'
  exact ⟨m, hm⟩

omit hown in
/-- Before any rule has run, the signals that no rule computes are known. -/
theorem known_of_no_rule (hload : loadInputs c inputs (initial c) = .ok known)
    (hrs : rs.Perm c.rules) : ∀ s ∈ c.signals, (∀ q ∈ rs, q.target.uid ≠ s.uid) →
      ∃ n : ℕ, known[c.place s]? = some (some n) := by
  obtain ⟨-, hone, hin, -⟩ := loadInputs_spec hc hload
  intro s hs hfree
  rcases hc.cover s hs with rfl | hmain | ⟨r, hr, hu⟩
  · rw [hc.place 0 _ hc.first]; exact ⟨1, hone⟩
  · obtain ⟨n, -, hn⟩ := hin s ((hc.inputs s).2 ⟨hs, hmain⟩)
    exact ⟨n, hn⟩
  · exact absurd (congrArg Signal.uid hu) (hfree r (hrs.mem_iff.2 hr))

/-! ## The check -/

omit hc hown in
/-- The check names the first row of those that are violated. -/
theorem verify_of_violated {row : ℕ} {rest : List ℕ} {r : Constraint}
    (hbad : c.system.unsatisfiedRows (v.map Int.ofNat) = .ok (row :: rest))
    (hr : c.system.constraints[row]? = some r) :
    verify c v = .error (.unsatisfied row r.origin (rest.length + 1) (rowValues c v r)) := by
  simp only [verify, hbad, bind, Except.bind, hr]

/-- The check accepts a vector that satisfies all rows, and names the least row
    that is violated. -/
theorem verify_spec (hw : c.Fits (v.map Int.ofNat)) :
    ((∀ r ∈ c.system.constraints, r.isSatisfied (v.map Int.ofNat) c.system.prime = .ok true) →
      verify c v = .ok ()) ∧
    ∀ k r, c.system.constraints[k]? = some r →
      r.isSatisfied (v.map Int.ofNat) c.system.prime = .ok false →
      (∀ j q, j < k → c.system.constraints[j]? = some q →
        q.isSatisfied (v.map Int.ofNat) c.system.prime = .ok true) →
      ∃ count values, verify c v = .error (.unsatisfied k r.origin count values) := by
  refine ⟨fun hall => ?_, fun k r hk hr hbefore => ?_⟩
  · rw [verify, (hc.unsatisfiedRows_eq_nil hown hw).2 hall]; rfl
  obtain ⟨bad, hbad, hsort, hmem⟩ := hc.unsatisfiedRows hown hw
  have hkbad := (hmem k).2 ⟨r, hk, hr⟩
  cases bad with
  | nil => cases hkbad
  | cons row rest =>
    obtain ⟨q, hq, hqf⟩ := (hmem row).1 List.mem_cons_self
    -- the first reported row is the least one
    obtain rfl : row = k := by
      rcases List.mem_cons.1 hkbad with rfl | hrest
      · rfl
      · have hlt := (List.pairwise_cons.1 hsort).1 k hrest
        rw [hbefore row q hlt hq] at hqf
        cases hqf
    rw [hk] at hq
    cases hq
    exact ⟨rest.length + 1, rowValues c v r, verify_of_violated hbad hk⟩

omit hc hown in
/-- What the loop leaves is checked. -/
theorem evaluate_eq_verify (hload : loadInputs c inputs (initial c) = .ok known)
    (hres : resolveOverrides c overrides = .ok forced)
    (h : runRules c forced c.rules known = .ok final) :
    evaluate c inputs overrides =
      verify c (complete final) >>= fun _ => .ok ⟨c, complete final⟩ := by
  have hcompute : compute c inputs overrides = .ok (complete final) := by
    rw [compute, hload, bind_eq_ok]
    exact ⟨known, rfl, bind_eq_ok.2 ⟨forced, hres, bind_eq_ok.2 ⟨final, h, rfl⟩⟩⟩
  rw [evaluate, hcompute]; rfl

end

end

/-! ## Compiled circuits -/

/-- **The evaluator computes the solution of the rules and checks it.**  When no
    hint fails there is exactly one solution; the evaluator returns it if it
    satisfies every row, and otherwise names the first row that it violates.  Any
    other order of the rules that respects what they read gives the same. -/
theorem evaluate_computes_solution {σ : Type} {settings : Settings} {t : Template σ} {host : σ}
    {public_ : List String} {c : Circuit} (h : OwnCompilation settings t host public_ c)
    (hflat : ∀ r ∈ c.rules, ∀ e ∈ r.exprs, e.Shallow) {inputs overrides : Mapping} {known : Known}
    {forced : List (ℕ × ℕ)} (hload : loadInputs c inputs (initial c) = .ok known)
    (hres : resolveOverrides c overrides = .ok forced)
    (hhints : HintsAnswer c forced c.rules known) :
    ∃ v, Solves c inputs overrides v ∧ (∀ v', Solves c inputs overrides v' → v' = v) ∧
      ((∀ r ∈ c.system.constraints, r.isSatisfied (v.map Int.ofNat) c.system.prime = .ok true) →
        evaluate c inputs overrides = .ok ⟨c, v⟩) ∧
      (∀ k r, c.system.constraints[k]? = some r →
        r.isSatisfied (v.map Int.ofNat) c.system.prime = .ok false →
        (∀ j q, j < k → c.system.constraints[j]? = some q →
          q.isSatisfied (v.map Int.ofNat) c.system.prime = .ok true) →
        ∃ count values,
          evaluate c inputs overrides = .error (.unsatisfied k r.origin count values)) ∧
      (∀ r ∈ c.system.constraints,
        ∃ ok, r.isSatisfied (v.map Int.ofNat) c.system.prime = .ok ok) ∧
      ∀ rs, rs.Perm c.rules → Order.Respects rs →
        ∃ final, runRules c forced rs known = .ok final ∧ complete final = v := by
  have hc := h.coherent
  have hown := h.own
  obtain ⟨hsize, -⟩ := loadInputs_spec hc hload
  obtain ⟨final, hfinal⟩ := runRules_ok hc hown hflat (fun _ hr => hr) hc.respects hsize
    (known_of_no_rule hc hload (.refl _)) hhints
  have hv := solves_of_runRules hc hown hload hres (.refl _) hfinal
  obtain ⟨hpass, hfail⟩ := verify_spec hc hown hv.fits
  have heval := evaluate_eq_verify hload hres hfinal
  refine ⟨complete final, hv, fun v' hv' => hv'.eq_complete hc hown hload hres (.refl _) hfinal,
    fun hall => ?_, fun k r hk hr hbefore => ?_, hc.isSatisfied hown hv.fits,
    fun rs hrs hresp => ?_⟩
  · rw [heval, hpass hall]; rfl
  · obtain ⟨count, values, herr⟩ := hfail k r hk hr hbefore
    exact ⟨count, values, by rw [heval, herr]; rfl⟩
  · obtain ⟨final', hfinal'⟩ := runRules_ok hc hown hflat (fun r hr => hrs.mem_iff.1 hr) hresp hsize
      (known_of_no_rule hc hload hrs) (hv.hintsAnswer hc hown hload hres hrs)
    exact ⟨final', hfinal', (hv.eq_complete hc hown hload hres hrs hfinal').symm⟩

/-- The zero test of three modulo seven with its output overridden: the hint is
    asked, the override stands. -/
theorem isZero_computes_solution :
    ∃ c, (compile { prime := .int 7 } Gadget.isZeroTemplate () []).result = .ok c ∧
      ∃ v, Solves c [("in", .int 3)] [("out", .int 4)] v ∧
        ∀ v', Solves c [("in", .int 3)] [("out", .int 4)] v' → v' = v := by
  obtain ⟨c, hc, hown, hflat, hload, hres, hrun⟩ := exists_ok
    (x := (compile { prime := .int 7 } Gadget.isZeroTemplate () []).result)
    (P := fun c =>
      (∀ st ∈ executed { prime := .int 7 } Gadget.isZeroTemplate (), st.Own c) ∧
      (∀ r ∈ c.rules, ∀ e ∈ r.exprs, e.Shallow) ∧
      loadInputs c [("in", .int 3)] (initial c) = .ok #[some 1, none, some 3, none] ∧
      resolveOverrides c [("out", .int 4)] = .ok [(1, 4)] ∧
      runRules c [(1, 4)] c.rules #[some 1, none, some 3, none] =
        .ok #[some 1, some 4, some 3, some 5])
    (by decide +kernel)
  obtain ⟨v, hv, huniq, -⟩ := evaluate_computes_solution ⟨hc, hown⟩ hflat hload hres
    (hintsAnswer_of_runRules (placed (compile_coherent hc) hown (fun _ hr => hr)
      (loadInputs_spec (compile_coherent hc) hload).1) hrun)
  exact ⟨c, hc, v, hv, huniq⟩

/-! ## Products inside factors -/

open Build in
/-- An output computed from a product with a factor that vanishes, whose other factor is a
    product of a signal that is computed later. -/
def buried : Build Unit Unit := do
  let x ← signal .input "x"
  let o ← signal .output "o"
  let u ← signal .intermediate "u"
  let f ← field
  let product ← times (.ofSignal u) (.ofSignal x)
  assign o (.of f 0 [] [(product, (Expr.ofSignal x).sub (.ofSignal x))] 2)
  assign u (.ofSignal x)

/-- The template of these assignments. -/
def buriedTemplate : Template Unit := ⟨.of "T" [], buried⟩

/-- A signal inside a factor of a factor is not listed, so its rule may come too
    late: the inputs are accepted, there is no hint to fail, a solution exists, and
    evaluation ends in a fault. -/
theorem buried_signal_is_read_too_early :
    ∃ c, (compile { prime := .int 97 } buriedTemplate () []).result = .ok c ∧
      (∀ r ∈ c.rules, r.isHint = false) ∧
      loadInputs c [("x", .int 5)] (initial c) = .ok #[some 1, none, some 5, none] ∧
      resolveOverrides c [] = .ok [] ∧
      c.system.unsatisfiedRows #[1, 0, 5, 5] = .ok [] ∧
      failure (evaluate c [("x", .int 5)] []) = some (.fault .type) :=
  exists_ok (by decide +kernel)

end RankOne.Witness
