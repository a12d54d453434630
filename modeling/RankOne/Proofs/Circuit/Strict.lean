/-
  RankOne — compilations under the two policies on dangling outputs.

  * `compile_dangling`: a compilation that warns reports what dangles at the ends of the
    builds;
  * `compile_strict`, `compile_relays`: where dangling outputs are errors, a compilation
    is the same if there are none, and else ends with one, if the builds pass it on.
-/
import RankOne.Proofs.Build.Policy
import RankOne.Proofs.Circuit.Coherent

namespace RankOne

open Workspace (reports)

/-! ## Policies -/

section
variable {σ : Type} {t : Template σ} {field : PrimeField} {policy : DanglingPolicy}
  {host host' : σ} {w w₁ : Workspace}

theorem Template.expand_of_error {e : Error} {s : Workspace × σ}
    (h : Program.run t.body.run 0 (t.opened field policy, host) = (.error e, s)) :
    t.expand (.start field policy, host) = (.error e, s) := by
  have henter : (Workspace.enter "main" "main" t.application none).run (.start field policy) =
      (0, t.opened field policy) := rfl
  rw [Template.expand, henter]
  dsimp only
  rw [h]

theorem Template.expand_of_built {r : Except Error Unit}
    (h : Program.run t.body.run 0 (t.opened field policy, host) = (.ok (), (w₁, host')))
    (hr : (Workspace.checkDangling 0).run.run w₁ = (r, w)) :
    t.expand (.start field policy, host) = (r.map fun _ => 0, (w, host')) := by
  have henter : (Workspace.enter "main" "main" t.application none).run (.start field policy) =
      (0, t.opened field policy) := rfl
  rw [Template.expand, henter]
  dsimp only
  rw [h]
  dsimp only
  rw [hr]

end

namespace Circuit

theorem bindFrom_strict : ∀ (ss : List Signal) (i : ℕ) (w : Workspace),
    bindFrom i ss w.strict = (bindFrom i ss w).map Workspace.strict := by
  intro ss
  induction ss with
  | nil => exact fun _ _ => rfl
  | cons s ss ih =>
    intro i w
    rw [bindFrom, bindFrom, (Workspace.blind_bindPosition s (.of i)).strict w]
    rcases (Workspace.bindPosition s (.of i)).run.run w with ⟨e | _, w'⟩
    · rfl
    · exact ih (i + 1) w'

/-- A circuit is made without looking at the policy. -/
theorem ofWorkspace_policy (settings settings' : Settings) (w : Workspace) (public_ : List String) :
    ofWorkspace settings' w.strict 0 public_ =
      (ofWorkspace settings w 0 public_).map fun c => { c with settings := settings' } := by
  simp only [ofWorkspace]
  have hmain : w.strict.instanceAt 0 = w.instanceAt 0 := rfl
  have hlayout : layout w.strict (w.instanceAt 0) public_ = layout w (w.instanceAt 0) public_ := rfl
  have hunassigned : unassigned w.strict = unassigned w := rfl
  have hdraft : w.strict.draft = w.draft := rfl
  have htargets : checkTargets w.strict = checkTargets w := rfl
  rw [hmain, hlayout, hunassigned, hdraft, htargets, bindFrom_strict]
  rcases checkPublic (w.instanceAt 0) public_ with e | ⟨⟨⟩⟩
  · rfl
  rcases checkTargets w with e | ⟨⟨⟩⟩
  · rfl
  change (if _ then _ else _) = Except.map _ (if _ then _ else _)
  split_ifs
  · rfl
  rcases checkReads w.draft.rules.toList with e | ⟨⟨⟩⟩
  · rfl
  rcases Order.evaluationOrder w.draft.rules.toList with e | rules
  · rfl
  rcases bindFrom 0 (layout w (w.instanceAt 0) public_) w with e | w'
  · rfl
  change (w'.draft.rows.toList.mapM (lower w') >>= _) =
    Except.map _ (w'.draft.rows.toList.mapM (lower w') >>= _)
  rcases w'.draft.rows.toList.mapM (lower w') with e | constraints <;> rfl

theorem ofWorkspace_strict {settings settings' : Settings} {w : Workspace} {public_ : List String}
    {c : Circuit} (h : ofWorkspace settings w 0 public_ = .ok c) :
    ofWorkspace settings' w.strict 0 public_ = .ok { c with settings := settings' } := by
  rw [ofWorkspace_policy settings, h]
  rfl

theorem dangling_of_workspace {settings : Settings} {w : Workspace} {public_ : List String}
    {c : Circuit} (h : ofWorkspace settings w 0 public_ = .ok c) :
    c.dangling = w.dangling.toList := by
  obtain ⟨-, -, h⟩ := bind_eq_ok.1 h
  obtain ⟨-, -, h⟩ := bind_eq_ok.1 h
  dsimp only at h
  split_ifs at h
  obtain ⟨-, -, h⟩ := bind_eq_ok.1 h
  obtain ⟨rules, -, h⟩ := bind_eq_ok.1 h
  obtain ⟨w', hw', h⟩ := bind_eq_ok.1 h
  obtain ⟨constraints, -, h⟩ := bind_eq_ok.1 h
  cases h
  obtain ⟨-, ⟨ps, rfl⟩, -, -⟩ := bindFrom_spec hw'
  rfl

end Circuit

/-- The settings under which dangling outputs are errors. -/
def Settings.strict (s : Settings) : Settings := { s with dangling := .error }

section
variable {σ : Type} {settings : Settings} {t : Template σ} {host : σ} {public_ : List String}
  {c : Circuit}

/-- A compilation that warns: the main component is built, checked and compiled. -/
theorem compile_warn (h : (compile settings t host public_).result = .ok c)
    (hw : settings.dangling = .warn) :
    ∃ field w₁ host' w, settings.field = .ok field ∧
      Program.run t.body.run 0 (t.opened field .warn, host) = (.ok (), (w₁, host')) ∧
      w₁.policy = .warn ∧ (Workspace.checkDangling 0).run.run w₁ = (.ok (), w) ∧
      Circuit.ofWorkspace settings w 0 public_ = .ok c ∧
      finished settings t host =
        Program.finished t.body.run 0 (t.opened field .warn, host) ++ [(0, w₁)] := by
  obtain ⟨field, w, host', hf, hx, hc⟩ := compile_eq_ok h
  rw [hw] at hx
  obtain ⟨-, w₁, hrun, -⟩ := Template.expand_eq_ok hx
  have hpolicy := (@Program.run_dangling _ _ t.body.run 0 (t.opened field .warn) host rfl).1
  rw [hrun] at hpolicy
  obtain ⟨w₂, hcheck, -⟩ := Workspace.checkDangling_warn 0 hpolicy
  rw [Template.expand_of_built hrun hcheck] at hx
  cases hx
  refine ⟨field, w₁, host', w, hf, hrun, hpolicy, hcheck, hc, ?_⟩
  simp only [finished, hf, hw, hrun]

/-- **A compilation that warns reports what dangles at the ends of the builds.** -/
theorem compile_dangling (h : (compile settings t host public_).result = .ok c)
    (hw : settings.dangling = .warn) : c.dangling = reports (finished settings t host) := by
  obtain ⟨field, w₁, host', w, -, hrun, hpolicy, hcheck, hc, hfin⟩ := compile_warn h hw
  have hbody := (@Program.run_dangling _ _ t.body.run 0 (t.opened field .warn) host rfl).2
  rw [hrun] at hbody
  obtain ⟨w₂, hcheck', -, hmain⟩ := Workspace.checkDangling_warn 0 hpolicy
  rw [hcheck] at hcheck'
  cases hcheck'
  rw [Circuit.dangling_of_workspace hc, hmain, Array.toList_append, hbody, hfin,
    Workspace.reports_append]
  exact congrArg _ (List.append_nil _).symm

theorem compile_result {field : PrimeField} {r : Except Error ℕ} {w : Workspace} {host' : σ}
    (hf : settings.field = .ok field)
    (hx : t.expand (.start field settings.dangling, host) = (r, (w, host'))) :
    (compile settings t host public_).result =
      r.bind fun id => Circuit.ofWorkspace settings w id public_ := by
  rw [compile, hf]
  dsimp only
  rw [hx]

/-- **Without dangling outputs, a template expands in the same way where they are errors.** -/
theorem expand_strict (h : (compile settings t host public_).result = .ok c)
    (hw : settings.dangling = .warn) (hd : c.dangling = []) :
    ∃ field w host', settings.field = .ok field ∧
      t.expand (.start field .warn, host) = (.ok 0, (w, host')) ∧
      t.expand (.start field .error, host) = (.ok 0, (w.strict, host')) ∧
      Circuit.ofWorkspace settings w 0 public_ = .ok c := by
  obtain ⟨field, w₁, host', w, hf, hrun, hpolicy, hcheck, hc, hfin⟩ := compile_warn h hw
  rw [compile_dangling h hw, hfin, Workspace.reports_append, List.append_eq_nil_iff] at hd
  have hstrict := Program.run_strict t.body.run host (w := t.opened field .warn) rfl hd.1
  have hmain : w₁.danglingOutputs 0 = [] := (List.append_nil _).symm.trans hd.2
  have hcheck' := Workspace.checkDangling_strict 0 hpolicy hmain
  rw [hrun] at hstrict
  rw [hcheck] at hcheck'
  exact ⟨field, w, host', hf, Template.expand_of_built hrun hcheck,
    Template.expand_of_built hstrict hcheck', hc⟩

/-- **Without dangling outputs, a compilation is the same where they are errors.** -/
theorem compile_strict (h : (compile settings t host public_).result = .ok c)
    (hw : settings.dangling = .warn) (hd : c.dangling = []) :
    (compile settings.strict t host public_).result =
      .ok { c with settings := settings.strict } := by
  obtain ⟨field, w, host', hf, -, hx, hc⟩ := expand_strict h hw hd
  have hf' : settings.strict.field = .ok field := hf
  rw [compile_result hf' hx]
  exact Circuit.ofWorkspace_strict hc

/-- **With dangling outputs, a compilation ends with such an error where they are
    errors**, if every build passes them on. -/
theorem compile_relays (h : (compile settings t host public_).result = .ok c)
    (hw : settings.dangling = .warn) (hd : c.dangling ≠ [])
    (hrelays : Build.Relays t.body) :
    ∃ e : Error, (compile settings.strict t host public_).result = .error e ∧
      e.kind = .dangling := by
  obtain ⟨field, w₁, host', w, hf, hrun, hpolicy, hcheck, hc, hfin⟩ := compile_warn h hw
  rw [compile_dangling h hw, hfin, Workspace.reports_append] at hd
  have hf' : settings.strict.field = .ok field := hf
  by_cases hinside : reports (Program.finished t.body.run 0 (t.opened field .warn, host)) = []
  · have hmain : w₁.danglingOutputs 0 ≠ [] := fun hnil => hd <|
      List.append_eq_nil_iff.2 ⟨hinside, (List.append_nil _).trans hnil⟩
    have hstrict := Program.run_strict t.body.run host (w := t.opened field .warn) rfl hinside
    rw [hrun] at hstrict
    obtain ⟨e, he, hcheck'⟩ := Workspace.checkDangling_refused 0 hmain
    have hx : t.expand (.start field settings.strict.dangling, host) =
      (.error e, (w₁.strict, host')) := Template.expand_of_built hstrict hcheck'
    exact ⟨e, by rw [compile_result hf' hx]; rfl, he⟩
  · obtain ⟨e, hresult, he⟩ := Program.run_relays t.body.run host (w := t.opened field .warn)
      hrelays rfl hinside
    rcases hb : Program.run t.body.run 0 ((t.opened field .warn).strict, host) with ⟨built, s⟩
    obtain rfl : built = .error e := by rw [← hresult, hb]
    have hx : t.expand (.start field settings.strict.dangling, host) = (.error e, s) :=
      Template.expand_of_error hb
    exact ⟨e, by rw [compile_result hf' hx]; rfl, he⟩

end

end RankOne
