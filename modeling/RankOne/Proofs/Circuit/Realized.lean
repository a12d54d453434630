/-
  RankOne — from the build of a main component to its circuits.

  * `Scene.main`: the scene in which a main component is built;
  * `Provides.ofWorkspace_ok`: the workspace of a component that provides something
    compiles;
  * `Circuit.Made`, `Circuit.Realizes`: a circuit made by these statements, and one with these
    inputs and outputs, and statements of this meaning;
  * `compile_provides`, `compile_realizes`, `compile_of_fails`: what a template compiles to,
    by the build of its body.
-/
import RankOne.Proofs.Build.Child
import RankOne.Proofs.Circuit.Compiles
import RankOne.Proofs.Gadget.Catalogue
import RankOne.Proofs.Value.Operators

namespace RankOne

/-! ## Rows of statements -/

theorem Expr.Canonical.toRow_products {f : PrimeField} {e a b c : Expr} (h : e.Canonical f)
    (hr : e.toRow = .ok (a, b, c)) : a.products = [] ∧ b.products = [] ∧ c.products = [] := by
  obtain ⟨rfl, hab⟩ := toRow_cases hr
  have hneg : e.linearPart.neg.products = [] :=
    List.length_eq_zero_iff.1 (length_products_neg e.linearPart)
  rcases hab with ⟨-, rfl, rfl⟩ | hlive
  · exact ⟨rfl, rfl, hneg⟩
  · have hmem : (a, b) ∈ e.liveProducts := by
      rw [hlive]
      exact List.mem_singleton_self _
    obtain ⟨ha, hb⟩ := h.factors (a, b) (List.mem_of_mem_filter hmem)
    exact ⟨ha.products_eq, hb.products_eq, hneg⟩

theorem Expr.Proper.toRow_linear {f : PrimeField} {S : Set Signal} {e a b c : Expr}
    (h : e.Proper f S) (hr : e.toRow = .ok (a, b, c)) : Circuit.IsLinearOver S a ∧
      Circuit.IsLinearOver S b ∧ Circuit.IsLinearOver S c := by
  obtain ⟨ha, hb, hc⟩ := h.canonical.toRow_products hr
  obtain ⟨pa, pb, pc⟩ := h.toRow hr
  exact ⟨⟨ha, pa.isOver.linear⟩, ⟨hb, pb.isOver.linear⟩, hc, pc.isOver.linear⟩

/-- The row of a proper statement is made of linear forms. -/
theorem Statement.Proper.row {f : PrimeField} {S : Set Signal} {st : Statement} {row : Row}
    (h : st.Proper f S) (hS : ∀ s ∈ S, s.field = f) (hrow : st.Emits row) :
    Circuit.IsLinearOver S row.a ∧ Circuit.IsLinearOver S row.b ∧
      Circuit.IsLinearOver S row.c := by
  cases hrow with
  | @assign origin target e a b c hr =>
    have ht := h.target target rfl
    have he := h.exprs e List.mem_cons_self
    exact (he.sub (.ofSignal ht (hS _ ht))).toRow_linear hr
  | @constrain origin x y a b c hr =>
    have hx := h.exprs x List.mem_cons_self
    have hy := h.exprs y (List.mem_cons_of_mem _ List.mem_cons_self)
    exact (hx.sub hy).toRow_linear hr

/-! ## Main components -/

namespace Scene

/-- The scene in which a main component is built. -/
def main (f : PrimeField) (policy : DanglingPolicy) : Scene :=
  { here := 0, policy, field := f, path := "main", names := ∅, declarations := [], children := ∅
    signals := [Workspace.one f], assigned := ∅, arrays := 0, filled := ∅ }

theorem blank_main (f : PrimeField) (policy : DanglingPolicy) : (main f policy).Blank :=
  ⟨rfl, rfl, rfl⟩

theorem fit_main (f : PrimeField) (policy : DanglingPolicy) : (main f policy).Fit where
  field := fun s hs => by
    rw [List.mem_singleton.1 hs]
    rfl
  own := fun s hs => by
    rw [List.mem_singleton.1 hs]
    rfl
  numbers := Signal.consecutive_singleton _ 0 rfl
  below := fun _ hu => hu.elim
  older := fun _ hk => hk.elim

end Scene

theorem Template.opened_shows {σ : Type} (t : Template σ) (f : PrimeField)
    (policy : DanglingPolicy) : (t.opened f policy).Shows (.main f policy) where
  lt := Nat.zero_lt_one
  own :=
    { path := rfl
      names := fun _ => ⟨fun h => absurd h List.not_mem_nil, fun h => h.elim⟩
      declarations := rfl
      children := fun _ => ⟨fun h => absurd h.choose_spec List.not_mem_nil, fun h => h.elim⟩ }
  policy := rfl
  positions := rfl
  field := rfl
  signals := rfl
  assigned := fun _ => ⟨fun h => absurd h.choose_spec.1 List.not_mem_nil, fun h => h.elim⟩
  arrays := rfl
  filled := fun _ => ⟨fun h => absurd h.choose_spec List.not_mem_nil, fun h => h.elim⟩
  fit := Scene.fit_main f policy

section
variable {σ : Type} {t : Template σ} {f : PrimeField} {host : σ}
  {Q : Unit → List Statement → Scene → Prop}

/-- **A template whose body succeeds expands**, unless an output dangles and that is an
    error. -/
theorem Build.Succeeds.expand {policy : DanglingPolicy} (h : t.body.Succeeds (.main f policy) Q)
    (host : σ) :
    ∃ r w sc', t.expand (.start f policy, host) = (r, (w, host)) ∧
      (policy = .warn → r = .ok 0) ∧ ∀ id, r = .ok id → id = 0 ∧ w.Shows sc' ∧
        (Scene.main f policy).Grows sc' ∧
        (∀ st ∈ t.statements (.start f policy, host), st.Proper f {s | s ∈ sc'.signals}) ∧
        Q () (t.statements (.start f policy, host)) sc' := by
  obtain ⟨⟨⟩, sts, w₁, sc', hruns, hw₁, -, hgrows, hproper, hQ⟩ := h _ host (t.opened_shows f policy)
  have hsts : t.statements (.start f policy, host) = sts := hruns.statements
  rw [hgrows.field] at hproper
  rw [hsts]
  have hpolicy : w₁.policy = policy := hw₁.policy.trans hgrows.policy
  by_cases hquiet : w₁.policy = .warn ∨ w₁.danglingOutputs 0 = []
  · obtain ⟨dangling, warnings, log, hcheck⟩ := Workspace.checkDangling_of_warn hquiet
    refine ⟨_, _, sc', Template.expand_of_built hruns.run hcheck, fun _ => rfl, ?_⟩
    rintro _ ⟨⟩
    exact ⟨rfl, { hw₁ with }, hgrows, hproper, hQ⟩
  · obtain ⟨hwarn, hdangling⟩ := not_or.1 hquiet
    have hstrict : w₁.strict = w₁ := by
      cases policy with
      | warn => exact absurd hpolicy hwarn
      | error => rw [Workspace.strict, ← hpolicy]
    obtain ⟨e, -, hcheck⟩ := Workspace.checkDangling_refused 0 hdangling
    rw [hstrict] at hcheck
    refine ⟨_, _, sc', Template.expand_of_built hruns.run hcheck, fun h => ?_, ?_⟩
    · exact absurd (hpolicy.trans h) hwarn
    · rintro _ ⟨⟩

/-- A template whose body fails does not compile. -/
theorem compile_of_fails {settings : Settings} {P : Error → Prop} (hf : settings.field = .ok f)
    (h : t.body.Fails (.main f settings.dangling) P) (public_ : List String) :
    ∃ e, (compile settings t host public_).result = .error e ∧ P e := by
  obtain ⟨e, ⟨w, host'⟩, hrun, he⟩ := h _ host (t.opened_shows f settings.dangling)
  refine ⟨e, ?_, he⟩
  rw [compile_result hf (Template.expand_of_error hrun)]
  rfl

end

/-! ## Workspaces that compile -/

namespace Scene

section
variable {sc sc' : Scene} {f : PrimeField} {ins outs : List Declaration}
  {Pre Post : (Signal → ZMod f.p) → Prop} {sts : List Statement}

theorem filter_role {role : Role} {ds : List Declaration} (h : ∀ d ∈ ds, d.role = role) :
    Declaration.withRole ds role = ds := by
  rw [Declaration.withRole, List.filter_eq_self]
  exact fun d hd => by simp [h d hd]

theorem filter_other {role other : Role} {ds : List Declaration} (h : ∀ d ∈ ds, d.role = other)
    (hne : other ≠ role) : Declaration.withRole ds role = [] := by
  rw [Declaration.withRole, List.filter_eq_nil_iff]
  exact fun d hd => by simp [h d hd, hne]

theorem Provides.withRole (h : sc.Provides f ins outs Pre Post sts sc') :
    Declaration.withRole sc'.declarations .input = ins ∧
      Declaration.withRole sc'.declarations .output = outs := by
  have hterminals {role : Role} (hrole : role ≠ .intermediate) :
      Declaration.withRole sc'.declarations role = Declaration.withRole (ins ++ outs) role := by
    rw [← h.terminals, Declaration.terminals, Declaration.withRole, Declaration.withRole,
      List.filter_filter]
    refine List.filter_congr fun d _ => ?_
    by_cases hd : d.role = role <;> simp [hd, hrole]
  rw [hterminals (by decide), hterminals (by decide)]
  simp only [Declaration.withRole, List.filter_append]
  constructor
  · rw [← Declaration.withRole, ← Declaration.withRole, filter_role h.inputs,
      filter_other h.outputs (by decide), List.append_nil]
  · rw [← Declaration.withRole, ← Declaration.withRole, filter_role h.outputs,
      filter_other h.inputs (by decide), List.nil_append]

end

section
variable {f : PrimeField} {policy : DanglingPolicy} {ins outs : List Declaration}
  {Pre Post : (Signal → ZMod f.p) → Prop} {sts : List Statement} {sc' : Scene} {w : Workspace}
  (hprov : (main f policy).Provides f ins outs Pre Post sts sc') (hw : w.Shows sc')
include hprov hw

/-- The numbers that have a rule: those after the inputs. -/
theorem Provides.exists_rule (u : ℤ) : (∃ r ∈ w.draft.rules.toList, r.target.uid = u) ↔
    u ∈ Set.Ico ((1 + (Declaration.flat ins).length : ℕ) : ℤ) w.signals.size := by
  rw [hw.assigned, hprov.effect.assigned, ← Array.length_toList, hw.signals]
  exact or_iff_right (Set.notMem_empty u)

/-- The signals without rules are the constant and the inputs. -/
theorem Provides.unassigned (hs : w.Sound) : Circuit.unassigned w = [] := by
  refine List.filter_eq_nil_iff.2 fun s hmem hneed => ?_
  simp only [Bool.and_eq_true, bne_iff_ne, Bool.not_eq_true', ne_eq] at hneed
  obtain ⟨⟨hkind, hinput⟩, hfree⟩ := hneed
  have hmem := Array.mem_toList_iff.1 hmem
  obtain ⟨i, hi⟩ := Array.mem_iff_getElem?.1 hmem
  have huid := hs.numbered i s hi
  have hlt := (Array.getElem?_eq_some_iff.1 hi).1
  -- the signal is the constant, or an input, or has a rule
  obtain hzero | hlow | hhigh : i = 0 ∨ (0 < i ∧ i < 1 + (Declaration.flat ins).length) ∨
      1 + (Declaration.flat ins).length ≤ i := by omega
  · rw [hzero, hs.first] at hi
    cases hi
    exact hkind rfl
  · have hnum : s.uid ∈ Signal.numbers (Declaration.flat ins) := by
      rw [hprov.numbers.numbers, huid, Set.mem_Ico]
      have hone : (main f policy).signals.length = 1 := rfl
      omega
    obtain ⟨x, hx, hxs⟩ := hnum
    obtain ⟨hmemx, hkindx, hcompx⟩ := hprov.made x hx
    rw [← hw.signals, Array.mem_toList_iff] at hmemx
    obtain rfl := hs.numbered.eq_of_uid hmemx hmem hxs
    have hcomp : x.component = "main" := hcompx
    simp [Circuit.isMainInput, hkindx, hcomp] at hinput
  · obtain ⟨r, hr, hru⟩ := (hprov.exists_rule hw s.uid).2 (by rw [huid, Set.mem_Ico]; omega)
    rw [Draft.isAssigned, Option.isSome_eq_false_iff, Draft.rule?, Option.isNone_iff_eq_none,
      Array.find?_eq_none] at hfree
    exact hfree r (Array.mem_toList_iff.1 hr) (Signal.same_iff.2 hru)

/-- The rules can be ordered. -/
theorem Provides.order (hs : w.Sound)
    (hrules : w.draft.rules.toList = sts.filterMap Statement.rule?) :
    ∃ order, Order.evaluationOrder w.draft.rules.toList = .ok order := by
  refine Order.evaluationOrder_of_reached hs.single fun P hclosed hfree r hr => ?_
  have hreached := hprov.effect.reach P (fun st hst q hq hreads => ?_) fun u hu => ?_
  · have hmem := (hprov.exists_rule hw r.target.uid).1 ⟨r, hr, rfl⟩
    rw [← Array.length_toList, hw.signals] at hmem
    exact hreached hmem
  · refine hclosed q ?_ hreads
    rw [hrules]
    exact List.mem_filterMap.2 ⟨st, hst, hq⟩
  · refine hfree u fun q hq hqu => ?_
    have hmem := (hprov.exists_rule hw u).1 ⟨q, hq, hqu⟩
    rw [hprov.numbers.numbers] at hu
    have hone : (main f policy).signals.length = 1 := rfl
    simp only [Set.mem_Ico] at hu hmem
    omega

/-- **The workspace of a component that provides something compiles.** -/
theorem Provides.ofWorkspace_ok (hhere : sc'.here = 0) (hfield : sc'.field = f) (hs : w.Sound)
    (hl : w.Listed) (hproper : ∀ st ∈ sts, st.Proper f {s | s ∈ sc'.signals})
    (hrules : w.draft.rules.toList = sts.filterMap Statement.rule?)
    (hrows : List.Forall₂ Statement.Emits (sts.filter Statement.emitsRow) w.draft.rows.toList)
    (settings : Settings) {public_ : List String} (hnodup : public_.Nodup)
    (hpublic : public_ ⊆ ins.map (·.name)) :
    ∃ c, Circuit.ofWorkspace settings w 0 public_ = .ok c := by
  have hinputs : (w.instanceAt 0).withRole .input = ins := by
    rw [Instance.withRole, ← hhere, hw.own.declarations, hprov.withRole.1]
  have hsignals : {s | s ∈ w.signals} = {s | s ∈ sc'.signals} := by
    rw [← hw.signals]
    simp
  have hrule {r : Rule} (hr : r ∈ w.draft.rules.toList) : ∃ st ∈ sts, st.rule? = some r := by
    rw [hrules] at hr
    exact List.mem_filterMap.1 hr
  refine Circuit.ofWorkspace_of_complete settings hs hl hw.positions (fun n hn => ?_) hnodup
    (hprov.unassigned hw hs) (fun r hr => ?_) (fun r hr => ?_) (hprov.order hw hs hrules)
    fun row hrow => ?_
  · obtain ⟨d, hd, rfl⟩ := List.mem_map.1 (hpublic hn)
    exact ⟨d, hinputs.symm ▸ hd, rfl⟩
  · obtain ⟨st, hst, hst'⟩ := hrule hr
    change r.target ∈ {s | s ∈ w.signals}
    rw [hsignals]
    exact (hproper st hst).target _ (Statement.of_rule?_eq_some hst').1
  · obtain ⟨st, hst, hst'⟩ := hrule hr
    rw [hsignals, hw.field, hfield, ← (Statement.of_rule?_eq_some hst').2]
    exact fun e he => ((hproper st hst).exprs e he).isOver
  · obtain ⟨st, hst, hemits⟩ := forall₂_mem_right hrows hrow
    rw [hsignals]
    refine (hproper st (List.mem_of_mem_filter hst)).row (fun s hmem => ?_) hemits
    exact (hw.fit.field s hmem).trans hfield

end

end Scene

/-! ## Circuits -/

namespace Circuit

/-- A circuit whose main component has these declarations, made by these statements. -/
structure Made (c : Circuit) (f : PrimeField) (ds : List Declaration) (sts : List Statement) :
    Prop where
  declarations : c.mainInstance.declarations = ds
  coherent : c.Coherent sts
  proper : ∀ st ∈ sts, st.Proper f {s | s ∈ c.signals}

/-- **A circuit with these inputs and outputs, and statements of this meaning.** -/
structure Realizes (c : Circuit) (f : PrimeField) (ins outs : List Declaration)
    (Pre Post : (Signal → ZMod f.p) → Prop) : Prop where
  field : c.field = f
  inputs : c.mainInstance.withRole .input = ins
  outputs : c.mainInstance.withRole .output = outs
  path : c.mainInstance.path = "main"
  listed : c.mainInstance.Listed
  statements : ∃ ds sts, c.Made f ds sts ∧ Means f sts Pre Post

variable {c : Circuit} {sts : List Statement}

theorem Coherent.withSettings (h : c.Coherent sts) (settings : Settings) :
    Coherent { c with settings } sts :=
  ⟨h.prime, h.size, h.first, h.place, h.field, h.own, h.kind, h.uid, h.inputs, h.cover, h.rules,
    h.respects, h.targets, h.single, h.rows, h.accepted⟩

theorem Made.withSettings {f : PrimeField} {ds : List Declaration} (h : c.Made f ds sts)
    (settings : Settings) : Made { c with settings } f ds sts :=
  ⟨h.declarations, h.coherent.withSettings settings, h.proper⟩

/-- What a circuit realizes does not depend on the settings. -/
theorem Realizes.withSettings {f : PrimeField} {ins outs : List Declaration}
    {Pre Post : (Signal → ZMod f.p) → Prop} (h : c.Realizes f ins outs Pre Post)
    (settings : Settings) : Realizes { c with settings } f ins outs Pre Post := by
  obtain ⟨ds, sts, hmade, hmeans⟩ := h.statements
  exact ⟨h.field, h.inputs, h.outputs, h.path, h.listed, ds, sts, hmade.withSettings settings,
    hmeans⟩

end Circuit

section
variable {f : PrimeField} {policy : DanglingPolicy} {sc' : Scene} {w : Workspace}
  {settings : Settings} {public_ : List String} {c : Circuit}

/-- The main component of a circuit is that of its workspace. -/
theorem Circuit.mainInstance_of_ok (hc : Circuit.ofWorkspace settings w 0 public_ = .ok c) :
    c.mainInstance = w.instanceAt 0 := by
  obtain ⟨-, -, w', hb, -, -, -, -, -, -, -, hi, hm⟩ := Circuit.ofWorkspace_eq_ok hc
  obtain ⟨-, ⟨ps, rfl⟩, -, -⟩ := Circuit.bindFrom_spec hb
  rw [Circuit.mainInstance, hi, hm]
  rfl

/-- A circuit is made by the statements of its build. -/
theorem Workspace.Shows.made {sts : List Statement} (hw : w.Shows sc') (hhere : sc'.here = 0)
    (hs : w.Sound) (hproper : ∀ st ∈ sts, st.Proper f {s | s ∈ sc'.signals})
    (hc : Circuit.ofWorkspace settings w 0 public_ = .ok c) (hcoherent : c.Coherent sts) :
    c.Made f sc'.declarations sts := by
  obtain ⟨-, -, w', hb, -, -, -, -, -, hsig, -⟩ := Circuit.ofWorkspace_eq_ok hc
  obtain ⟨-, ⟨ps, rfl⟩, -, -⟩ := Circuit.bindFrom_spec hb
  have hsignals : {s | s ∈ c.signals} = {s | s ∈ sc'.signals} := by
    rw [hsig, ← hw.signals]
    ext s
    exact List.mem_toArray.trans ((Circuit.mem_layout hs).trans Array.mem_toList_iff.symm)
  refine ⟨?_, hcoherent, hsignals ▸ hproper⟩
  rw [Circuit.mainInstance_of_ok hc, ← hhere, hw.own.declarations]

/-- **The circuit of a component realizes what the component provides.** -/
theorem Scene.Provides.realizes {ins outs : List Declaration}
    {Pre Post : (Signal → ZMod f.p) → Prop} {sts : List Statement}
    (h : (main f policy).Provides f ins outs Pre Post sts sc') (hw : w.Shows sc')
    (hfield : sc'.field = f) (hs : w.Sound) (hl : w.Listed)
    (hc : Circuit.ofWorkspace settings w 0 public_ = .ok c)
    (hmade : c.Made f sc'.declarations sts) : c.Realizes f ins outs Pre Post := by
  obtain ⟨-, -, w', hb, -, -, hf, -⟩ := Circuit.ofWorkspace_eq_ok hc
  obtain ⟨-, ⟨ps, rfl⟩, -, -⟩ := Circuit.bindFrom_spec hb
  have hmain := Circuit.mainInstance_of_ok hc
  have hrole (role : Role) : c.mainInstance.withRole role =
      Declaration.withRole sc'.declarations role := by
    rw [Instance.withRole, hmade.declarations]
  exact
    { field := hf.trans (hw.field.trans hfield)
      inputs := (hrole _).trans h.withRole.1
      outputs := (hrole _).trans h.withRole.2
      path := hmain ▸ hs.main
      listed := hmain ▸ hl 0
      statements := ⟨_, sts, hmade, h.means⟩ }

end

section
variable {σ : Type} {settings : Settings} {t : Template σ} {f : PrimeField} {names : List String}
  {Q : Circuit → Prop}

/-- **What a template compiles to realizes what its build provides.**  It compiles unless an
    output dangles and that is an error. -/
theorem compile_provides (hf : settings.field = .ok f)
    (hbody : t.body.Succeeds (.main f settings.dangling) fun _ sts sc' => ∃ ins outs Pre Post,
      (Scene.main f settings.dangling).Provides f ins outs Pre Post sts sc' ∧
      ins.map (·.name) = names ∧ ∀ c : Circuit, c.Realizes f ins outs Pre Post →
        c.Made f sc'.declarations sts → Q c) (host : σ) (public_ : List String) :
    (settings.dangling = .warn → public_.Nodup → public_ ⊆ names →
      ∃ c, (compile settings t host public_).result = .ok c) ∧
      ∀ c, (compile settings t host public_).result = .ok c → Q c := by
  obtain ⟨r, w, sc', hx, hwarn, hok⟩ := hbody.expand host
  have hresult : (compile settings t host public_).result =
      r.bind fun id => Circuit.ofWorkspace settings w id public_ := compile_result hf hx
  rw [hresult]
  rcases r with e | id
  · exact ⟨fun h => absurd (hwarn h) (by simp), by rintro c ⟨⟩⟩
  obtain ⟨rfl, hshows, hgrows, hproper, ins, outs, Pre, Post, hprov, rfl, hQ⟩ := hok id rfl
  have hsts : executed settings t host = t.statements (.start f settings.dangling, host) := by
    rw [executed, hf]
  have hrun := expand_spec hf hx
  have hopen := Workspace.opened_sound t f settings.dangling
  have hs := hrun.sound hopen
  have hl := hrun.listed hopen (Workspace.opened_listed t f settings.dangling)
  rw [hsts] at hrun
  refine ⟨fun _ hnodup hpublic => ?_, fun c hc => ?_⟩
  · obtain ⟨rows, hrows, hemits⟩ := hrun.rows
    have hrows : w.draft.rows.toList = rows := hrows
    exact hprov.ofWorkspace_ok hshows hgrows.here hgrows.field hs hl hproper hrun.rules
      (hrows ▸ hemits) settings hnodup hpublic
  · have hcoherent := compile_coherent (hresult.trans hc)
    rw [hsts] at hcoherent
    have hmade := hshows.made hgrows.here hs hproper hc hcoherent
    exact hQ c (hprov.realizes hshows hgrows.field hs hl hc hmade) hmade

/-- A template whose children are all heard compiles to the same under both policies. -/
theorem compile_strict_eq (hw : settings.dangling = .warn)
    (hkeeps : ∀ W : Workspace, W.Sound → W.Apart → Build.Keeps W t.body fun _ => True) {host : σ}
    {c₀ : Circuit} (h : (compile settings t host []).result = .ok c₀) (public_ : List String) :
    (compile settings.strict t host public_).result = (compile settings t host public_).result.map
      fun c => { c with settings := settings.strict } := by
  obtain ⟨w₀, ht⟩ := compile_traced h
  have hbound := ht.bound (hkeeps w₀ ht.regular.sound ht.regular.apart)
  have hnil : c₀.dangling = [] := by
    rw [compile_dangling h hw, Workspace.reports, List.flatMap_eq_nil_iff]
    exact fun q hq => ht.dangling_eq_nil hbound hq
  obtain ⟨field, w, host', hf, hx, hx', -⟩ := expand_strict h hw hnil
  have hf' : settings.strict.field = .ok field := hf
  rw [← hw] at hx
  rw [compile_result hf' hx', compile_result hf hx]
  exact Circuit.ofWorkspace_policy settings settings.strict w public_

/-- A prime has its field. -/
theorem Settings.field_of_prime {p : ℕ} (hp : p.Prime) (hs : settings.prime = .int p) :
    settings.field = .ok ⟨p, hp.two_le⟩ := by
  obtain ⟨v, hv, htruth⟩ := Value.binary_lt_of_index (n := .int p) rfl 2
  have hsmall : ¬ (p : ℤ) < 2 := by
    have := hp.two_le
    omega
  rw [decide_eq_false hsmall] at htruth
  rw [Settings.field, hs, Settings.fieldOf, hv, ← PrimeField.ofInt_of_prime hp]
  simp only [bind, Except.bind, htruth, Bool.false_eq_true, if_false]

/-- The settings under which dangling outputs are reported. -/
def Settings.lenient (s : Settings) : Settings := { s with dangling := .warn }

/-- **A template whose build provides something compiles**, if no output of a child is left
    unread. -/
theorem compile_realizes (hf : settings.field = .ok f)
    (hkeeps : ∀ W : Workspace, W.Sound → W.Apart → Build.Keeps W t.body fun _ => True)
    (hbody : t.body.Succeeds (.main f .warn) fun _ sts sc' => ∃ ins outs Pre Post,
      (Scene.main f .warn).Provides f ins outs Pre Post sts sc' ∧ ins.map (·.name) = names ∧
      ∀ c : Circuit, c.Realizes f ins outs Pre Post →
        c.Made f sc'.declarations sts → Q c) (host : σ) (public_ : List String) :
    (public_.Nodup → public_ ⊆ names → ∃ c, (compile settings t host public_).result = .ok c) ∧
      ∀ c, (compile settings t host public_).result = .ok c → Q c := by
  cases hd : settings.dangling with
  | warn =>
    rw [← hd] at hbody
    have h := compile_provides hf hbody host public_
    exact ⟨h.1 hd, h.2⟩
  | error =>
    have hstrict : settings.lenient.strict = settings := by
      cases settings
      cases hd
      rfl
    have hf' : settings.lenient.field = .ok f := hf
    -- the same circuits, with other settings
    have hlenient := compile_provides hf'
      (hbody.mono fun _ sts sc' _ _ h => by
        obtain ⟨ins, outs, Pre, Post, hprov, hnames, hQ⟩ := h
        exact ⟨ins, outs, Pre, Post, hprov, hnames,
          fun c hc hmade => hQ _ (hc.withSettings settings) (hmade.withSettings settings)⟩) host
    obtain ⟨c₀, hc₀⟩ := (hlenient []).1 rfl List.nodup_nil (List.nil_subset _)
    have heq := compile_strict_eq rfl hkeeps hc₀ public_
    rw [hstrict] at heq
    rw [heq]
    refine ⟨fun hnodup hpublic => ?_, fun c hc => ?_⟩
    · obtain ⟨c, hc⟩ := (hlenient public_).1 rfl hnodup hpublic
      exact ⟨_, by rw [hc]; rfl⟩
    · rcases hc' : (compile settings.lenient t host public_).result with e | c'
      · rw [hc'] at hc
        cases hc
      · rw [hc'] at hc
        cases hc
        exact (hlenient public_).2 c' hc'

end

end RankOne
