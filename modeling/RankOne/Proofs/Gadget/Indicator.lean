/-
  RankOne — indicators are exact wherever they are placed.

  With `1 - d · inv = out` and `out · d = 0` over a prime field, `out` is one if `d`
  is zero, and otherwise zero, with the inverse of `d` in `inv`.

  * `Tells`, `tells_iff`: what the two equations say;
  * `indicate_runs`: the statements of an indicator, and the rows it emits;
  * `Exact`, `indicate_exact`: the rows of an instance say in the circuit what the
    equations say;
  * `indicators_exact`: so it is for every instance in the tree of a circuit.
-/
import Mathlib
import RankOne.Gadget.Indicator
import RankOne.Proofs.Circuit.Instances
import RankOne.Proofs.Circuit.Meaning
import RankOne.Proofs.Expr.Homomorphism

namespace RankOne.Gadget

open Build

/-! ## Equations -/

/-- `out` tells whether `d` is zero, and if not, `inv` is its inverse. -/
def Tells {p : ℕ} (d out inv : ZMod p) : Prop :=
  (d = 0 → out = 1) ∧ (d ≠ 0 → out = 0 ∧ d * inv = 1)

/-- **Over a prime field the two equations of an indicator say that it tells.** -/
theorem tells_iff {p : ℕ} (hp : p.Prime) {d out inv : ZMod p} :
    1 - d * inv = out ∧ out * d = 0 ↔ Tells d out inv := by
  have := Fact.mk hp
  constructor
  · rintro ⟨hdef, hgate⟩
    refine ⟨fun hd => by rw [← hdef, hd]; ring, fun hd => ?_⟩
    have hout : out = 0 := (mul_eq_zero.1 hgate).resolve_right hd
    exact ⟨hout, by rw [hout, sub_eq_zero] at hdef; exact hdef.symm⟩
  · rintro ⟨hzero, hunit⟩
    by_cases hd : d = 0
    · rw [hzero hd, hd]; simp
    · obtain ⟨hout, hinv⟩ := hunit hd
      rw [hout, hinv]; simp

/-! ## Statements -/

section
variable {σ : Type} {here : ℕ} {s s' : Workspace × σ} {sts : List Statement} {u : Unit}

theorem degree_mul {a b e : Expr} (ha : a.degree = 1) (hb : b.degree = 1) (h : a.mul b = .ok e) :
    e.degree = 2 := by
  rw [Expr.mul, if_neg (by omega), if_neg (by omega), if_neg (by omega)] at h
  cases h
  rw [Expr.of, ha, hb]
  rfl

/-- **An indicator makes two statements with a row each.** -/
theorem indicate_runs {x : Expr} {out inv : Signal} (hx : x.degree = 1)
    (h : (indicate x out inv).Runs here s sts u s') : ∃ product square,
      x.mul (.ofSignal inv) = .ok product ∧ (Expr.ofSignal out).mul x = .ok square ∧
      sts.filter Statement.emitsRow =
        [.assign (s.1.sight here).path out ((Expr.ofInt s.1.field 1).sub product),
          .constrain (s.1.sight here).path square (.ofInt s.1.field 0)] ∧
      s'.1.sight here = (s.1.sight here).emit.emit := by
  obtain ⟨_, s₁, _, _, h₁, k₁, rfl⟩ := runs_bind h
  obtain ⟨rfl, hv₁⟩ := runs_hint h₁
  obtain ⟨product, s₂, _, _, h₂, k₂, rfl⟩ := runs_bind k₁
  obtain ⟨hproduct, rfl, rfl⟩ := runs_times h₂
  obtain ⟨one, s₃, _, _, h₃, k₃, rfl⟩ := runs_bind k₂
  obtain ⟨rfl, rfl, hs₃⟩ := runs_const h₃
  obtain ⟨_, s₄, _, _, h₄, k₄, rfl⟩ := runs_bind k₃
  obtain ⟨rfl, hv₄⟩ := runs_assign h₄
  obtain ⟨square, s₅, _, _, h₅, k₅, rfl⟩ := runs_bind k₄
  obtain ⟨hsquare, rfl, rfl⟩ := runs_times h₅
  obtain ⟨zero, s₆, _, _, h₆, k₆, rfl⟩ := runs_bind k₅
  obtain ⟨rfl, rfl, hs₆⟩ := runs_const h₆
  obtain ⟨rfl, hv₇⟩ := runs_constrain k₆
  have hsquared : square.degree = 2 := degree_mul rfl hx hsquare
  have hrow (f : PrimeField) : max square.degree (Expr.ofInt f 0).degree ≠ 0 := by
    rw [hsquared]
    omega
  rw [hs₃, hv₁] at hv₄
  rw [hs₆, hv₄, if_neg (hrow _)] at hv₇
  refine ⟨product, square, hproduct, hsquare, ?_, hv₇⟩
  have hf₁ : s₂.1.field = s.1.field := congrArg Sight.field hv₁
  have hf₄ : s₅.1.field = s.1.field := congrArg Sight.field hv₄
  rw [hs₃, hs₆, hv₁, hv₄, hf₁, hf₄]
  have hkept (path : String) (f : PrimeField) :
      [Statement.constrain path square (.ofInt f 0)].filter Statement.emitsRow =
        [.constrain path square (.ofInt f 0)] :=
    List.filter_cons_of_pos (bne_iff_ne.2 (hrow f))
  simp only [List.filter_append, hkept]
  rfl

end

/-! ## Rows -/

/-- The rows of an instance say exactly that `out` tells whether `d` is zero: on a
    vector that satisfies the whole system it does, and on a vector on which it does
    they are satisfied. -/
structure Exact (c : Circuit) (id : ℕ) (d : Array Int → ZMod c.field.p) (out inv : Signal) :
    Prop where
  rows : ∃ k, (c.instanceAt id).rows = [k, k + 1]
  sound : ∀ w, c.Fits w →
    (∀ r ∈ c.system.constraints, r.isSatisfied w c.system.prime = .ok true) →
      Tells (d w) (c.element w out) (c.element w inv)
  complete : ∀ w, c.Fits w → Tells (d w) (c.element w out) (c.element w inv) →
    ∀ k ∈ (c.instanceAt id).rows, ∃ r, c.system.constraints[k]? = some r ∧
      r.isSatisfied w c.system.prime = .ok true

section
variable {σ : Type} {c : Circuit} {id : ℕ} {s s' : Workspace × σ} {pre sts post : List Statement}

/-- **The rows of an indicator mean its equations**, whatever stands around them. -/
theorem indicate_exact (hp : c.field.p.Prime) (hc : c.Coherent (pre ++ sts ++ post)) {x : Expr}
    {out inv : Signal} {path : String} {ds : List Declaration}
    (hruns : (indicate x out inv).Runs id s sts () s')
    (hsight : s.1.sight id = ⟨c.field, path, ds, [], (pre.filter Statement.emitsRow).length⟩)
    (hrows : (c.instanceAt id).rows = (s'.1.sight id).rows)
    (hx : x.Proper c.field {s | s ∈ c.signals}) (hdeg : x.degree = 1) (hout : out ∈ c.signals)
    (hinv : inv ∈ c.signals) : Exact c id (fun w => x.value (c.element w)) out inv := by
  obtain ⟨product, square, hproduct, hsquare, hsts, hsight'⟩ := indicate_runs hdeg hruns
  have hfield : s.1.field = c.field := congrArg Sight.field hsight
  rw [hsight, hfield] at hsts
  rw [hsight', hsight] at hrows
  -- the two rows stand after those of what was executed before
  have hat {k : ℕ} (hk : k < 2) : ((pre ++ sts ++ post).filter Statement.emitsRow)[
      (pre.filter Statement.emitsRow).length + k]? =
        [Statement.assign path out ((Expr.ofInt c.field 1).sub product),
          .constrain path square (.ofInt c.field 0)][k]? := by
    rw [List.filter_append, List.filter_append, hsts, List.append_assoc,
      List.getElem?_append_right (Nat.le_add_right _ k), Nat.add_sub_cancel_left,
      List.getElem?_append_left hk]
  have hone : (Expr.ofInt c.field 1).Proper c.field {s | s ∈ c.signals} := .ofInt 1
  have hzero : (Expr.ofInt c.field 0).Proper c.field {s | s ∈ c.signals} := .ofInt 0
  have ho := Expr.Proper.ofSignal (S := {s | s ∈ c.signals}) hout (hc.field out hout)
  have hi := Expr.Proper.ofSignal (S := {s | s ∈ c.signals}) hinv (hc.field inv hinv)
  have hpe := hx.mul hi hproduct
  have hse := ho.mul hx hsquare
  obtain ⟨r, hr, hassign⟩ := hc.assign_at (hat Nat.zero_lt_two)
    ⟨by simpa [Statement.exprs] using (hone.sub hpe).isOver,
      by simpa [Statement.target?] using hout⟩
  obtain ⟨g, hg, hconstrain⟩ := hc.constrain_at (hat Nat.one_lt_two)
    ⟨by simpa [Statement.exprs] using ⟨hse.isOver, hzero.isOver⟩, by simp [Statement.target?]⟩
  have hiff : ∀ w, c.Fits w → ((r.isSatisfied w c.system.prime = .ok true ∧
      g.isSatisfied w c.system.prime = .ok true) ↔
        Tells (x.value (c.element w)) (c.element w out) (c.element w inv)) := by
    intro w hw
    have hv := Circuit.byUid_element c w
    rw [hassign w hw, hconstrain w hw,
      Expr.value_sub hv hone.canonical.isQuadratic hpe.canonical.isQuadratic,
      Expr.value_sub hv hse.canonical.isQuadratic hzero.canonical.isQuadratic,
      hx.canonical.value_mul hi.canonical hproduct, ho.canonical.value_mul hx.canonical hsquare,
      ← tells_iff hp]
    simp
  refine ⟨⟨_, hrows⟩, fun w hw hsat => ?_, fun w hw ht k hk => ?_⟩
  · exact (hiff w hw).1 ⟨hsat r (List.mem_of_getElem? hr), hsat g (List.mem_of_getElem? hg)⟩
  · obtain ⟨hr', hg'⟩ := (hiff w hw).2 ht
    rw [hrows] at hk
    rcases List.mem_pair.1 hk with rfl | rfl
    · exact ⟨r, hr, hr'⟩
    · exact ⟨g, hg, hg'⟩

end

/-! ## Instances -/

section
variable {σ : Type} {settings : Settings} {t : Template σ} {host : σ} {public_ : List String}
  {c : Circuit} {id : ℕ}

/-- A component that declares `d`, then `out` and `inv`, and then tells whether an
    expression over the signals of `d` is zero. -/
theorem declared_exact (h : (compile settings t host public_).result = .ok c)
    (hp : c.field.p.Prime) {pre sts post : List Statement} {s s' : Workspace × σ} {path : String}
    {d : Declaration} {x : Expr} (hex : executed settings t host = pre ++ sts ++ post)
    (hruns : (do
      let out ← signal .output "out"
      let inv ← signal .intermediate "inv"
      indicate x out inv : Build σ Unit).Runs id s sts () s')
    (hsight : s.1.sight id = ⟨c.field, path, [d], [], (pre.filter Statement.emitsRow).length⟩)
    (hdecl : (c.instanceAt id).declarations = (s'.1.sight id).declarations)
    (hrows : (c.instanceAt id).rows = (s'.1.sight id).rows) (hdeg : x.degree = 1)
    (hx : (∀ s ∈ d.bus.flat, s ∈ c.signals ∧ s.field = c.field) →
      x.Proper c.field {s | s ∈ c.signals}) :
    ∃ out inv, (c.instanceAt id).declarations =
        [d, ⟨"out", .output, .single out⟩, ⟨"inv", .intermediate, .single inv⟩] ∧
      (∀ s ∈ d.bus.flat, s.field = c.field) ∧
      Exact c id (fun w => x.value (c.element w)) out inv := by
  obtain ⟨out, s₁, _, _, h₁, k₁, rfl⟩ := runs_bind hruns
  obtain ⟨rfl, hv₁⟩ := runs_signal h₁
  obtain ⟨inv, s₂, _, _, h₂, k₂, rfl⟩ := runs_bind k₁
  obtain ⟨rfl, hv₂⟩ := runs_signal h₂
  rw [hv₁, hsight] at hv₂
  obtain ⟨-, -, -, -, -, hv₃⟩ := indicate_runs hdeg k₂
  have hds : (c.instanceAt id).declarations =
      [d, ⟨"out", .output, .single out⟩, ⟨"inv", .intermediate, .single inv⟩] := by
    rw [hdecl, hv₃, hv₂]; rfl
  have hmem := declared_mem_signals h id
  rw [hds] at hmem
  have hc := compile_coherent h
  rw [hex] at hc
  have hd : ∀ s ∈ d.bus.flat, s ∈ c.signals ∧ s.field = c.field := fun s hs =>
    have hs := hmem s (List.mem_append_left _ hs)
    ⟨hs, hc.field s hs⟩
  refine ⟨out, inv, hds, fun s hs => (hd s hs).2, ?_⟩
  exact indicate_exact hp hc k₂ hv₂ hrows (hx hd) hdeg (hmem out (by simp [Bus.flat]))
    (hmem inv (by simp [Bus.flat]))

theorem isZero_exact (h : (compile settings t host public_).result = .ok c)
    (hp : c.field.p.Prime) (hid : (id, isZero.run) ∈ components settings t host) :
    ∃ x out inv, (c.instanceAt id).declarations = [⟨"in", .input, .single x⟩,
        ⟨"out", .output, .single out⟩, ⟨"inv", .intermediate, .single inv⟩] ∧
      Exact c id (fun w => c.element w x) out inv := by
  obtain ⟨pre, sts, post, s, s', hex, hruns, ⟨path, hsight⟩, hdecl, hrows⟩ :=
    compile_component h hid
  obtain ⟨x, s₁, _, _, h₁, k₁, rfl⟩ := runs_bind hruns
  obtain ⟨rfl, hv₁⟩ := runs_signal h₁
  rw [hsight] at hv₁
  obtain ⟨out, inv, hds, -, hexact⟩ := declared_exact h hp hex k₁ hv₁ hdecl hrows rfl fun hin =>
    have hx := hin x List.mem_cons_self
    .ofSignal hx.1 hx.2
  exact ⟨x, out, inv, hds, by simpa using hexact⟩

theorem isEqual_exact (h : (compile settings t host public_).result = .ok c)
    (hp : c.field.p.Prime) (hid : (id, isEqual.run) ∈ components settings t host) :
    ∃ x y mark out inv, (c.instanceAt id).declarations =
        [⟨"in", .input, .array [.single x, .single y] [2] mark⟩,
          ⟨"out", .output, .single out⟩, ⟨"inv", .intermediate, .single inv⟩] ∧
      Exact c id (fun w => c.element w y - c.element w x) out inv := by
  obtain ⟨pre, sts, post, s, s', hex, hruns, ⟨path, hsight⟩, hdecl, hrows⟩ :=
    compile_component h hid
  obtain ⟨xs, s₁, _, _, h₁, k₁, rfl⟩ := runs_bind hruns
  obtain ⟨rfl, x, y, mark, rfl, hv₁⟩ := runs_pair h₁
  rw [hsight] at hv₁
  have hflat : (Bus.array [.single x, .single y] [2] mark).flat = [x, y] := by
    simp [Bus.flat, Bus.flatItems]
  have hdeg : ((Expr.ofSignal y).sub (.ofSignal x)).degree = 1 := by
    rw [Expr.degree_sub]; rfl
  obtain ⟨out, inv, hds, hfield, hexact⟩ := declared_exact h hp hex k₁ hv₁ hdecl hrows hdeg
    fun hin => by
      rw [hflat] at hin
      have hx := hin x List.mem_cons_self
      have hy := hin y (List.mem_cons_of_mem _ List.mem_cons_self)
      exact (Expr.Proper.ofSignal hy.1 hy.2).sub (.ofSignal hx.1 hx.2)
  rw [hflat] at hfield
  have hx := hfield x List.mem_cons_self
  have hy := hfield y (List.mem_cons_of_mem _ List.mem_cons_self)
  have hvalue (w : Array Int) : ((Expr.ofSignal y).sub (.ofSignal x)).value (c.element w) =
      c.element w y - c.element w x := by
    rw [Expr.value_sub_ofSignal (Circuit.byUid_element c w) hy hx, Expr.value_ofSignal]
  exact ⟨x, y, mark, out, inv, hds, by simpa only [hvalue] using hexact⟩

/-- **Indicators are exact wherever they are placed.**  The tree of a circuit
    consists of components of its compilation, and each of them that runs `isZero` or
    `isEqual` has two rows, which say that `out` tells whether the input is zero or
    the inputs are equal. -/
theorem indicators_exact (h : (compile settings t host public_).result = .ok c)
    (hp : c.field.p.Prime) :
    (∀ depth, ∀ id ∈ Circuit.walkFrom c.instances depth c.main,
      ∃ body, (id, body) ∈ components settings t host) ∧
    (∀ id, (id, isZero.run) ∈ components settings t host →
      ∃ x out inv, (c.instanceAt id).declarations = [⟨"in", .input, .single x⟩,
          ⟨"out", .output, .single out⟩, ⟨"inv", .intermediate, .single inv⟩] ∧
        Exact c id (fun w => c.element w x) out inv) ∧
    (∀ id, (id, isEqual.run) ∈ components settings t host →
      ∃ x y mark out inv, (c.instanceAt id).declarations =
          [⟨"in", .input, .array [.single x, .single y] [2] mark⟩,
            ⟨"out", .output, .single out⟩, ⟨"inv", .intermediate, .single inv⟩] ∧
        Exact c id (fun w => c.element w y - c.element w x) out inv) := by
  refine ⟨fun depth => walk_components h depth _ ⟨_, main_component h⟩, ?_, ?_⟩
  · exact fun id => isZero_exact h hp
  · exact fun id => isEqual_exact h hp

end

/-- Whether two inputs differ: whether it is false that they are the same. -/
def differ : Build Unit Unit := do
  let xs ← signals .input "in" (.int 2)
  let out ← signal .output "out"
  let same ← component "same" isEqualTemplate
  assignAll (← terminalSignals same "in") (xs.map .ofSignal)
  let negated ← component "negated" isZeroTemplate
  assign (← terminalSignal negated "in") (.ofSignal (← terminalSignal same "out"))
  assign out (.ofSignal (← terminalSignal negated "out"))

/-- The template of this question. -/
def differTemplate : Template Unit := ⟨.of "Differ" [], differ⟩

theorem components_differ : components { prime := .int 7 } differTemplate () =
    [(0, differ.run), (1, isEqual.run), (2, isZero.run)] := by cbv

/-- The values for three and five: they are not the same, and four is the inverse of
    two; the last value, advice for an input that is zero, is free. -/
def differValues : Array Int := #[1, 1, 3, 5, 3, 5, 0, 4, 0, 1, 6]

/-- Three and five differ modulo seven, and both children of the circuit tell what
    they are asked. -/
theorem differ_tells :
    ∃ c, (compile { prime := .int 7 } differTemplate () []).result = .ok c ∧
      (∃ x y mark out inv, (c.instanceAt 1).declarations =
          [⟨"in", .input, .array [.single x, .single y] [2] mark⟩,
            ⟨"out", .output, .single out⟩, ⟨"inv", .intermediate, .single inv⟩] ∧
        Tells (c.element differValues y - c.element differValues x)
          (c.element differValues out) (c.element differValues inv)) ∧
      ∃ x out inv, (c.instanceAt 2).declarations = [⟨"in", .input, .single x⟩,
          ⟨"out", .output, .single out⟩, ⟨"inv", .intermediate, .single inv⟩] ∧
        Tells (c.element differValues x) (c.element differValues out)
          (c.element differValues inv) := by
  obtain ⟨c, hc, hp, hfits, hsat⟩ := exists_ok
    (x := (compile { prime := .int 7 } differTemplate () []).result)
    (P := fun c => c.field.p = 7 ∧ c.Fits differValues ∧
      ∀ r ∈ c.system.constraints, r.isSatisfied differValues c.system.prime = .ok true)
    (by decide +kernel)
  obtain ⟨-, hzero, hequal⟩ := indicators_exact hc (by rw [hp]; decide)
  obtain ⟨x, y, mark, out, inv, hsame, same⟩ := hequal 1 (by simp [components_differ])
  obtain ⟨x', out', inv', hnegated, negated⟩ := hzero 2 (by simp [components_differ])
  exact ⟨c, hc, ⟨x, y, mark, out, inv, hsame, same.sound _ hfits hsat⟩,
    ⟨x', out', inv', hnegated, negated.sound _ hfits hsat⟩⟩

end RankOne.Gadget
