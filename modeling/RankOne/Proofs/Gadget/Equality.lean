/-
  RankOne — indicators succeed, and tell.

  * `succeeds_indicate`: an indicator can be built for every linear form, its hint makes
    its rows hold, and they say that `out` tells whether the form is zero;
  * `succeeds_isZero`, `succeeds_isEqual`: so it is with the two components;
  * `succeeds_filledEqual`, `succeeds_placedEqual`, `succeeds_placedZero`: the components as
    children.
-/
import RankOne.Proofs.Build.Child
import RankOne.Proofs.Gadget.Indicator

namespace RankOne.Gadget

open Build

variable {σ : Type} {f : PrimeField} {sc : Scene}

/-- One if the condition holds, else zero. -/
def flag {p : ℕ} (c : Prop) [Decidable c] : ZMod p := if c then 1 else 0

theorem flag_congr {p : ℕ} {c c' : Prop} [Decidable c] [Decidable c'] (h : c ↔ c') :
    (flag c : ZMod p) = flag c' := if_congr h rfl rfl

theorem inverseOrZero_answers (f : PrimeField) (n : ℕ) :
    ∃ m, Hint.inverseOrZero.run f [n] = .ok (.value m) := ⟨_, rfl⟩

/-- The advice for an inverse makes the equations of an indicator hold. -/
theorem tells_of_advice (hp : f.p.Prime) {d inv : ZMod f.p} {m : Int}
    (hm : Hint.inverseOrZero.run f [d.val] = .ok (.value m)) (hinv : inv = m) :
    (1 - d * inv) * d = 0 := by
  have := Fact.mk hp
  cases hm
  by_cases hd : d = 0
  · rw [hd, mul_zero]
  · have hval : d.val ≠ 0 := fun h => hd ((ZMod.val_eq_zero d).1 h)
    have hcast : ((d.val : Int) : ZMod f.p) = d := by simp
    have hmul := f.cast_inverse_mul hp (a := d.val) (by rwa [hcast])
    rw [hcast] at hmul
    rw [hinv, if_neg hval, Int.cast_natCast, mul_comm d, hmul, sub_self, zero_mul]

/-- **An indicator of a linear form.** -/
theorem succeeds_indicate (hp : f.p.Prime) (hf : sc.field = f) {T : Set Signal} {I : Set ℤ}
    {x : Expr} {d : (Signal → ZMod f.p) → ZMod f.p} {out inv : Signal} (hx : x.Line f T d)
    (hdeg : x.degree = 1) (hT : ∀ s ∈ T, s ∈ sc.signals ∧ s.uid ∈ I) (hout : sc.Open out)
    (hinv : sc.Open inv) (hne : out.uid ≠ inv.uid) :
    (indicate x out inv : Build σ Unit).Succeeds sc fun _ sts sc' =>
      sc' = (sc.assign inv).assign out ∧ sc.Step f sts sc' I {inv.uid, out.uid} ∅ ∅
        (fun _ => True) fun v => v out = flag (d v = 0) := by
  refine .fit fun hfit => ?_
  have hsub : T ∪ {inv} ⊆ {s | s ∈ sc.signals} := by
    rintro s (hs | rfl)
    · exact (hT s hs).1
    · exact hinv.mem
  have hTall : ∀ s ∈ T ∪ {inv}, s.uid ∈ I ∪ {inv.uid} := by
    rintro s (hs | rfl)
    · exact Or.inl (hT s hs).2
    · exact Or.inr rfl
  have hfi : inv.field = f := (hfit.field inv hinv.mem).trans hf
  have hfo : out.field = f := (hfit.field out hout.mem).trans hf
  have hxall : x.Line f {s | s ∈ sc.signals} d := hx.mono fun s hs => (hT s hs).1
  have heffInv := sc.effect_hint hx.toForm (fun s hs => (hT s hs).2) sc.path inv .inverseOrZero
  obtain ⟨product, hproduct, hpform, -⟩ := (hx.mono Set.subset_union_left).mul
    (Expr.Line.ofSignal (T := T ∪ {inv}) (Or.inr rfl) hfi)
  have hone := (Expr.Line.ofInt (T := T ∪ {inv}) 1).sub_form hpform
  obtain ⟨gate, hgate, hgform, hgdeg⟩ := (Expr.Line.ofSignal hout.mem hfo).mul hxall
  have hzero : (Expr.ofInt f 0).Line f {s | s ∈ sc.signals} _ := .ofInt 0
  refine (yields_hint hf hinv hxall.toForm (inverseOrZero_answers f)).next fun hgrows hfit' => ?_
  have hout' := hout.later hgrows heffInv hne
  have heffOut := (sc.assign inv).effect_assign hone hTall sc.path out
  refine (yields_times hproduct).skip fun _ _ => (yields_const 1).skip fun _ _ => ?_
  rw [show (sc.assign inv).field = f from hf]
  refine (yields_assign (show (sc.assign inv).field = f from hf) hout' (hone.mono hsub)).next
    fun hgrows' _ => ?_
  refine (yields_times hgate).skip fun _ _ => (yields_const 0).skip fun _ _ => ?_
  rw [show ((sc.assign inv).assign out).field = f from hf]
  refine (yields_constrain (show ((sc.assign inv).assign out).field = f from hf) hgform hzero
    (by rw [hgdeg rfl hdeg, Expr.degree_ofInt]; decide)).succeeds
    fun _ _ => ⟨rfl, ?_, Set.subset_union_left, rfl, ?_⟩
  · refine ((heffInv.trans heffOut subset_rfl).trans
      (Scene.effect_constrain (I := ∅) _ sc.path gate (.ofInt f 0))
      (Set.empty_subset _)).mono subset_rfl ?_ (by simp)
    rw [Set.union_empty]
    rfl
  · constructor
    · intro v hv hs
      simp only [List.nil_append, List.cons_append, List.forall_mem_cons,
        Statement.Sat, hone.value v hv, hgform.value v hv, hzero.value v hv] at hs
      obtain ⟨-, hdef, hgate, -⟩ := hs
      have htells := (tells_iff hp).1 ⟨by simpa using hdef, by simpa using hgate⟩
      rw [flag]
      split_ifs with h
      · exact htells.1 h
      · exact (htells.2 h).1
    · intro v hv hc _
      simp only [List.nil_append, List.cons_append, List.forall_mem_cons,
        Statement.Sat, Statement.Computes, hone.value v hv, hgform.value v hv,
        hzero.value v hv, List.map_cons, List.map_nil, hx.value v hv] at hc ⊢
      obtain ⟨⟨m, hm, hinv⟩, hdef, -⟩ := hc
      have hgate := tells_of_advice hp hm hinv
      refine ⟨trivial, hdef, ?_, by simp⟩
      rw [← hdef]
      simpa using hgate

/-- A component that declares its inputs and then indicates a linear form of them. -/
theorem succeeds_indicator (hp : f.p.Prime) (hf : sc.field = f) (hblank : sc.Blank) {bus : Bus}
    (hbus : sc.New .input bus) {x : Expr} {d : (Signal → ZMod f.p) → ZMod f.p}
    (hx : x.Line f {s | s ∈ bus.flat} d) (hdeg : x.degree = 1)
    (hfit : (sc.declare ⟨"in", .input, bus⟩).Fit) :
    (do let out ← signal .output "out"
        let inv ← signal .intermediate "inv"
        indicate x out inv : Build σ Unit).Succeeds (sc.declare ⟨"in", .input, bus⟩)
      fun _ sts sc' => ∃ out, sc.Provides f [⟨"in", .input, bus⟩] [⟨"out", .output, .single out⟩]
        (fun _ => True) (fun v => v out = flag (d v = 0)) sts sc' ∧ sc'.children = ∅ := by
  set sc₁ := sc.declare ⟨"in", .input, bus⟩ with hsc₁
  refine (yields_signal (by simp [hsc₁, hblank.names])).skip fun hgrows₂ hfit₂ => ?_
  set out := sc₁.single .output "out"
  set sc₂ := sc₁.declare ⟨"out", .output, .single out⟩ with hsc₂
  refine (yields_signal (by simp [hsc₁, hsc₂, hblank.names])).skip fun hgrows₃ hfit₃ => ?_
  set inv := sc₂.single .intermediate "inv"
  set sc₃ := sc₂.declare ⟨"inv", .intermediate, .single inv⟩ with hsc₃
  have hinterface : sc.Interface [⟨"in", .input, bus⟩] [⟨"out", .output, .single out⟩] :=
    ((Scene.Interface.nil sc).input hbus "in").output (sc₁.new_single .output "out") "out"
  have hmade : ∀ s ∈ bus.flat, s ∈ sc₃.signals := fun s hs => by simp [hsc₁, hsc₂, hsc₃, hs]
  have hout : sc₃.Open out :=
    ((sc₁.new_single .output "out").isOpen_single hfit (Or.inl rfl)).declare _
  have hinv : sc₃.Open inv :=
    (sc₂.new_single .intermediate "inv").isOpen_single hfit₂ (Or.inr rfl)
  refine (succeeds_indicate hp (by simpa [hsc₁, hsc₂, hsc₃] using hf) hx hdeg
    (fun s hs => ⟨hmade s hs, Signal.mem_numbers hs⟩) hout hinv (by simp [out, inv, hsc₂])).mono ?_
  rintro _ sts sc' hgrows - ⟨hsc', hstep⟩
  refine ⟨out, hinterface.provides hblank (hgrows₃.trans hgrows)
    (hstep.declared rfl) (by simp) ?_ (by simp), ?_⟩
  · ext u
    simp [hsc', hsc₁, hsc₂, hsc₃, out, inv]
    omega
  · simp [hsc', hsc₁, hsc₂, hsc₃, hblank.children]

/-- **The component that tells whether its inputs are equal.** -/
theorem succeeds_isEqual (hp : f.p.Prime) (hf : sc.field = f) (hblank : sc.Blank) :
    (isEqual : Build σ Unit).Succeeds sc fun _ sts sc' => ∃ x y out mark,
      sc.Provides f [⟨"in", .input, .row [x, y] mark⟩] [⟨"out", .output, .single out⟩]
        (fun _ => True) (fun v => v out = flag (v x = v y)) sts sc' ∧ sc'.children = ∅ := by
  refine succeeds_row 2 (by simp [hblank.names]) fun pair hpair hbus hfit => ?_
  obtain ⟨x, y, rfl⟩ := List.length_eq_two.1 hpair
  have hline {s : Signal} (hs : s ∈ [x, y]) :
      (Expr.ofSignal s).Line f {s | s ∈ (Bus.row [x, y] sc.mark).flat} fun v => v s := by
    rw [← Bus.flat_row [x, y] sc.mark] at hs
    exact .ofSignal hs ((hbus.own s hs).2.2.1.trans hf)
  refine (succeeds_indicator hp hf hblank hbus ((hline (s := y) (by simp)).sub
    (hline (s := x) (by simp))) (by rw [Expr.degree_sub]; rfl) hfit).mono ?_
  rintro _ sts sc' - - ⟨out, hprov, hchildren⟩
  refine ⟨x, y, out, sc.mark, { hprov with means := ?_ }, hchildren⟩
  refine hprov.means.mono (fun _ h => h) fun v hv => ?_
  rw [hv]
  exact flag_congr (sub_eq_zero.trans eq_comm)

/-- **The component that tells whether its input is zero.** -/
theorem succeeds_isZero (hp : f.p.Prime) (hf : sc.field = f) (hblank : sc.Blank) :
    (isZero : Build σ Unit).Succeeds sc fun _ sts sc' => ∃ x out,
      sc.Provides f [⟨"in", .input, .single x⟩] [⟨"out", .output, .single out⟩]
        (fun _ => True) (fun v => v out = flag (v x = 0)) sts sc' ∧ sc'.children = ∅ := by
  refine (yields_signal (by simp [hblank.names])).skip fun _ hfit => ?_
  refine (succeeds_indicator hp hf hblank (sc.new_single .input "in")
    (.ofSignal (List.mem_singleton_self _) hf) rfl hfit).mono ?_
  rintro _ sts sc' - - ⟨out, hprov, hchildren⟩
  exact ⟨_, out, hprov, hchildren⟩

/-! ## Indicators as children -/

/-- An indicator of equality in a place of an array. -/
theorem succeeds_filledEqual (hp : f.p.Prime) (hf : sc.field = f) {a : SlotArray} {n i : ℕ}
    (h : sc.Vacant a n i) (hi : i < n) :
    (fill a i isEqualTemplate : Build σ Component).Succeeds sc fun c sts sc₁ => ∃ x y out mark,
      sc.Placed f [⟨"in", .input, .row [x, y] mark⟩] [⟨"out", .output, .single out⟩]
        (fun _ => True) (fun v => v out = flag (v x = v y)) {(a.id, [i])} ∅ c sts sc₁ := by
  refine succeeds_filled (f := f) h hi fun id name => ?_
  refine (succeeds_isEqual hp (by simpa using hf) (sc.blank_enter id name)).mono ?_
  rintro _ sts sc' - - ⟨x, y, out, mark, hprov, hchildren⟩
  exact ⟨_, _, _, _, hprov, Or.inr hchildren, fun c sc₁ h => ⟨x, y, out, mark, h⟩⟩

/-- A named indicator of equality. -/
theorem succeeds_placedEqual (hp : f.p.Prime) (hf : sc.field = f) {name : String}
    (hname : name ∉ sc.names) :
    (component name isEqualTemplate : Build σ Component).Succeeds sc
      fun c sts sc₁ => ∃ x y out mark,
        sc.Placed f [⟨"in", .input, .row [x, y] mark⟩] [⟨"out", .output, .single out⟩]
          (fun _ => True) (fun v => v out = flag (v x = v y)) ∅ {name} c sts sc₁ := by
  refine succeeds_placed (f := f) hname fun id => ?_
  refine (succeeds_isEqual hp (by simpa using hf) (sc.blank_enter id name)).mono ?_
  rintro _ sts sc' - - ⟨x, y, out, mark, hprov, hchildren⟩
  exact ⟨_, _, _, _, hprov, Or.inr hchildren, fun c sc₁ h => ⟨x, y, out, mark, h⟩⟩

/-- A named indicator of zero. -/
theorem succeeds_placedZero (hp : f.p.Prime) (hf : sc.field = f) {name : String}
    (hname : name ∉ sc.names) :
    (component name isZeroTemplate : Build σ Component).Succeeds sc fun c sts sc₁ => ∃ x out,
      sc.Placed f [⟨"in", .input, .single x⟩] [⟨"out", .output, .single out⟩] (fun _ => True)
        (fun v => v out = flag (v x = 0)) ∅ {name} c sts sc₁ := by
  refine succeeds_placed (f := f) hname fun id => ?_
  refine (succeeds_isZero hp (by simpa using hf) (sc.blank_enter id name)).mono ?_
  rintro _ sts sc' - - ⟨x, out, hprov, hchildren⟩
  exact ⟨_, _, _, _, hprov, Or.inr hchildren, fun c sc₁ h => ⟨x, out, h⟩⟩

end RankOne.Gadget
