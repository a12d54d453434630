/-
  RankOne — binary digits as circuits.

  The rows say that the outputs are zeros and ones, and that they stand for the input as
  elements of the field.  With `2 ^ n ≤ p` there is one number of `n` digits for each element,
  and the outputs are its digits.  Beyond that, `x` and `x + p` may both have `n` digits, and
  the rows tell them apart no more.

  * `binary`: the lowest digits of a number;
  * `succeeds_numToBits`: the component, with what its advice gives;
  * `Circuit.Unpacks`, `numToBits_digits`: the circuit;
  * `numToBits_wraps`: a vector with the digits of another number.
-/
import RankOne.Proofs.Gadget.Compare
import RankOne.Proofs.Gadget.Parents
import RankOne.Proofs.Witness.Supply

namespace RankOne

/-- The lowest `n` binary digits of a number, the least first. -/
def binary (n m : ℕ) : List ℕ := (List.range n).map fun i => (m.testBit i).toNat

namespace Gadget

open Build

variable {σ : Type} {f : PrimeField} {sc : Scene}

theorem digitsAt_eq {p : ℕ} (m : ℕ) : ∀ k i : ℕ,
    (digitsAt m i k : List (ZMod p)) = Circuit.elements p
      ((List.range' i k).map fun j => (m.testBit j).toNat)
  | 0, _ => rfl
  | k + 1, i => by
    rw [digitsAt, digitsAt_eq m k (i + 1), List.range'_succ, List.map_cons, Circuit.elements,
      Circuit.elements, List.map_cons]
    cases m.testBit i <;> simp

theorem elements_binary (p n m : ℕ) : Circuit.elements p (binary n m) = digitsAt m 0 n := by
  rw [digitsAt_eq, binary, List.range_eq_range']

/-- **The component of the digits of its input.** -/
theorem succeeds_numToBits (hp : f.p.Prime) (hf : sc.field = f) (hblank : sc.Blank) (n : ℕ) :
    (numToBits (.int n) : Build σ Unit).Succeeds sc fun _ sts sc' => ∃ x bits mark,
      bits.length = n ∧ sc.Provides f [⟨"in", .input, .single x⟩] [⟨"out", .output, .row bits mark⟩]
        (fun v => (v x).val < 2 ^ n)
        (fun v => (∀ b ∈ bits, v b = 0 ∨ v b = 1) ∧ weigh (bits.map v) = v x) sts sc' ∧
      ∀ v : Signal → ZMod f.p, ByUid v → (∀ st ∈ sts, st.Computes v) →
        bits.map v = digitsAt (v x).val 0 n := by
  refine (yields_signal (by simp [hblank.names])).skip fun _ hfit₁ => ?_
  set x := sc.single .input "in"
  set sc₁ := sc.declare ⟨"in", .input, .single x⟩ with hsc₁
  refine succeeds_row n (by simp [hsc₁, hblank.names]) fun bits hlen hbus _ => ?_
  set sc₂ := sc₁.declare ⟨"out", .output, .row bits sc₁.mark⟩ with hsc₂
  have hinterface : sc.Interface [⟨"in", .input, .single x⟩]
      [⟨"out", .output, .row bits sc₁.mark⟩] :=
    ((Scene.Interface.nil sc).input (sc.new_single .input "in") "in").output hbus "out"
  have hvalue : (Expr.ofSignal x).Line f {x} fun v => v x := .ofSignal rfl hf
  have hmine : ∀ s ∈ ({x} : Set Signal), s ∈ sc₂.signals ∧ s.uid ∈ Signal.numbers [x] := by
    rintro s rfl
    exact ⟨by simp [hsc₁, hsc₂], Signal.mem_numbers (by simp)⟩
  refine (succeeds_decompose hp (show sc₂.field = f from hf) hvalue rfl hmine
    (hbus.isOpen_row hfit₁ (Or.inl rfl)) hbus.consecutive.nodup).mono ?_
  rintro _ sts sc' hgrows - ⟨hsc', hstep, hadvice⟩
  rw [hlen] at hstep hadvice
  refine ⟨x, bits, sc₁.mark, hlen, hinterface.provides hblank hgrows hstep (by simp) ?_ (by simp),
    hadvice⟩
  have hnumbers := hbus.consecutive.numbers
  rw [hlen] at hnumbers
  rw [hnumbers]
  ext u
  simp [hsc', hsc₁, hsc₂, hlen]
  omega

end Gadget

open Gadget

/-! ## Circuits -/

namespace Circuit

variable {c : Circuit} {f : PrimeField}

/-- **A circuit unpacks its input into `n` digits.**  Satisfied rows allow nothing but the
    digits of a number of `n` digits that is the input modulo `p`.  Evaluation gives those of the
    input itself, and stops at a row if there are more of them. -/
structure Unpacks (c : Circuit) (p n : ℕ) : Prop where
  sound : ∀ x < p, c.Allows [("in", .single x)] fun ys =>
    ∃ m < 2 ^ n, m % p = x ∧ ys = [("out", binary n m)]
  evaluates : ∀ x < p, c.Evaluates [("in", .single x)]
    (if x < 2 ^ n then some [("out", binary n x)] else none)

/-- If all numbers of `n` digits are different elements, then there is one answer. -/
theorem Unpacks.settles {p n : ℕ} (h : c.Unpacks p n) (hn : 2 ^ n ≤ p) {x : ℕ} (hx : x < p) :
    c.Settles [("in", .single x)] (if x < 2 ^ n then some [("out", binary n x)] else none) where
  toEvaluates := h.evaluates x hx
  sound := by
    intro w hw hin hrows
    obtain ⟨ys, ⟨m, hm, hmod, rfl⟩, hys⟩ := h.sound x hx w hw hin hrows
    rw [Nat.mod_eq_of_lt (hm.trans_le hn)] at hmod
    subst hmod
    exact ⟨_, by rw [if_pos hm]; rfl, hys⟩

theorem Realizes.unpacks {ds : List Declaration} {sts : List Statement} {x : Signal}
    {bits : List Signal} {mark : Mark} {n : ℕ} (hlen : bits.length = n)
    (h : c.Realizes f [⟨"in", .input, .single x⟩] [⟨"out", .output, .row bits mark⟩]
      (fun v => (v x).val < 2 ^ n)
      fun v => (∀ b ∈ bits, v b = 0 ∨ v b = 1) ∧ weigh (bits.map v) = v x)
    (hmade : c.Made f ds sts) (hadvice : ∀ v : Signal → ZMod f.p, ByUid v →
      (∀ st ∈ sts, st.Computes v) → bits.map v = digitsAt (v x).val 0 n) :
    c.Unpacks f.p n := by
  have htakes (k : ℕ) : List.Forall₂ Declaration.Takes [⟨"in", .input, .single x⟩]
      [("in", .single k)] := .cons ⟨rfl, .single k⟩ .nil
  have hin {k : ℕ} {v : Signal → ZMod f.p}
      (hv : Given v [⟨"in", .input, .single x⟩] [("in", .single k)]) : v x = k := by
    simpa [Given, elements, Supply.numbers] using hv
  have htold {m : ℕ} {v : Signal → ZMod f.p} (hv : bits.map v = digitsAt m 0 n) :
      Tells v [⟨"out", .output, .row bits mark⟩] [("out", binary n m)] :=
    .cons ⟨rfl, by rw [elements_binary, Bus.flat_row, hv]⟩ .nil
  refine ⟨fun k hk => h.allows (htakes k) (fun d hd => h.mem_of_output hd) fun v hv hp => ?_,
    fun k hk => h.evaluates (htakes k) (fun d hd => h.mem_of_output hd)
      (by simpa using (by decide : PlainName "in")) (by simpa [Supply.numbers] using hk) hmade
      (fun v _ _ hv hsome => ?_) fun v hv hc hgiven hp => ?_⟩
  · have hbits : ∀ b ∈ bits.map v, b = 0 ∨ b = 1 := by simpa using hp.1
    obtain ⟨m, hm, hdigits⟩ := exists_digitsAt hbits
    rw [List.length_map, hlen] at hm hdigits
    have hcast : (m : ZMod f.p) = k := by rw [← weigh_digits hm, ← hdigits, hp.2, hin hv]
    rw [ZMod.natCast_eq_natCast_iff', Nat.mod_eq_of_lt hk] at hcast
    exact ⟨_, ⟨m, hm, hcast, rfl⟩, htold hdigits⟩
  · rw [hin hv, ZMod.val_natCast_of_lt hk]
    by_contra hlarge
    rw [if_neg hlarge] at hsome
    cases hsome
  · have hdigits := hadvice v hv hc
    rw [hin hgiven, ZMod.val_natCast_of_lt hk] at hdigits
    have hcast := hp.2
    rw [hdigits, weigh_digitsAt, hin hgiven, Nat.shiftRight_zero, ZMod.natCast_eq_natCast_iff',
      Nat.mod_eq_of_lt ((Nat.mod_le _ _).trans_lt hk), Nat.mod_eq_of_lt hk] at hcast
    have hlt : k < 2 ^ n := hcast ▸ Nat.mod_lt k (Nat.two_pow_pos n)
    exact ⟨_, by rw [if_pos hlt]; rfl, htold hdigits⟩

end Circuit

/-- The template of binary digits. -/
def numToBitsTemplate {σ : Type} (n : Value) : Template σ := ⟨.of "Num2Bits" [n], numToBits n⟩

/-- **Binary digits are those of a number that the field takes for the input.**  Every number
    of digits compiles, and its circuit unpacks.  If `2 ^ n ≤ p`, the input settles the
    digits. -/
theorem numToBits_digits {σ : Type} {p : ℕ} (hp : p.Prime) {settings : Settings}
    (hs : settings.prime = .int p) (n : ℕ) (host : σ) (public_ : List String) :
    (public_.Nodup → public_ ⊆ ["in"] →
      ∃ c, (compile settings (numToBitsTemplate (.int n)) host public_).result = .ok c) ∧
    ∀ c, (compile settings (numToBitsTemplate (.int n)) host public_).result = .ok c →
      c.Unpacks p n ∧ (2 ^ n ≤ p → ∀ x < p, c.Settles [("in", .single x)]
        (if x < 2 ^ n then some [("out", binary n x)] else none)) := by
  let f : PrimeField := ⟨p, hp.two_le⟩
  have hf : settings.field = .ok f := Settings.field_of_prime hp hs
  refine compile_realizes (f := f) hf (fun W _ _ id => ?_) ?_ host public_
  · exact (keeps_numToBits (.int n) id).mono fun _ _ h => ⟨trivial, h.2⟩
  · refine (succeeds_numToBits (f := f) hp rfl (Scene.blank_main f .warn) n).mono ?_
    rintro _ sts sc' - - ⟨x, bits, mark, hlen, hprov, hadvice⟩
    refine ⟨_, _, _, _, hprov, rfl, fun c hc hmade => ?_⟩
    have hunpacks := hc.unpacks hlen hmade hadvice
    exact ⟨hunpacks, fun hn x hx => hunpacks.settles hn hx⟩

/-- Below 97, six digits are settled: 37 has them, and 64 has one more. -/
theorem numToBits_digits_six :
    Nat.Prime 97 ∧ 2 ^ 6 ≤ 97 ∧
    ∃ c, (compile { prime := .int 97 } (numToBitsTemplate (.int 6)) () []).result = .ok c ∧
      c.Settles [("in", .single 37)] (some [("out", [1, 0, 1, 0, 0, 1])]) ∧
      c.Settles [("in", .single 64)] none := by
  have hp : Nat.Prime 97 := by norm_num
  have hs : ({ prime := .int 97 } : Settings).prime = .int (97 : ℕ) := rfl
  obtain ⟨hok, hall⟩ := numToBits_digits hp hs 6 () []
  obtain ⟨c, hc⟩ := hok (by simp) (by simp)
  have hsettles := (hall c hc).2 (by decide)
  exact ⟨hp, by decide, c, hc, hsettles 37 (by decide), hsettles 64 (by decide)⟩

/-- **More digits wrap around the field**: below 7, a vector with the input 0 and the digits
    of 7 satisfies the rows of three digits. -/
theorem numToBits_wraps :
    ∃ c, (compile { prime := .int 7 } (numToBitsTemplate (.int 3)) () []).result = .ok c ∧
      c.Fits #[1, 1, 1, 1, 0] ∧ c.system.unsatisfiedRows #[1, 1, 1, 1, 0] = .ok [] ∧
      c.Carries #[1, 1, 1, 1, 0] "in" [0] ∧ c.Carries #[1, 1, 1, 1, 0] "out" (binary 3 7) ∧
      ¬ c.Carries #[1, 1, 1, 1, 0] "out" (binary 3 0) :=
  exists_ok (by decide +kernel)

end RankOne
