/-
  RankOne — the three comparisons as circuits.

  A comparison of width `n` compiles exactly when the digits of `n` and one more fit into
  the field.  Its circuit then tells the order of every two numbers of `n` digits: whoever
  fills in the vector, the rows leave no choice for `out`, and evaluation finds it.

  * `Comparison`: the comparisons, with their programs and what they tell;
  * `Comparison.succeeds_build`, `fails_build`: widths that are built, and that are refused;
  * `Circuit.Compares`: the circuit of a comparison;
  * `comparisons_exact`: widths, circuits and refusals in one statement.
-/
import RankOne.Proofs.Gadget.Compare
import RankOne.Proofs.Gadget.Parents
import RankOne.Proofs.Witness.Supply

namespace RankOne

open Gadget

/-- The comparisons of the library. -/
inductive Comparison where
  | less | lessEq | greater
deriving DecidableEq

namespace Comparison

variable {σ : Type} {f : PrimeField} {sc : Scene}

/-- What a comparison tells. -/
def holds : Comparison → ℕ → ℕ → Bool
  | less, a, b => a < b
  | lessEq, a, b => a ≤ b
  | greater, a, b => b < a

/-- The program of a comparison. -/
def build : Comparison → Value → Build σ Unit
  | less => lessThan
  | lessEq => lessEqThan
  | greater => greaterThan

/-- The template of a comparison. -/
def template (k : Comparison) (n : Value) : Template σ :=
  match k with
  | less => ⟨.of "LessThan" [n], k.build n⟩
  | lessEq => ⟨.of "LessEqThan" [n], k.build n⟩
  | greater => ⟨.of "GreaterThan" [n], k.build n⟩

theorem body_template (k : Comparison) (n : Value) :
    (k.template n : Template σ).body = k.build n := by
  cases k <;> rfl

/-! ## Building -/

/-- What a comparison provides: on two numbers of `n` digits its statements can be
    satisfied, and then tell how they compare. -/
structure Offers (k : Comparison) (n : ℕ) (x y out : Signal)
    (Pre Post : (Signal → ZMod f.p) → Prop) : Prop where
  pre : ∀ (v : Signal → ZMod f.p) (a b : ℕ), a < 2 ^ n → b < 2 ^ n → v x = a → v y = b → Pre v
  post : ∀ (v : Signal → ZMod f.p) (a b : ℕ), a < 2 ^ n → b < 2 ^ n → v x = a → v y = b →
    Post v → v out = flag (k.holds a b)

/-- A comparison of numbers computed from the inputs. -/
theorem offers_of_fitting {k : Comparison} {n : ℕ} {x y out : Signal}
    (l r : ZMod f.p → ZMod f.p → ZMod f.p) (g : ℕ → ℕ → ℕ × ℕ)
    (hg : ∀ a b : ℕ, a < 2 ^ n → b < 2 ^ n → Fitting n (l a b) (r a b) (g a b).1 (g a b).2 ∧
      ((g a b).1 < (g a b).2 ↔ k.holds a b)) :
    k.Offers (f := f) n x y out (fun v => ∃ a b, Fitting n (l (v x) (v y)) (r (v x) (v y)) a b)
      fun v => ∀ a b, Fitting n (l (v x) (v y)) (r (v x) (v y)) a b → v out = flag (a < b) where
  pre := by
    intro v a b ha hb hx hy
    rw [hx, hy]
    exact ⟨_, _, (hg a b ha hb).1⟩
  post := by
    intro v a b ha hb hx hy h
    rw [hx, hy] at h
    rw [h _ _ (hg a b ha hb).1]
    exact flag_congr (hg a b ha hb).2

/-- **A comparison of a width that fits the field.** -/
theorem succeeds_build (hp : f.p.Prime) (hf : sc.field = f) (hblank : sc.Blank) {n : ℕ}
    (hn : Width f n) (k : Comparison) :
    (k.build (.int n) : Build σ Unit).Succeeds sc fun _ sts sc' => ∃ x y out mark Pre Post,
      sc.Provides f [⟨"in", .input, .row [x, y] mark⟩] [⟨"out", .output, .single out⟩] Pre Post
        sts sc' ∧ k.Offers n x y out Pre Post := by
  cases k with
  | less =>
    refine (succeeds_lessThan hp hf hblank hn).mono ?_
    rintro _ sts sc' - - ⟨x, y, out, mark, hprov, -⟩
    refine ⟨x, y, out, mark, _, _, hprov, offers_of_fitting (fun x _ => x) (fun _ y => y)
      (fun a b => (a, b)) fun a b ha hb => ?_⟩
    exact ⟨⟨ha, hb.le, rfl, rfl⟩, by simp [holds]⟩
  | lessEq =>
    refine (succeeds_byLessThan hp hf hblank hn (sides_lessEqThan f)).mono ?_
    rintro _ sts sc' - - ⟨x, y, out, mark, hprov⟩
    refine ⟨x, y, out, mark, _, _, hprov, offers_of_fitting (fun x _ => x) (fun _ y => y + 1)
      (fun a b => (a, b + 1)) fun a b ha hb => ?_⟩
    exact ⟨⟨ha, hb, rfl, by simp⟩, by simp [holds]⟩
  | greater =>
    refine (succeeds_byLessThan hp hf hblank hn (sides_greaterThan f)).mono ?_
    rintro _ sts sc' - - ⟨x, y, out, mark, hprov⟩
    refine ⟨x, y, out, mark, _, _, hprov, offers_of_fitting (fun _ y => y) (fun x _ => x)
      (fun a b => (b, a)) fun a b ha hb => ?_⟩
    exact ⟨⟨hb, ha.le, rfl, rfl⟩, by simp [holds]⟩

/-- **Other widths are refused.** -/
theorem fails_build {n : Int} (h : ¬ Width sc.field n) (hblank : sc.Blank) (k : Comparison) :
    (k.build (.int n) : Build σ Unit).Fails sc (Refused n) := by
  cases k with
  | less => exact fails_lessThan h
  | lessEq => exact fails_byLessThan h hblank _
  | greater => exact fails_byLessThan h hblank _

theorem keeps_build {W : Workspace} (hW : W.Sound) (ha : W.Apart) (k : Comparison) (n : Value) :
    Build.Keeps W (k.build n : Build σ Unit) fun _ => True := by
  cases k with
  | less => exact fun id => (keeps_lessThan n id).mono fun _ _ h => ⟨trivial, h.2⟩
  | lessEq => exact keeps_byLessThan hW ha n _
  | greater => exact keeps_byLessThan hW ha n _

end Comparison

/-! ## Circuits -/

namespace Circuit

variable {c : Circuit} {f : PrimeField}

/-- **A circuit compares numbers of `n` digits**: the outcome tells how they compare. -/
def Compares (c : Circuit) (k : Comparison) (n : ℕ) : Prop :=
  ∀ (a b : ℕ) (mark : Mark), a < 2 ^ n → b < 2 ^ n →
    c.Settles [("in", .row [a, b] mark)] (some [("out", [if k.holds a b then 1 else 0])])

theorem Realizes.compares {k : Comparison} {n : ℕ} {x y out : Signal} {mark : Mark}
    {Pre Post : (Signal → ZMod f.p) → Prop}
    (h : c.Realizes f [⟨"in", .input, .row [x, y] mark⟩] [⟨"out", .output, .single out⟩] Pre Post)
    (ho : k.Offers n x y out Pre Post) (hn : 2 ^ n ≤ f.p) : c.Compares k n := by
  intro a b mark' ha hb
  have hin {v : Signal → ZMod f.p} (hv : Given v [⟨"in", .input, .row [x, y] mark⟩]
      [("in", .row [a, b] mark')]) : v x = a ∧ v y = b := by
    simpa [Given, elements, Supply.numbers] using hv
  refine h.settles (.cons ⟨rfl, Supply.shaped_row rfl _ _⟩ .nil)
    (fun d hd => h.mem_of_output hd) (by simpa using (by decide : PlainName "in"))
    (by simp [Supply.numbers]; omega) (fun v hv _ => ?_) fun v hv hp => ⟨_, rfl, ?_⟩
  · exact ho.pre v a b ha hb (hin hv).1 (hin hv).2
  · have hvalue := ho.post v a b ha hb (hin hv).1 (hin hv).2 hp
    rw [flag] at hvalue
    simp [Tells, elements, hvalue]

end Circuit

/-- **Comparisons are exact.**  A comparison of width `n` compiles exactly when
    `1 ≤ n` and `n + 1` digits fit below the prime, and its circuit tells how any two numbers
    of `n` digits compare.  Other widths are refused, by an error that would name the width:
    one of more than 4300 digits cannot be written. -/
theorem comparisons_exact {σ : Type} {p : ℕ} (hp : p.Prime) {settings : Settings}
    (hs : settings.prime = .int p) (k : Comparison) (n : ℤ) (host : σ) (public_ : List String) :
    (1 ≤ n ∧ n + 1 < Decimal.bitLength p →
      (public_.Nodup → public_ ⊆ ["in"] →
        ∃ c, (compile settings (k.template (.int n)) host public_).result = .ok c) ∧
      ∀ c, (compile settings (k.template (.int n)) host public_).result = .ok c →
        c.Compares k n.toNat) ∧
    (¬ (1 ≤ n ∧ n + 1 < Decimal.bitLength p) →
      ∃ e, (compile settings (k.template (.int n)) host public_).result = .error e ∧
        e.kind = if Value.isLong n then .fault .value else .compilation) := by
  let f : PrimeField := ⟨p, hp.two_le⟩
  have hf : settings.field = .ok f := Settings.field_of_prime hp hs
  have hblank := Scene.blank_main f
  constructor
  · intro hn
    obtain ⟨m, rfl⟩ : ∃ m : ℕ, n = m := ⟨n.toNat, by omega⟩
    refine compile_realizes hf ?_ ?_ host public_
    · intro W hW ha
      rw [k.body_template]
      exact k.keeps_build hW ha _
    · rw [k.body_template]
      refine (k.succeeds_build (f := f) hp rfl (hblank .warn) hn).mono ?_
      rintro _ sts sc' - - ⟨x, y, out, mark, Pre, Post, hprov, ho⟩
      refine ⟨_, _, _, _, hprov, rfl, fun c hc _ => hc.compares ho ?_⟩
      have hlt : m < Decimal.bitLength p := by
        have := hn.2
        omega
      exact lt_bitLength hlt
  · intro hn
    refine compile_of_fails hf ?_ public_
    rw [k.body_template]
    exact k.fails_build (show ¬ Width f n from hn) (hblank _)

/-- Below 97 three digits fit and six do not; `2 ^ 3 - 1` may be the greater number. -/
theorem comparisons_exact_below_97 :
    Nat.Prime 97 ∧
    (∃ c, (compile { prime := .int 97 } (Comparison.lessEq.template (.int 3)) () ["in"]).result
        = .ok c ∧ c.Settles [("in", .row [5, 7] [])] (some [("out", [1])])) ∧
    ∃ e, (compile { prime := .int 97 } (Comparison.greater.template (.int 6)) () []).result
        = .error e ∧ e.kind = .compilation := by
  have hp : Nat.Prime 97 := by norm_num
  have hs : ({ prime := .int 97 } : Settings).prime = .int (97 : ℕ) := rfl
  have hbits : Decimal.bitLength 97 = 7 := by decide +kernel
  refine ⟨hp, ?_, ?_⟩
  · obtain ⟨hok, hall⟩ := (comparisons_exact hp hs .lessEq 3 () ["in"]).1
      (by rw [hbits]; decide)
    obtain ⟨c, hc⟩ := hok (by simp) (by simp)
    exact ⟨c, hc, hall c hc 5 7 [] (by decide) (by decide)⟩
  · obtain ⟨e, he, hkind⟩ := (comparisons_exact hp hs .greater 6 () []).2 (by rw [hbits]; decide)
    have hshort : Value.isLong 6 = false := by decide +kernel
    exact ⟨e, he, by rw [hkind, hshort]; rfl⟩

/-- A width of more than 4300 digits is out of range, but is refused by the error of a number
    that cannot be written. -/
theorem comparison_width_unwritable :
    ∃ n : ℤ, ¬ (1 ≤ n ∧ n + 1 < Decimal.bitLength 97) ∧ ∃ e, (compile { prime := .int 97 }
      (Comparison.less.template (.int n)) () []).result = .error e ∧
        e.kind = .fault .value := by
  have hp : Nat.Prime 97 := by norm_num
  have hs : ({ prime := .int 97 } : Settings).prime = .int (97 : ℕ) := rfl
  have hbits : Decimal.bitLength 97 = 7 := by decide +kernel
  obtain ⟨n, hlong, hwide⟩ : ∃ n : ℤ, Value.isLong n ∧ ¬ n + 1 < 7 :=
    ⟨Value.longBound, by decide +kernel⟩
  have hrange : ¬ (1 ≤ n ∧ n + 1 < Decimal.bitLength 97) := by
    rw [hbits]
    exact fun h => hwide h.2
  have hwidth : ¬ Width (Scene.main ⟨97, hp.two_le⟩ .warn).field n := hrange
  have hfails : (Comparison.less.template (.int n) : Template Unit).body.Fails
      (.main ⟨97, hp.two_le⟩ .warn) (Refused n) :=
    Comparison.less.fails_build hwidth (Scene.blank_main _ _)
  obtain ⟨e, he, hkind⟩ := compile_of_fails (Settings.field_of_prime hp hs) hfails []
  exact ⟨n, hrange, e, he, hkind.trans (if_pos hlong)⟩

end RankOne
