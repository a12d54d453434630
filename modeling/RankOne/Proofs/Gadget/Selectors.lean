/-
  RankOne — selectors as circuits.

  A selector of `n` inputs compiles exactly when the positions can be compared in the
  field.  Its rows can be satisfied exactly when the index is a position, and then `out`
  is the input there.

  * `Circuit.Chooses`: the circuit of a selector;
  * `quinSelector_exact`: sizes, circuits and refusals in one statement.
-/
import RankOne.Proofs.Gadget.Choose
import RankOne.Proofs.Gadget.Parents
import RankOne.Proofs.Witness.Supply

namespace RankOne

open Gadget

namespace Circuit

variable {c : Circuit} {f : PrimeField}

/-- **A circuit selects one of `n` inputs below `p`**: the outcome is the input at the index,
    and there is none if the index is no position. -/
def Chooses (c : Circuit) (p n : ℕ) : Prop :=
  ∀ (xs : List ℕ) (index : ℕ) (mark : Mark), xs.length = n → (∀ x ∈ xs, x < p) → index < p →
    c.Settles [("in", .row xs mark), ("index", .single index)]
      (xs[index]?.map fun x => [("out", [x])])

theorem Realizes.chooses {ss : List Signal} {mark : Mark} {s out : Signal}
    (h : c.Realizes f (selectorInputs ss mark s) (soleOutput out)
      (fun v => ∃ i : ℕ, i < ss.length ∧ v s = i) (Picks f ss s out))
    (hn : ss.length ≤ f.p) : c.Chooses f.p ss.length := by
  intro xs index mark' hlen hxs hindex
  have hin {v : Signal → ZMod f.p} (hv : Given v (selectorInputs ss mark s)
      [("in", .row xs mark'), ("index", .single index)]) :
      ss.map v = elements f.p xs ∧ v s = index := by
    simpa [Given, selectorInputs, elements, Supply.numbers] using hv
  refine h.settles (.cons ⟨rfl, Supply.shaped_row hlen.symm _ _⟩ (.cons ⟨rfl, .single _⟩ .nil))
    (fun d hd => h.mem_of_output hd) (by simp [selectorInputs]; decide)
    (by simpa [Supply.numbers] using ⟨hxs, hindex⟩) (fun v hv hsome => ?_) fun v hv hp => ?_
  · refine ⟨index, ?_, (hin hv).2⟩
    simpa [hlen] using hsome
  · obtain ⟨i, x, hx, hvs, hvout⟩ := hp
    obtain ⟨hss, hvindex⟩ := hin hv
    have hlt : i < ss.length := (List.getElem?_eq_some_iff.1 hx).1
    obtain rfl : i = index :=
      CharP.natCast_injOn_Iio (ZMod f.p) f.p (hlt.trans_le hn) hindex (hvs.symm.trans hvindex)
    have hget := congrArg (·[i]?) hss
    simp only [elements, List.getElem?_map, hx, Option.map_some] at hget
    obtain ⟨y, hy, hyx⟩ := Option.map_eq_some_iff.1 hget.symm
    refine ⟨[("out", [y])], by simp [hy], ?_⟩
    simp [Tells, soleOutput, elements, hvout, hyx]

end Circuit

/-- **Selectors are exact.**  A selector of `n` inputs compiles exactly when the digits of
    `n` and one more fit below the prime, and its circuit selects.  Other sizes are refused,
    by an error that would name the number of digits of `n`. -/
theorem quinSelector_exact {σ : Type} {p : ℕ} (hp : p.Prime) {settings : Settings}
    (hs : settings.prime = .int p) {n : ℕ} (hn : 1 ≤ n) (host : σ) (public_ : List String) :
    (Decimal.bitLength n + 1 < Decimal.bitLength p →
      (public_.Nodup → public_ ⊆ ["in", "index"] →
        ∃ c, (compile settings (quinSelectorTemplate (.int n)) host public_).result = .ok c) ∧
      ∀ c, (compile settings (quinSelectorTemplate (.int n)) host public_).result = .ok c →
        c.Chooses p n) ∧
    (¬ Decimal.bitLength n + 1 < Decimal.bitLength p →
      ∃ e, (compile settings (quinSelectorTemplate (.int n)) host public_).result = .error e ∧
        e.kind = if Value.isLong (Decimal.bitLength n) then .fault .value else .compilation) := by
  let f : PrimeField := ⟨p, hp.two_le⟩
  have hf : settings.field = .ok f := Settings.field_of_prime hp hs
  have hwidth : Width f (Decimal.bitLength n) ↔
      Decimal.bitLength n + 1 < Decimal.bitLength p := width_bitLength hn
  constructor
  · intro hlt
    refine compile_realizes (f := f) hf (fun W hW _ id => ?_) ?_ host public_
    · exact (keeps_quinSelector hW _ _ id).mono fun _ _ h => ⟨trivial, h.2⟩
    · refine (succeeds_quinSelector (f := f) hp rfl (Scene.blank_main f .warn) hn
        (hwidth.2 hlt)).mono ?_
      rintro _ sts sc' - - ⟨xs, mark, index, out, rfl, hprov⟩
      exact ⟨_, _, _, _, hprov, rfl, fun c hc _ => hc.chooses (hwidth.2 hlt).le_p⟩
  · intro hle
    refine compile_of_fails hf ?_ public_
    exact fails_quinSelector hp (Scene.blank_main f _) hn (hwidth.not.2 hle)

/-- Below 97 five inputs can be selected from, and 32 cannot. -/
theorem quinSelector_exact_below_97 :
    Nat.Prime 97 ∧
    (∃ c, (compile { prime := .int 97 } (quinSelectorTemplate (.int 5)) () ["index"]).result
        = .ok c ∧
      c.Settles [("in", .row [10, 20, 30, 40, 50] []), ("index", .single 3)]
        (some [("out", [40])]) ∧
      c.Settles [("in", .row [10, 20, 30, 40, 50] []), ("index", .single 5)] none) ∧
    ∃ e, (compile { prime := .int 97 } (quinSelectorTemplate (.int 32)) () []).result
        = .error e ∧ e.kind = .compilation := by
  have hp : Nat.Prime 97 := by norm_num
  have hs : ({ prime := .int 97 } : Settings).prime = .int (97 : ℕ) := rfl
  refine ⟨hp, ?_, ?_⟩
  · obtain ⟨hok, hall⟩ := (quinSelector_exact hp hs (n := 5) (by decide) () ["index"]).1
      (by decide +kernel)
    obtain ⟨c, hc⟩ := hok (by simp) (by simp)
    have hchooses := hall c hc [10, 20, 30, 40, 50]
    exact ⟨c, hc, hchooses 3 [] rfl (by decide) (by decide),
      hchooses 5 [] rfl (by decide) (by decide)⟩
  · obtain ⟨e, he, hkind⟩ := (quinSelector_exact hp hs (n := 32) (by decide) () []).2
      (by decide +kernel)
    have hshort : Value.isLong (Decimal.bitLength 32) = false := by decide +kernel
    exact ⟨e, he, by rw [hkind, hshort]; rfl⟩

end RankOne
