/-
  RankOne — comparisons succeed, and tell.

  The digits of `a + 2 ^ n - b` fit into `n + 1` places when `a < 2 ^ n` and `b ≤ 2 ^ n`,
  and the last of them is set exactly when `b ≤ a`.  A field of more than `2 ^ (n + 1)`
  elements cannot confuse two such numbers.

  * `weigh`, `digitsAt`, `exists_digitsAt`: binary digits in a field;
  * `succeeds_decompose`: signals constrained to be digits of a value;
  * `top_digit`: the last digit of `a + 2 ^ n - b`;
  * `succeeds_lessThan`, `fails_lessThan`: the comparison of a width, and the widths that
    are refused.
-/
import RankOne.Gadget.Bits
import RankOne.Proofs.Gadget.Equality
import RankOne.Proofs.Value.Operators

namespace RankOne.Gadget

open Build

variable {σ : Type} {f : PrimeField} {sc : Scene}

/-! ## Digits -/

/-- The number that binary digits stand for, the least first. -/
def weigh {p : ℕ} : List (ZMod p) → ZMod p
  | [] => 0
  | b :: bs => b + 2 * weigh bs

theorem weigh_append {p : ℕ} (top : ZMod p) : ∀ bs : List (ZMod p),
    weigh (bs ++ [top]) = weigh bs + 2 ^ bs.length * top
  | [] => by simp [weigh]
  | b :: bs => by
    rw [List.cons_append, weigh, weigh, weigh_append top bs, List.length_cons]
    ring

/-- The digits of a number from place `i` on. -/
def digitsAt {p : ℕ} (n : ℕ) : ℕ → ℕ → List (ZMod p)
  | _, 0 => []
  | i, k + 1 => (if n.testBit i then 1 else 0) :: digitsAt n (i + 1) k

theorem weigh_digitsAt {p : ℕ} (n : ℕ) : ∀ k i : ℕ,
    (weigh (digitsAt n i k) : ZMod p) = ((n >>> i) % 2 ^ k : ℕ)
  | 0, i => by simp [digitsAt, weigh, Nat.mod_one]
  | k + 1, i => by
    have hshift : n >>> (i + 1) = n >>> i / 2 := Nat.shiftRight_succ n i
    have hbit : (if n.testBit i then 1 else 0 : ZMod p) = ((n >>> i % 2 : ℕ) : ZMod p) := by
      rw [Nat.testBit, Nat.and_comm, Nat.and_one_is_mod]
      rcases Nat.mod_two_eq_zero_or_one (n >>> i) with h | h <;> simp [h]
    rw [digitsAt, weigh, weigh_digitsAt n k (i + 1), hshift, hbit, pow_succ', Nat.mod_mul]
    push_cast
    rfl

theorem digitsAt_succ {p : ℕ} (n : ℕ) : ∀ k i : ℕ,
    (digitsAt n (i + 1) k : List (ZMod p)) = digitsAt (n / 2) i k
  | 0, _ => rfl
  | k + 1, i => by rw [digitsAt, digitsAt, digitsAt_succ n k (i + 1), Nat.testBit_add_one]

/-- Zeros and ones are the digits of a number. -/
theorem exists_digitsAt {p : ℕ} : ∀ {bs : List (ZMod p)}, (∀ b ∈ bs, b = 0 ∨ b = 1) →
    ∃ m : ℕ, m < 2 ^ bs.length ∧ bs = digitsAt m 0 bs.length
  | [], _ => ⟨0, by simp, rfl⟩
  | b :: bs, h => by
    obtain ⟨hb, hbs⟩ := List.forall_mem_cons.1 h
    obtain ⟨m, hm, hdigits⟩ := exists_digitsAt hbs
    rw [List.length_cons, pow_succ]
    rcases hb with rfl | rfl
    · refine ⟨2 * m, by omega, ?_⟩
      rw [digitsAt, digitsAt_succ, Nat.mul_div_cancel_left m two_pos, ← hdigits]
      simp
    · refine ⟨2 * m + 1, by omega, ?_⟩
      rw [digitsAt, digitsAt_succ, show (2 * m + 1) / 2 = m by omega, ← hdigits]
      simp

/-- Digits stand for their number. -/
theorem weigh_digits {p m k : ℕ} (hm : m < 2 ^ k) : (weigh (digitsAt m 0 k) : ZMod p) = m := by
  rw [weigh_digitsAt, Nat.shiftRight_zero, Nat.mod_eq_of_lt hm]

/-- Zeros and ones stand for a number of as many digits. -/
theorem exists_weigh {p : ℕ} {bs : List (ZMod p)} (h : ∀ b ∈ bs, b = 0 ∨ b = 1) :
    ∃ m : ℕ, m < 2 ^ bs.length ∧ weigh bs = (m : ZMod p) := by
  obtain ⟨m, hm, hdigits⟩ := exists_digitsAt h
  exact ⟨m, hm, (congrArg weigh hdigits).trans (weigh_digits hm)⟩

theorem run_bit (f : PrimeField) (i n : ℕ) :
    (Hint.bit i).run f [n] = .ok (.value (if n.testBit i then 1 else 0)) := by
  have hplace : ¬ (i : Int) < 0 := by omega
  simp only [Hint.bit, Hint.give, if_neg hplace, Int.toNat_natCast]

/-! ## Signals as digits -/

/-- A signal is constrained to be zero or one. -/
theorem succeeds_constrainBit (hp : f.p.Prime) (hf : sc.field = f) {b : Signal}
    (hb : b ∈ sc.signals) (I : Set ℤ) :
    (constrainBit b : Build σ Unit).Succeeds sc fun _ sts sc' => sc' = sc ∧
      sc.Step f sts sc I ∅ ∅ ∅ (fun v => v b = 0 ∨ v b = 1) fun v => v b = 0 ∨ v b = 1 := by
  have := Fact.mk hp
  refine .fit fun hfit => ?_
  have hbit : (Expr.ofSignal b).Line f {s | s ∈ sc.signals} _ :=
    .ofSignal hb ((hfit.field b hb).trans hf)
  have hone : (Expr.ofInt f 1).Line f {s | s ∈ sc.signals} _ := .ofInt 1
  have hzero : (Expr.ofInt f 0).Line f {s | s ∈ sc.signals} _ := .ofInt 0
  obtain ⟨product, hproduct, hform, hdegree⟩ := hbit.mul (hbit.sub hone)
  subst hf
  refine (yields_const 1).skip fun _ _ => (yields_times hproduct).skip fun _ _ =>
    (yields_const 0).skip fun _ _ => ?_
  have hdeg : product.degree = 2 := hdegree rfl (by rw [Expr.degree_sub]; rfl)
  refine (yields_constrain rfl hform hzero (by rw [hdeg, Expr.degree_ofInt]; decide)).succeeds
    fun _ _ => ⟨rfl, (sc.step_constrain hform hzero.toForm sc.path).imp ?_ ?_⟩
  all_goals
    intro v hv
    simpa [sub_eq_zero] using hv

/-- A loop of digits: what was added, and what the advice gives. -/
structure Digits (sc : Scene) (f : PrimeField) (I : Set ℤ) (dv : (Signal → ZMod f.p) → ZMod f.p)
    (i : ℕ) (bits : List Signal) (sts : List Statement) (sc' : Scene) : Prop where
  scene : sc' = sc.assignAll bits
  step : sc.Step f sts sc' I (Signal.numbers bits) ∅ ∅ (fun _ => True)
    fun v => ∀ b ∈ bits, v b = 0 ∨ v b = 1
  advice : ∀ v, ByUid v → (∀ st ∈ sts, st.Computes v) →
    bits.map v = digitsAt (dv v).val i bits.length

theorem succeeds_digitsFrom (hp : f.p.Prime) {value : Expr} {T : Set Signal} {I : Set ℤ}
    {dv : (Signal → ZMod f.p) → ZMod f.p} (hvalue : value.Line f T dv) :
    ∀ {bits : List Signal} {i weight : ℕ} {acc : Expr} {V : Set Signal}
      {d : (Signal → ZMod f.p) → ZMod f.p} {sc : Scene}, sc.field = f →
    (∀ s ∈ T, s ∈ sc.signals ∧ s.uid ∈ I) → (∀ b ∈ bits, sc.Open b) →
    (bits.map (·.uid)).Nodup → acc.Line f V d →
    (digitsFrom value i weight acc bits : Build σ Expr).Succeeds sc fun e sts sc' =>
      e.Line f (V ∪ {s | s ∈ bits}) (fun v => d v + weight * weigh (bits.map v)) ∧
        Digits sc f I dv i bits sts sc'
  | [], i, weight, acc, V, d, sc, _, _, _, _, hacc => by
    refine (yields_pure acc).succeeds fun _ _ => ⟨?_, sc.assignAll_nil.symm, .none (by simp), ?_⟩
    · exact (hacc.mono Set.subset_union_left).congr fun v => by simp [weigh]
    · exact fun _ _ _ => rfl
  | b :: bits, i, weight, acc, V, d, sc, hf, hT, hopen, hnd, hacc => by
    obtain ⟨hnew, hnd⟩ := List.nodup_cons.1 hnd
    obtain ⟨hb, hbits⟩ := List.forall_mem_cons.1 hopen
    have hfield (hfit : sc.Fit) : b.field = f := (hfit.field b hb.mem).trans hf
    have hmine := hvalue.toForm.mono (U := {s | s ∈ sc.signals}) fun s hs => (hT s hs).1
    have hadvice := sc.effect_hint hvalue.toForm (fun s hs => (hT s hs).2) sc.path b (.bit i)
    refine .fit fun hfit => ?_
    refine (yields_hint hf hb hmine fun n => ⟨_, run_bit f i n⟩).next fun hgrows _ => ?_
    refine (succeeds_constrainBit hp (show (sc.assign b).field = f from hf) hb.mem I).bind ?_
    rintro _ checks _ - - ⟨rfl, hcheck⟩
    have hlater : ∀ x ∈ bits, (sc.assign b).Open x := fun x hx =>
      (hbits x hx).later hgrows hadvice fun hmem => hnew (List.mem_map.2 ⟨x, hx, hmem⟩)
    have hterm := ((Expr.Line.ofSignal (T := {b}) rfl (hfield hfit)).scale weight)
    refine (succeeds_digitsFrom hp hvalue (show (sc.assign b).field = f from hf) hT hlater hnd
      ((hacc.mono (U := V ∪ {b}) Set.subset_union_left).add
        (hterm.mono Set.subset_union_right))).mono ?_
    rintro e sts sc' - - ⟨he, hrest⟩
    -- the advice for this digit is a zero or a one
    have hdigit : ∀ v, ByUid v → (Statement.hint sc.path b (.bit i) [value]).Computes v →
        v b = if (dv v).val.testBit i then 1 else 0 := by
      rintro v hv ⟨m, hm, hvb⟩
      rw [List.map_singleton, hvalue.value v hv, run_bit] at hm
      cases hm
      rw [hvb]
      split_ifs <;> simp
    refine ⟨?_, ?_, ?_, ?_⟩
    · refine (he.mono ?_).congr fun v => ?_
      · rintro s ((hs | rfl) | hs)
        · exact Or.inl hs
        · exact Or.inr List.mem_cons_self
        · exact Or.inr (List.mem_cons_of_mem _ hs)
      · rw [List.map_cons, weigh]
        push_cast
        ring
    · rw [hrest.scene, sc.assignAll_cons]
    · have hafter := hcheck.trans hrest.step Set.subset_union_left fun _ _ _ => trivial
      refine (hafter.hint (s := b) hvalue.toForm (fun s hs => (hT s hs).2) Set.subset_union_left
        fun v hv hc _ => ?_).mono subset_rfl ?_ (by simp) (by simp) (fun _ h => h)
        fun v hv => List.forall_mem_cons.2 hv
      · rw [hdigit v hv hc]
        split_ifs
        · exact Or.inr rfl
        · exact Or.inl rfl
      · rw [Set.empty_union, Signal.numbers_cons]
    · intro v hv hc
      rw [List.forall_mem_append, List.forall_mem_append, List.forall_mem_singleton] at hc
      rw [List.map_cons, hrest.advice v hv hc.2.2, hdigit v hv hc.1]
      rfl

/-- **Signals are constrained to be the digits of a value.** -/
theorem succeeds_decompose (hp : f.p.Prime) (hf : sc.field = f) {value : Expr} {T : Set Signal}
    {I : Set ℤ} {dv : (Signal → ZMod f.p) → ZMod f.p} (hvalue : value.Line f T dv)
    (hdegree : value.degree = 1) {bits : List Signal}
    (hT : ∀ s ∈ T, s ∈ sc.signals ∧ s.uid ∈ I) (hopen : ∀ b ∈ bits, sc.Open b)
    (hnd : (bits.map (·.uid)).Nodup) :
    (decompose bits value : Build σ Unit).Succeeds sc fun _ sts sc' => sc' = sc.assignAll bits ∧
      sc.Step f sts sc' I (Signal.numbers bits) ∅ ∅ (fun v => (dv v).val < 2 ^ bits.length)
        (fun v => (∀ b ∈ bits, v b = 0 ∨ v b = 1) ∧ weigh (bits.map v) = dv v) ∧
      ∀ v, ByUid v → (∀ st ∈ sts, st.Computes v) →
        bits.map v = digitsAt (dv v).val 0 bits.length := by
  refine (yields_const 0).skip fun _ _ => ?_
  rw [hf]
  refine (succeeds_digitsFrom hp hvalue hf hT hopen hnd (.ofInt (T := ∅) 0)).bind ?_
  rintro total sts _ - - ⟨htotal, rfl, hstep, hadvice⟩
  have hsum : total.Line f {s | s ∈ sc.signals} fun v => weigh (bits.map v) := by
    refine (htotal.mono ?_).congr fun v => by simp
    rintro s (hs | hs)
    · exact hs.elim
    · exact (hopen s hs).mem
  have hmine := hvalue.mono (U := {s | s ∈ sc.signals}) fun s hs => (hT s hs).1
  have hlast := (sc.assignAll bits).step_constrain (I := ∅) hsum.toForm hmine.toForm sc.path
  refine (yields_constrain (show (sc.assignAll bits).field = f from hf) hsum.toForm hmine
    (by rw [hdegree]; omega)).succeeds fun _ _ => ⟨rfl, ?_, fun v hv hc => ?_⟩
  · refine ((hstep.imp (fun _ _ => trivial) fun _ h => h).chain hlast (Set.empty_subset _)
      fun v hv hc hlt _ => ?_).mono subset_rfl (Set.union_empty _) (Set.union_empty _).subset
      (Set.union_empty _).subset (fun _ h => h) fun _ h => h
    have := Fact.mk hp
    rw [hadvice v hv hc, weigh_digits hlt]
    exact ZMod.natCast_zmod_val (dv v)
  · rw [List.forall_mem_append] at hc
    exact hadvice v hv hc.1

/-! ## Comparison -/

theorem bitLength_eq {n : ℕ} (h : n ≠ 0) : Decimal.bitLength n = n.log2 + 1 := if_neg h

/-- A number has more digits than `n` exactly when it is not below `2 ^ n`. -/
theorem lt_bitLength {n p : ℕ} (h : n < Decimal.bitLength p) : 2 ^ n ≤ p := by
  rcases Nat.eq_zero_or_pos p with rfl | hp
  · exact absurd h (Nat.not_lt_zero n)
  · rw [bitLength_eq hp.ne'] at h
    exact (Nat.pow_le_pow_right two_pos (by omega)).trans (Nat.log2_self_le hp.ne')

/-- **The last digit of `a + 2 ^ n - b`** is set exactly when `b ≤ a`. -/
theorem top_digit {p n a b : ℕ} (hp : 2 ^ (n + 1) ≤ p) {low : List (ZMod p)} {top : ZMod p}
    (hlen : low.length = n) (hlow : ∀ x ∈ low, x = 0 ∨ x = 1) (htop : top = 0 ∨ top = 1)
    (ha : a < 2 ^ n) (hb : b ≤ 2 ^ n) (h : weigh (low ++ [top]) = (a : ZMod p) + 2 ^ n - b) :
    1 - top = flag (a < b) := by
  obtain ⟨m, hm, hsum⟩ := exists_weigh hlow
  obtain ⟨t, ht, rfl⟩ : ∃ t : ℕ, t < 2 ∧ top = t := by
    rcases htop with rfl | rfl
    · exact ⟨0, by omega, by simp⟩
    · exact ⟨1, by omega, by simp⟩
  rw [hlen] at hm
  rw [pow_succ] at hp
  have hle : b ≤ a + 2 ^ n := by omega
  have hcast : ((m + 2 ^ n * t : ℕ) : ZMod p) = (a + 2 ^ n - b : ℕ) := by
    rw [weigh_append, hsum, hlen] at h
    push_cast [hle]
    exact h
  -- both numbers are below the order of the field
  have hnat : m + 2 ^ n * t = a + 2 ^ n - b := by
    have hsmall : m + 2 ^ n * t < p := by
      interval_cases t <;> omega
    rw [ZMod.natCast_eq_natCast_iff', Nat.mod_eq_of_lt hsmall, Nat.mod_eq_of_lt (by omega)] at hcast
    exact hcast
  rw [flag]
  interval_cases t
  · rw [if_pos (by omega)]
    simp
  · rw [if_neg (by omega)]
    simp

/-! ## Widths -/

theorem test_ge (a b : Int) : Number.test .ge (.int a) (.int b) = decide (b ≤ a) := by
  change (compare a b != .lt) = _
  rw [Bool.eq_iff_iff, bne_iff_ne, ne_eq, compare_lt_iff_lt, decide_eq_true_iff, not_lt]

theorem small_int (n : Int) : (do (← Value.binary .lt (.int n) (.int 1)).truth : Except Error Bool) =
    .ok (decide (n < 1)) := by
  rw [← Value.test_lt]
  rfl

theorem large_int (n : Int) (k : ℕ) :
    (do (← Value.binary .ge (← Value.binary .add (.int n) (.int 1)) (.int k)).truth :
      Except Error Bool) = .ok (decide ((k : Int) ≤ n + 1)) := by
  rw [← test_ge]
  rfl

/-- The digits of a width and one more fit into a field. -/
def Width (f : PrimeField) (n : Int) : Prop := 1 ≤ n ∧ n + 1 < Decimal.bitLength f.p

theorem yields_checkWidth {n : Int} (h : Width sc.field n) :
    (checkWidth (.int n) : Build σ Unit).Yields sc () [] sc := by
  refine yields_field.skip fun _ _ => (yields_demand (small_int n)).skip fun _ _ => ?_
  rw [decide_eq_false (by have := h.1; omega)]
  refine (yields_demand (large_int n _)).skip fun _ _ => ?_
  rw [decide_eq_false (by have := h.2; omega)]
  exact yields_pure ()

/-- The error for a number: it names the number, unless that is too long to be written. -/
def Refused (n : Int) (e : Error) : Prop :=
  e.kind = if Value.isLong n then .fault .value else .compilation

/-- An error that names a number. -/
theorem fails_naming (n : Int) (e : String → String → Error)
    (he : ∀ path text, (e path text).kind = .compilation) :
    (do throw (e (← path) (← demand (Value.int n).shownText)) : Build σ Unit).Fails sc
      (Refused n) := by
  refine yields_path.fails ?_
  have htext : (Value.int n).shownText =
      if Value.isLong n then .error (.fault .value) else .ok (Value.int n).shown := rfl
  by_cases hlong : Value.isLong n
  · rw [if_pos hlong] at htext
    exact (fails_demand htext (by rw [Refused, if_pos hlong]; rfl)).bind
  · rw [if_neg hlong] at htext
    exact (yields_demand htext).fails (fails_throw (by rw [Refused, if_neg hlong, he]))

/-- **Other widths are refused.** -/
theorem fails_checkWidth {n : Int} (h : ¬ Width sc.field n) :
    (checkWidth (.int n) : Build σ Unit).Fails sc (Refused n) := by
  have hrefuse : (do throw (.comparatorWidth (← path) (← demand (Value.int n).shownText)
      sc.field.p) : Build σ Unit).Fails sc (Refused n) :=
    fails_naming n (fun path text => .comparatorWidth path text sc.field.p) fun _ _ => rfl
  refine yields_field.fails ((yields_demand (small_int n)).fails ?_)
  by_cases hsmall : n < 1
  · rw [decide_eq_true hsmall]
    exact (yields_pure false).fails hrefuse
  · rw [decide_eq_false hsmall]
    refine (yields_demand (large_int n _)).fails ?_
    rw [decide_eq_true (by by_contra hlarge; exact h ⟨by omega, by omega⟩)]
    exact hrefuse

/-- Inputs of at most `n` digits, the second up to the bound itself. -/
def Fitting {p : ℕ} (n : ℕ) (x y : ZMod p) (a b : ℕ) : Prop :=
  a < 2 ^ n ∧ b ≤ 2 ^ n ∧ x = a ∧ y = b

/-- The comparison of two signals by the digits of their difference. -/
theorem succeeds_compare (hp : f.p.Prime) (hf : sc.field = f) {n : ℕ} (hn : 2 ^ (n + 1) ≤ f.p)
    {I : Set ℤ} {x y out : Signal} {bits : List Signal} (hlen : bits.length = n + 1)
    (hx : x ∈ sc.signals ∧ x.uid ∈ I) (hy : y ∈ sc.signals ∧ y.uid ∈ I) (hout : sc.Open out)
    (hopen : ∀ b ∈ bits, sc.Open b) (hnd : (bits.map (·.uid)).Nodup)
    (hnew : out.uid ∉ Signal.numbers bits) :
    (do let shifted := (Expr.ofSignal x).add (← offset (.int n))
        decompose bits (shifted.sub (.ofSignal y))
        let top ← demand (itemAt bits (← demand (Value.int n).index))
        assign out ((← const 1).sub (.ofSignal top)) : Build σ Unit).Succeeds sc fun _ sts sc' =>
      sc' = (sc.assignAll bits).assign out ∧
        sc.Step f sts sc' I (Signal.numbers bits ∪ {out.uid}) ∅ ∅
          (fun v => ∃ a b, Fitting n (v x) (v y) a b)
          fun v => ∀ a b, Fitting n (v x) (v y) a b → v out = flag (a < b) := by
  obtain ⟨low, top, rfl⟩ : ∃ low top, bits = low ++ [top] :=
    (List.eq_nil_or_concat' bits).resolve_left (by rintro rfl; simp at hlen)
  have hlow : low.length = n := by simpa using hlen
  have htop : top ∈ low ++ [top] := by simp
  refine .fit fun hfit => ?_
  have hline {s : Signal} (hs : s ∈ sc.signals) : s.field = f := (hfit.field s hs).trans hf
  have hvalue : (((Expr.ofSignal x).add (.ofInt f (Nat.pow 2 n))).sub (.ofSignal y)).Line f {x, y}
      fun v => v x + 2 ^ n - v y :=
    (((Expr.Line.ofSignal (Or.inl rfl) (hline hx.1)).add (.ofInt _)).sub
      (.ofSignal (Or.inr rfl) (hline hy.1))).congr fun v => by simp
  have hone := (Expr.Line.ofInt 1).sub
    (.ofSignal (T := {s | s ∈ sc.signals ∧ s.uid ∈ I ∪ Signal.numbers (low ++ [top])})
      ⟨(hopen top htop).mem, Or.inr (Signal.mem_numbers htop)⟩ (hline (hopen top htop).mem))
  refine (yields_const (Nat.pow 2 n)).skip fun _ _ => ?_
  rw [hf]
  refine (succeeds_decompose hp hf hvalue (by rw [Expr.degree_sub, Expr.degree_add]; rfl) (by
    rintro s (rfl | rfl)
    exacts [hx, hy]) hopen hnd).bind ?_
  rintro _ sts _ hgrows - ⟨rfl, hdigits, -⟩
  refine (yields_demand (a := (n : Int)) rfl).skip fun _ _ => ?_
  have hitem : itemAt (low ++ [top]) n = .ok top := by
    simp [itemAt, position?, hlow]
  refine (yields_demand hitem).skip fun _ _ => (yields_const 1).skip fun _ _ => ?_
  rw [show (sc.assignAll (low ++ [top])).field = f from hf]
  have hlast := (sc.assignAll (low ++ [top])).step_assign hone.toForm (fun s hs => hs.2)
    sc.path out
  refine (yields_assign (show (sc.assignAll (low ++ [top])).field = f from hf)
    (hout.later hgrows hdigits.toEffect hnew) (hone.toForm.mono fun s hs => hs.1)).succeeds
    fun _ _ => ⟨rfl, ?_⟩
  refine (hdigits.trans hlast subset_rfl fun _ _ _ => trivial).mono subset_rfl rfl (by simp)
    (by simp) ?_ ?_
  · rintro v ⟨a, b, ha, hb, hvx, hvy⟩
    rw [pow_succ] at hn
    have hcast : v x + 2 ^ n - v y = ((a + 2 ^ n - b : ℕ) : ZMod f.p) := by
      rw [hvx, hvy]
      push_cast [show b ≤ a + 2 ^ n by omega]
      rfl
    rw [hcast, ZMod.val_natCast_of_lt (by omega), hlen, pow_succ]
    omega
  · rintro v ⟨⟨hbits, hweigh⟩, hvout⟩ a b ⟨ha, hb, hvx, hvy⟩
    rw [hvout, Int.cast_one]
    rw [List.map_append, hvx, hvy] at hweigh
    refine top_digit hn (by simpa using hlow) ?_ (hbits top htop) ha hb hweigh
    intro d hd
    obtain ⟨s, hs, rfl⟩ := List.mem_map.1 hd
    exact hbits s (List.mem_append_left _ hs)

/-- **The component that compares numbers of `n` digits.** -/
theorem succeeds_lessThan (hp : f.p.Prime) (hf : sc.field = f) (hblank : sc.Blank) {n : ℕ}
    (hn : Width f n) :
    (lessThan (.int n) : Build σ Unit).Succeeds sc fun _ sts sc' => ∃ x y out mark,
      sc.Provides f [⟨"in", .input, .row [x, y] mark⟩] [⟨"out", .output, .single out⟩]
        (fun v => ∃ a b, Fitting n (v x) (v y) a b)
        (fun v => ∀ a b, Fitting n (v x) (v y) a b → v out = flag (a < b)) sts sc' ∧
      sc'.children = ∅ := by
  refine (yields_checkWidth (hf ▸ hn)).skip fun _ _ => ?_
  refine succeeds_row 2 (by simp [hblank.names]) fun pair hpair hbus hfit₁ => ?_
  obtain ⟨x, y, rfl⟩ := List.length_eq_two.1 hpair
  set sc₁ := sc.declare ⟨"in", .input, .row [x, y] sc.mark⟩ with hsc₁
  refine (yields_signal (by simp [hsc₁, hblank.names])).skip fun _ hfit₂ => ?_
  set out := sc₁.single .output "out"
  set sc₂ := sc₁.declare ⟨"out", .output, .single out⟩ with hsc₂
  refine (yields_demand (a := Value.int (n + 1)) rfl).skip fun _ _ => ?_
  refine succeeds_row (n + 1) (by simp [hsc₁, hsc₂, hblank.names]) fun bits hlen hnew _ => ?_
  set sc₃ := sc₂.declare ⟨"bits", .intermediate, .row bits sc₂.mark⟩ with hsc₃
  have hinterface : sc.Interface [⟨"in", .input, .row [x, y] sc.mark⟩]
      [⟨"out", .output, .single out⟩] :=
    ((Scene.Interface.nil sc).input hbus "in").output (sc₁.new_single .output "out") "out"
  have hnumbers := hnew.consecutive.numbers
  rw [hlen] at hnumbers
  have hmade : ∀ s ∈ [x, y], s ∈ sc₃.signals ∧ s.uid ∈ Signal.numbers [x, y] := fun s hs =>
    ⟨by simp [hsc₁, hsc₂, hsc₃, ← or_assoc, List.mem_pair.1 hs], Signal.mem_numbers hs⟩
  have hout : sc₃.Open out :=
    ((sc₁.new_single .output "out").isOpen_single hfit₁ (Or.inl rfl)).declare _
  refine (succeeds_compare hp (by simpa [hsc₁, hsc₂, hsc₃] using hf)
    (lt_bitLength (by exact_mod_cast hn.2)) hlen (hmade x (by simp)) (hmade y (by simp)) hout
    (hnew.isOpen_row hfit₂ (Or.inr rfl)) hnew.consecutive.nodup ?_).mono ?_
  · rw [hnumbers]
    simp [out, hsc₂]
  rintro _ sts sc' hgrows - ⟨hsc', hstep⟩
  refine ⟨x, y, out, sc.mark, hinterface.provides hblank ((sc₂.grows_declare _).trans hgrows)
    (hstep.declared rfl) (by simp) ?_ (by simp), ?_⟩
  · rw [hnumbers]
    ext u
    simp [hsc', hsc₁, hsc₂, hsc₃, out, hlen]
    omega
  · simp [hsc', hsc₁, hsc₂, hsc₃, hblank.children]

theorem fails_lessThan {n : Int} (h : ¬ Width sc.field n) :
    (lessThan (.int n) : Build σ Unit).Fails sc (Refused n) := (fails_checkWidth h).bind

/-! ## Comparisons by another -/

/-- A comparison as a child. -/
theorem succeeds_placedLessThan (hp : f.p.Prime) (hf : sc.field = f) {name : String}
    (hname : name ∉ sc.names) {n : ℕ} (hn : Width f n) :
    (component name (lessThanTemplate (.int n)) : Build σ Component).Succeeds sc
      fun c sts sc₁ => ∃ x y out mark, sc.Placed f [⟨"in", .input, .row [x, y] mark⟩]
        [⟨"out", .output, .single out⟩] (fun v => ∃ a b, Fitting n (v x) (v y) a b)
        (fun v => ∀ a b, Fitting n (v x) (v y) a b → v out = flag (a < b)) ∅ {name} c sts
        sc₁ := by
  refine succeeds_placed (f := f) hname fun id => ?_
  refine (succeeds_lessThan hp (by simpa using hf) (sc.blank_enter id name) hn).mono ?_
  rintro _ sts sc' - - ⟨x, y, out, mark, hprov, hchildren⟩
  exact ⟨_, _, _, _, hprov, Or.inr hchildren, fun c sc₁ h => ⟨x, y, out, mark, h⟩⟩

/-- Two linear forms of the inputs, with their values. -/
def Sides (f : PrimeField) (sides : PrimeField → Signal → Signal → List Expr)
    (l r : ZMod f.p → ZMod f.p → ZMod f.p) : Prop :=
  ∀ ⦃T : Set Signal⦄ ⦃x y : Signal⦄, x ∈ T → y ∈ T → x.field = f → y.field = f →
    List.Forall₂ (fun e d => e.Line f T d) (sides f x y)
      [fun v => l (v x) (v y), fun v => r (v x) (v y)]

/-- **A component that compares two linear forms of its inputs.** -/
theorem succeeds_byLessThan (hp : f.p.Prime) (hf : sc.field = f) (hblank : sc.Blank) {n : ℕ}
    (hn : Width f n) {sides : PrimeField → Signal → Signal → List Expr}
    {l r : ZMod f.p → ZMod f.p → ZMod f.p} (hsides : Sides f sides l r) :
    (byLessThan (.int n) sides : Build σ Unit).Succeeds sc fun _ sts sc' => ∃ x y out mark,
      sc.Provides f [⟨"in", .input, .row [x, y] mark⟩] [⟨"out", .output, .single out⟩]
        (fun v => ∃ a b, Fitting n (l (v x) (v y)) (r (v x) (v y)) a b)
        (fun v => ∀ a b, Fitting n (l (v x) (v y)) (r (v x) (v y)) a b → v out = flag (a < b))
        sts sc' := by
  refine succeeds_row 2 (by simp [hblank.names]) fun pair hpair hbus hfit₁ => ?_
  obtain ⟨x, y, rfl⟩ := List.length_eq_two.1 hpair
  set sc₁ := sc.declare ⟨"in", .input, .row [x, y] sc.mark⟩ with hsc₁
  refine (yields_signal (by simp [hsc₁, hblank.names])).skip fun _ hfit₂ => ?_
  set out := sc₁.single .output "out"
  set sc₂ := sc₁.declare ⟨"out", .output, .single out⟩ with hsc₂
  have hf₂ : sc₂.field = f := by simpa [hsc₁, hsc₂] using hf
  have hinterface : sc.Interface [⟨"in", .input, .row [x, y] sc.mark⟩]
      [⟨"out", .output, .single out⟩] :=
    ((Scene.Interface.nil sc).input hbus "in").output (sc₁.new_single .output "out") "out"
  have hout : sc₂.Open out := (sc₁.new_single .output "out").isOpen_single hfit₁ (Or.inl rfl)
  have hmade : ∀ s ∈ [x, y], s ∈ sc₂.signals ∧ s.uid ∈ Signal.numbers [x, y] := fun s hs =>
    ⟨by simp [hsc₁, hsc₂, ← or_assoc, List.mem_pair.1 hs], Signal.mem_numbers hs⟩
  refine (succeeds_placedLessThan hp hf₂ (by simp [hsc₁, hsc₂, hblank.names]) hn).bind ?_
  rintro lt sts sc₃ hgrows₃ - ⟨x', y', o, mark, hplaced⟩
  have hf₃ : sc₃.field = f := hgrows₃.field.trans hf₂
  refine (yields_terminalSignals (hplaced.terminal "in")).skip fun _ _ => ?_
  refine yields_field.skip fun _ _ => ?_
  rw [hf₃]
  have hfield : ∀ s ∈ [x, y], s.field = f := fun s hs =>
    (hfit₂.field s (hmade s hs).1).trans hf₂
  have hlines := hsides (T := {s | s ∈ [x, y]}) (by simp) (by simp) (hfield x (by simp))
    (hfield y (by simp))
  refine (succeeds_feed [x', y']
    (fun v => ∃ a b, Fitting n (l (v x) (v y)) (r (v x) (v y)) a b) hplaced hgrows₃ hf₃
    (by simp) hlines (by simpa using hlines.length_eq.symm) hmade ?_).bind ?_
  · rintro v ⟨a, b, hab⟩ hfed
    simp only [List.forall₂_cons, List.forall₂_nil_left_iff] at hfed
    exact ⟨a, b, by rwa [hfed.1, hfed.2.1]⟩
  rintro _ ys _ hgrows₄ hfit₄ ⟨rfl, hfed⟩
  refine (yields_terminalSignal (hplaced.terminal "out")).skip fun _ _ => ?_
  have ho : o ∈ sc₃.signals ∧ (sc₂.signals.length : ℤ) ≤ o.uid := hplaced.given o (by simp)
  have hline : (Expr.ofSignal o).Line f
      {s | s ∈ sc₃.signals ∧ s.uid ∈ Set.Ico (sc₂.signals.length : ℤ) sc₃.signals.length} _ :=
    .ofSignal ⟨ho.1, ho.2, hfit₄.numbered o ho.1⟩ ((hfit₄.field o ho.1).trans hf₃)
  have hlast := (sc₃.assignAll [x', y']).step_assign hline.toForm (fun s hs => hs.2) sc₃.path out
  refine (yields_assign (show (sc₃.assignAll [x', y']).field = f from hf₃)
    (hout.below hfit₂ (hgrows₃.trans hgrows₄) hfed.toEffect)
    (hline.toForm.mono fun s hs => hs.1)).succeeds fun hgrows₅ _ => ?_
  have hall := hfed.trans hlast Set.subset_union_right fun _ _ _ => trivial
  rw [List.append_assoc] at hall
  refine ⟨x, y, out, sc.mark, hinterface.provides hblank ((hgrows₃.trans hgrows₄).trans hgrows₅)
    (hall.imp (fun _ h => h) ?_) (by simp) ?_ (by simp)⟩
  · rintro v ⟨⟨hfed, hlt⟩, hvout⟩ a b hab
    simp only [List.forall₂_cons, List.forall₂_nil_left_iff] at hfed
    rw [hvout]
    exact hlt a b (by rwa [hfed.1, hfed.2.1])
  ext u
  have := hgrows₃.length_le
  simp [hsc₁, hsc₂, out] at this ⊢
  omega

theorem fails_byLessThan {n : Int} (h : ¬ Width sc.field n) (hblank : sc.Blank)
    (sides : PrimeField → Signal → Signal → List Expr) :
    (byLessThan (.int n) sides : Build σ Unit).Fails sc (Refused n) := by
  refine (yields_signals 2 (by simp [hblank.names])).fails ?_
  refine (yields_signal (by simp [hblank.names])).fails ?_
  exact (fails_component (by simp [hblank.names]) fun id => fails_lessThan (by simpa using h)).bind

theorem sides_lessEqThan (f : PrimeField) :
    Sides f (fun f x y => [.ofSignal x, (Expr.ofSignal y).add (.ofInt f 1)]) (fun x _ => x)
      fun _ y => y + 1 := fun _ _ _ hx hy hfx hfy =>
  .cons (.ofSignal hx hfx) (.cons (((Expr.Line.ofSignal hy hfy).add (.ofInt 1)).congr fun v => by
    simp) .nil)

theorem sides_greaterThan (f : PrimeField) :
    Sides f (fun _ x y => [.ofSignal y, .ofSignal x]) (fun _ y => y) fun x _ => x :=
  fun _ _ _ hx hy hfx hfy => .cons (.ofSignal hy hfy) (.cons (.ofSignal hx hfx) .nil)

end RankOne.Gadget
