/-
  RankOne — dense and sparse rows agree.

  The dense writer sets entries where the sparse sum adds terms.  They agree since
  the positions of a combination are distinct and in range, and its coefficients are
  canonical.

  * `denseDot`: the product of a dense row with a vector;
  * `Combination.ofDense`: the nonzero entries of a dense row, as a combination;
  * `Written`: what writing terms into a row leaves;
  * `Combination.Dense`: a dense row that stands for a combination;
  * `denseRow_dense`, `denseRows_dense`: the writer makes such rows;
  * `matrices_agree`: what follows for the matrices of a compiled circuit.
-/
import RankOne.Gadget.Indicator
import RankOne.Proofs.Build.Components
import RankOne.Proofs.Circuit.Sparse

namespace RankOne

/-- The product of a dense row with a vector. -/
def denseDot (row : Array ℕ) (w : Array Int) : Int :=
  (List.zipWith (fun (x : ℕ) (y : Int) => x * y) row.toList w.toList).sum

/-- The nonzero entries of a dense row. -/
def Combination.ofDense (row : Array ℕ) : Combination :=
  ⟨(row.toList.zipIdx.filter (·.1 ≠ 0)).map fun q => ((q.2 : Int), (q.1 : Int))⟩

/-! ## Entries -/

theorem sum_zipWith_set {x : ℕ} {y : Int} : ∀ {xs : List ℕ} {ys : List Int} {i : ℕ},
    xs[i]? = some 0 → ys[i]? = some y →
      (List.zipWith (fun (x : ℕ) (y : Int) => x * y) (xs.set i x) ys).sum =
        (List.zipWith (fun (x : ℕ) (y : Int) => x * y) xs ys).sum + x * y
  | [], _, _, hx, _ => by simp at hx
  | _ :: _, [], _, _, hy => by simp at hy
  | a :: xs, b :: ys, 0, hx, hy => by
    simp only [List.getElem?_cons_zero, Option.some.injEq] at hx hy
    subst hx hy
    simp [add_comm]
  | a :: xs, b :: ys, i + 1, hx, hy => by
    simp only [List.getElem?_cons_succ] at hx hy
    simp only [List.set_cons_succ, List.zipWith_cons_cons, List.sum_cons, sum_zipWith_set hx hy]
    ring

/-- Setting an entry that was zero adds one term. -/
theorem denseDot_set {row : Array ℕ} {w : Array Int} {i x : ℕ} {y : Int} (hrow : row[i]? = some 0)
    (hw : w[i]? = some y) : denseDot (row.setIfInBounds i x) w = denseDot row w + x * y := by
  rw [denseDot, Array.toList_setIfInBounds]
  exact sum_zipWith_set (by simpa using hrow) (by simpa using hw)

theorem denseDot_replicate (n : ℕ) (w : Array Int) : denseDot (Array.replicate n 0) w = 0 := by
  rw [denseDot, Array.toList_replicate]
  refine List.sum_eq_zero fun z hz => ?_
  obtain ⟨i, hi⟩ := List.mem_iff_getElem?.1 hz
  obtain ⟨x, y, hx, -, rfl⟩ := List.getElem?_zipWith_eq_some.1 hi
  rw [(List.mem_replicate.1 (List.mem_of_getElem? hx)).2]
  simp

/-- The terms of the nonzero entries of a row. -/
theorem Combination.mem_ofDense {row : Array ℕ} {t : Int × Int} :
    t ∈ (ofDense row).terms ↔ ∃ i x : ℕ, row[i]? = some x ∧ x ≠ 0 ∧ t = ((i : Int), (x : Int)) := by
  simp only [ofDense, List.mem_map, List.mem_filter, List.mem_zipIdx_iff_getElem?, decide_eq_true_eq,
    Array.getElem?_toList]
  constructor
  · rintro ⟨⟨x, i⟩, ⟨hx, hne⟩, rfl⟩
    exact ⟨i, x, hx, hne, rfl⟩
  · rintro ⟨i, x, hx, hne, rfl⟩
    exact ⟨(x, i), ⟨hx, hne⟩, rfl⟩

/-- The nonzero entries of a row stand in the order of their positions. -/
theorem Combination.sorted_ofDense (row : Array ℕ) :
    (ofDense row).terms.Pairwise (·.1 < ·.1) := by
  rw [ofDense, List.pairwise_map]
  refine List.Pairwise.filter _ ?_
  have hrange : (row.toList.zipIdx.map Prod.snd).Pairwise (· < ·) := by
    rw [List.zipIdx_map_snd]
    exact List.pairwise_lt_range'
  rw [List.pairwise_map] at hrange
  exact hrange.imp fun h => Int.ofNat_lt.2 h

/-! ## Writing terms -/

/-- What writing terms with distinct positions into a row leaves. -/
structure Written (ts : List (Int × Int)) (row row' : Array ℕ) : Prop where
  size : row'.size = row.size
  term : ∀ t ∈ ts, row'[t.1.toNat]? = some t.2.toNat
  rest : ∀ i : ℕ, (∀ t ∈ ts, t.1 ≠ i) → row'[i]? = row[i]?
  dot : ∀ w : Array Int, w.size = row.size → (∀ t ∈ ts, row[t.1.toNat]? = some 0) →
    ∃ n, Combination.dot w ts = .ok n ∧ denseDot row' w = denseDot row w + n

section
variable {s : System} {f : PrimeField}

/-- The dense writer accepts distinct positions in range with canonical coefficients. -/
theorem System.denseRow_written {l : Combination} (hl : l.Sparse f.p s.signals) :
    ∃ row, s.denseRow f l = .ok row ∧ Written l.terms (Array.replicate s.signals 0) row := by
  obtain ⟨hsorted, hbelow, hcoeff⟩ := hl
  have hnodup : (l.terms.map (·.1)).Nodup := hsorted.imp fun h => h.ne
  have hsize : (Array.replicate s.signals 0).size = s.signals := Array.size_replicate
  unfold denseRow
  generalize l.terms = ts at *
  generalize Array.replicate s.signals 0 = row at *
  induction ts generalizing row with
  | nil => exact ⟨row, rfl, rfl, by simp, fun _ _ => rfl, fun w _ _ => ⟨0, rfl, by simp⟩⟩
  | cons t ts ih =>
    obtain ⟨i, x⟩ := t
    simp only [List.forall_mem_cons] at hbelow hcoeff
    obtain ⟨⟨hi₀, hi⟩, hbelow⟩ := hbelow
    obtain ⟨⟨hx₀, hx⟩, hcoeff⟩ := hcoeff
    obtain ⟨k, rfl⟩ := Int.eq_ofNat_of_zero_le hi₀
    obtain ⟨hfresh, hnodup⟩ := List.nodup_cons.1 hnodup
    have hcan : f.isCanonical x = true := by
      simp only [PrimeField.isCanonical, Bool.and_eq_true, decide_eq_true_eq]
      omega
    have hk : k < row.size := by omega
    have hpos : position? row.size k = some k := by
      rw [position?, if_pos hi₀, if_pos (by omega), Int.toNat_natCast]
    obtain ⟨row', hrow', hw⟩ := ih hbelow hcoeff hnodup (row.setIfInBounds k x.toNat)
      (by rw [Array.size_setIfInBounds, hsize])
    -- a later term has another position
    have hother {t : Int × Int} (ht : t ∈ ts) : t.1 ≠ k := by
      rintro heq
      exact hfresh (List.mem_map.2 ⟨t, ht, heq⟩)
    refine ⟨row', ?_, ?_, ?_, ?_, ?_⟩
    · simp only [List.foldlM_cons, hcan, hpos, if_true]
      exact hrow'
    · rw [hw.size, Array.size_setIfInBounds]
    · refine List.forall_mem_cons.2 ⟨?_, hw.term⟩
      show row'[k]? = some x.toNat
      rw [hw.rest k fun t ht => hother ht, Array.getElem?_setIfInBounds_self_of_lt hk]
    · intro j hj
      obtain ⟨hkj, hj⟩ := List.forall_mem_cons.1 hj
      rw [hw.rest j hj, Array.getElem?_setIfInBounds_ne]
      rintro rfl
      exact hkj rfl
    · intro w hsizew hzero
      obtain ⟨hzk, hzero⟩ := List.forall_mem_cons.1 hzero
      rw [Int.toNat_natCast] at hzk
      obtain ⟨n, hn, hdot⟩ := hw.dot w (by rw [hsizew, Array.size_setIfInBounds]) fun t ht => by
        have hne := hother ht
        have hpos := (hbelow t ht).1
        rw [Array.getElem?_setIfInBounds_ne (by omega), hzero t ht]
      have hwk : w[k]? = some w[k] := Array.getElem?_eq_getElem (by omega)
      refine ⟨x * w[k] + n, ?_, ?_⟩
      · rw [Combination.dot, elementAt_natCast.2 hwk, hn]
        rfl
      · rw [hdot, denseDot_set hzk hwk, Int.toNat_of_nonneg (by omega)]
        ring

/-! ## Rows -/

/-- A dense row that stands for a combination: the entries of the combination, and
    the same value modulo `p` on every vector. -/
structure Combination.Dense (p n : ℕ) (l : Combination) (row : Array ℕ) : Prop where
  size : row.size = n
  canonical : ∀ x ∈ row, x < p
  entries : l = .ofDense row
  value : ∀ w : Array Int, w.size = n →
    ∃ k, l.evaluate w p = .ok k ∧ (k : ZMod p) = denseDot row w

/-- Strictly sorted terms are told by their members. -/
theorem Combination.eq_of_mem_iff {l l' : Combination} (h : l.terms.Pairwise (·.1 < ·.1))
    (h' : l'.terms.Pairwise (·.1 < ·.1)) (hmem : ∀ t, t ∈ l.terms ↔ t ∈ l'.terms) : l = l' := by
  have hnodup {m : List (Int × Int)} (hm : m.Pairwise (·.1 < ·.1)) : m.Nodup :=
    hm.imp fun hlt heq => absurd (congrArg Prod.fst heq) hlt.ne
  have hperm := (List.perm_ext_iff_of_nodup (hnodup h) (hnodup h')).2 hmem
  have heq : l.terms = l'.terms := by
    refine List.Perm.eq_of_pairwise ?_ h h' hperm
    intro a b _ _ hab hba
    exact absurd hab hba.not_gt
  cases l
  cases l'
  exact congrArg Combination.mk heq

/-- **The dense row of a sparse combination stands for it.** -/
theorem System.denseRow_dense {l : Combination} (hl : l.Sparse f.p s.signals) :
    ∃ row, s.denseRow f l = .ok row ∧ l.Dense f.p s.signals row := by
  obtain ⟨row, hrow, hw⟩ := denseRow_written hl
  have hsize : row.size = s.signals := by rw [hw.size, Array.size_replicate]
  have hzero {i : ℕ} (hi : i < s.signals) : (Array.replicate s.signals 0)[i]? = some 0 := by
    simp [hi]
  -- an entry was written by a term, or is zero
  have hentry {i x : ℕ} (hx : row[i]? = some x) : ((i : Int), (x : Int)) ∈ l.terms ∨ x = 0 := by
    have hi : i < s.signals := by
      rw [← hsize]
      exact (Array.getElem?_eq_some_iff.1 hx).1
    by_cases hterm : ∃ t ∈ l.terms, t.1 = i
    · obtain ⟨⟨j, y⟩, ht, rfl⟩ := hterm
      have hy := hw.term _ ht
      have hpos := (hl.coeff _ ht).1
      simp only [Int.toNat_natCast, hx, Option.some.injEq] at hy
      left
      rw [hy, Int.toNat_of_nonneg (by omega)]
      exact ht
    · push Not at hterm
      rw [hw.rest i hterm, hzero hi] at hx
      right
      exact (Option.some.inj hx).symm
  refine ⟨row, hrow, hsize, ?_, ?_, ?_⟩
  · intro x hx
    obtain ⟨i, hi⟩ := Array.mem_iff_getElem?.1 hx
    rcases hentry hi with ht | rfl
    · exact Int.ofNat_lt.1 (hl.coeff _ ht).2
    · exact f.p_pos
  · refine Combination.eq_of_mem_iff (List.pairwise_map.1 hl.sorted)
      (Combination.sorted_ofDense row) ?_
    intro t
    rw [Combination.mem_ofDense]
    constructor
    · intro ht
      have hpos := hl.coeff t ht
      have hbelow := hl.below t ht
      refine ⟨t.1.toNat, t.2.toNat, hw.term t ht, by omega, ?_⟩
      rw [Int.toNat_of_nonneg hbelow.1, Int.toNat_of_nonneg (by omega)]
    · rintro ⟨i, x, hx, hne, rfl⟩
      exact (hentry hx).resolve_right hne
  · intro w hsizew
    obtain ⟨n, hn, hdot⟩ := hw.dot w (by simpa using hsizew) fun t ht => by
      have := hl.below t ht
      exact hzero (by omega)
    have hp : (f.p : Int) ≠ 0 := by exact_mod_cast f.p_pos.ne'
    refine ⟨n.fmod f.p, ?_, ?_⟩
    · rw [Combination.evaluate, hn]
      exact if_neg hp
    · rw [hdot, denseDot_replicate, zero_add,
        Int.fmod_eq_emod_of_nonneg _ (Int.natCast_nonneg _), ZMod.intCast_mod]

/-- The rows of three dense matrices, side by side. -/
structure Constraint.Dense (p n : ℕ) (r : Constraint) (m : Array ℕ × Array ℕ × Array ℕ) : Prop where
  a : r.a.Dense p n m.1
  b : r.b.Dense p n m.2.1
  c : r.c.Dense p n m.2.2

/-- The dense writer goes through all rows. -/
theorem System.denseRows_dense : ∀ {rs : List Constraint},
    (∀ r ∈ rs, ∀ l ∈ r.sides, l.Sparse f.p s.signals) →
      ∃ rows, s.denseRows f rs = .ok rows ∧ List.Forall₂ (Constraint.Dense f.p s.signals) rs rows
  | [], _ => ⟨[], rfl, .nil⟩
  | r :: rs, h => by
    obtain ⟨hr, hrs⟩ := List.forall_mem_cons.1 h
    simp only [Constraint.sides, List.forall_mem_cons] at hr
    obtain ⟨a, ha, hda⟩ := denseRow_dense hr.1
    obtain ⟨b, hb, hdb⟩ := denseRow_dense hr.2.1
    obtain ⟨c, hc, hdc⟩ := denseRow_dense hr.2.2.1
    obtain ⟨rows, hrows, hall⟩ := denseRows_dense hrs
    refine ⟨(a, b, c) :: rows, ?_, .cons ⟨hda, hdb, hdc⟩ hall⟩
    rw [denseRows, ha, hb, hc, hrows]
    rfl

/-- A row holds on a vector iff its dense form does. -/
theorem Constraint.Dense.isSatisfied {r : Constraint} {m : Array ℕ × Array ℕ × Array ℕ} {n : ℕ}
    (h : r.Dense f.p n m) {w : Array Int} (hw : w.size = n) :
    ∃ ok, r.isSatisfied w f.p = .ok ok ∧ (ok = true ↔
      (f.p : Int) ∣ denseDot m.1 w * denseDot m.2.1 w - denseDot m.2.2 w) := by
  obtain ⟨ok, hok, hiff⟩ := isSatisfied_iff (h.a.value w hw) (h.b.value w hw) (h.c.value w hw)
  refine ⟨ok, hok, hiff.trans ?_⟩
  rw [← ZMod.intCast_zmod_eq_zero_iff_dvd, ← sub_eq_zero]
  push_cast
  rfl

end

/-! ## The field of a circuit -/

/-- A modulus that was accepted is accepted again. -/
theorem PrimeField.ofInt_p {n : Int} {f : PrimeField} (h : ofInt n = .ok f) : ofInt f.p = .ok f := by
  unfold ofInt at h
  split_ifs at h with htwo hprime
  cases h
  show ofInt (n.toNat : ℕ) = _
  generalize n.toNat = m at *
  rw [ofInt, dif_pos (by simpa using htwo)]
  simp [hprime]

/-- The modulus of a compiled circuit gives back its field. -/
theorem compile_field {σ : Type} {settings : Settings} {t : Template σ} {host : σ}
    {public_ : List String} {c : Circuit} (h : (compile settings t host public_).result = .ok c) :
    PrimeField.ofInt c.system.prime = .ok c.field := by
  obtain ⟨field, w, hf, hrun, hc⟩ := compile_spec h
  obtain ⟨-, -, w', hb, -, -, hfield, hprime, -⟩ := Circuit.ofWorkspace_eq_ok hc
  obtain ⟨-, ⟨ps, rfl⟩, -, -⟩ := Circuit.bindFrom_spec hb
  have hw : w.field = field := hrun.field
  rw [hprime, hfield]
  show PrimeField.ofInt w.field.p = .ok w.field
  rw [hw]
  unfold Settings.field Settings.fieldOf at hf
  obtain ⟨less, -, hf⟩ := bind_eq_ok.1 hf
  obtain ⟨small, -, hf⟩ := bind_eq_ok.1 hf
  split_ifs at hf
  · obtain ⟨text, -, hf⟩ := bind_eq_ok.1 hf
    cases hf
  · split at hf
    · exact PrimeField.ofInt_p hf
    · exact PrimeField.ofInt_p hf
    · cases hf

/-! ## Compiled circuits -/

/-- **Dense and sparse rows agree.**  The matrices of a compiled circuit, over its
    own field or over one that is given, have a row for each row of the system and a
    canonical entry for each signal; the nonzero entries of their rows are the terms
    of the sparse rows; and a row is violated by a vector of integers iff its dense
    form does not vanish modulo the prime. -/
theorem matrices_agree {σ : Type} {settings : Settings} {t : Template σ} {host : σ}
    {public_ : List String} {c : Circuit} (h : OwnCompilation settings t host public_ c)
    (hred : ∀ st ∈ executed settings t host, st.Reduced) :
    ∃ A B C, c.system.matrices none = .ok (A, B, C) ∧
      c.system.matrices (some c.field) = .ok (A, B, C) ∧
      (∀ M ∈ [A, B, C], M.length = c.system.constraints.length ∧
        ∀ row ∈ M, row.size = c.system.signals ∧ ∀ x ∈ row, x < c.field.p) ∧
      (∀ (k : ℕ) (r : Constraint), c.system.constraints[k]? = some r →
        A[k]?.map .ofDense = some r.a ∧ B[k]?.map .ofDense = some r.b ∧
          C[k]?.map .ofDense = some r.c) ∧
      ∀ w : Array Int, w.size = c.system.signals → ∃ bad, c.system.unsatisfiedRows w = .ok bad ∧
        ∀ (k : ℕ) (a b d : Array ℕ), A[k]? = some a → B[k]? = some b → C[k]? = some d →
          ((c.field.p : Int) ∣ denseDot a w * denseDot b w - denseDot d w ↔ k ∉ bad) := by
  have hc := h.coherent
  obtain ⟨rows, hrows, hall⟩ := System.denseRows_dense (hc.sparse h.own hred)
  have hmatrices : c.system.matrices (some c.field) =
      .ok (rows.map (·.1), rows.map (·.2.1), rows.map (·.2.2)) := by
    simp [System.matrices, bind, Except.bind, pure, Except.pure, hc.prime, hrows]
  have hdefault : c.system.matrices none = c.system.matrices (some c.field) := by
    rw [System.matrices, System.matrices, compile_field h.result]
    rfl
  have hshape {side : Array ℕ × Array ℕ × Array ℕ → Array ℕ}
      (hside : ∀ r m, Constraint.Dense c.field.p c.system.signals r m →
        (side m).size = c.system.signals ∧ ∀ x ∈ side m, x < c.field.p) :
      (rows.map side).length = c.system.constraints.length ∧
        ∀ row ∈ rows.map side, row.size = c.system.signals ∧ ∀ x ∈ row, x < c.field.p := by
    refine ⟨by rw [List.length_map, hall.length_eq], fun row hrow => ?_⟩
    obtain ⟨m, hm, rfl⟩ := List.mem_map.1 hrow
    obtain ⟨r, -, hr⟩ := forall₂_mem_right hall hm
    exact hside r m hr
  refine ⟨_, _, _, hdefault.trans hmatrices, hmatrices, ?_, ?_, ?_⟩
  · rw [List.forall_mem_cons, List.forall_mem_cons, List.forall_mem_singleton]
    exact ⟨hshape fun _ _ hr => ⟨hr.a.size, hr.a.canonical⟩,
      hshape fun _ _ hr => ⟨hr.b.size, hr.b.canonical⟩,
      hshape fun _ _ hr => ⟨hr.c.size, hr.c.canonical⟩⟩
  · intro k r hk
    obtain ⟨m, hm, hr⟩ := forall₂_getElem? hall.flip hk
    simp only [List.getElem?_map, hm, Option.map_some, ← hr.a.entries, ← hr.b.entries,
      ← hr.c.entries, and_self]
  · intro w hw
    have hsat : ∀ r ∈ c.system.constraints, ∃ ok, r.isSatisfied w c.system.prime = .ok ok := by
      intro r hr
      obtain ⟨m, -, hr⟩ := forall₂_mem_right hall.flip hr
      obtain ⟨ok, hok, -⟩ := hr.isSatisfied hw
      rw [hc.prime]
      exact ⟨ok, hok⟩
    obtain ⟨bad, hbad, -, hmem⟩ := System.unsatisfiedRows_eq hw hsat
    refine ⟨bad, hbad, ?_⟩
    intro k a b d ha hb hd
    simp only [List.getElem?_map, Option.map_eq_some_iff] at ha hb hd
    obtain ⟨m, hm, rfl⟩ := ha
    simp only [hm, Option.some.injEq, exists_eq_left'] at hb hd
    subst hb hd
    obtain ⟨r, hk, hr⟩ := forall₂_getElem? hall hm
    obtain ⟨ok, hok, hiff⟩ := hr.isSatisfied hw
    rw [← hiff, hmem, hc.prime]
    cases ok <;> simp [hk, hok]

/-- The matrices of the zero test modulo seven, and a vector without the constant that
    violates its first row. -/
theorem isZero_matrices_agree :
    ∃ c, (compile { prime := .int 7 } Gadget.isZeroTemplate () []).result = .ok c ∧
      c.system.matrices none = .ok ([#[0, 0, 6, 0], #[0, 1, 0, 0]],
        [#[0, 0, 0, 1], #[0, 0, 1, 0]], [#[6, 1, 0, 0], #[0, 0, 0, 0]]) ∧
      c.system.unsatisfiedRows #[2, 7, -4, 5] = .ok [0] ∧
      ¬ (c.field.p : Int) ∣ denseDot #[0, 0, 6, 0] #[2, 7, -4, 5] *
        denseDot #[0, 0, 0, 1] #[2, 7, -4, 5] - denseDot #[6, 1, 0, 0] #[2, 7, -4, 5] ∧
      (c.field.p : Int) ∣ denseDot #[0, 1, 0, 0] #[2, 7, -4, 5] *
        denseDot #[0, 0, 1, 0] #[2, 7, -4, 5] - denseDot #[0, 0, 0, 0] #[2, 7, -4, 5] := by
  obtain ⟨c, hc, hown, hred, hmatrices, hsize, hviolated⟩ := exists_ok
    (x := (compile { prime := .int 7 } Gadget.isZeroTemplate () []).result)
    (P := fun c =>
      (∀ st ∈ executed { prime := .int 7 } Gadget.isZeroTemplate (), st.Own c) ∧
      (∀ st ∈ executed { prime := .int 7 } Gadget.isZeroTemplate (), st.Reduced) ∧
      c.system.matrices none = .ok ([#[0, 0, 6, 0], #[0, 1, 0, 0]],
        [#[0, 0, 0, 1], #[0, 0, 1, 0]], [#[6, 1, 0, 0], #[0, 0, 0, 0]]) ∧
      c.system.signals = 4 ∧ c.system.unsatisfiedRows #[2, 7, -4, 5] = .ok [0])
    (by decide +kernel)
  obtain ⟨A, B, C, hm, -, -, -, hrows⟩ := matrices_agree ⟨hc, hown⟩ hred
  cases hmatrices.symm.trans hm
  obtain ⟨bad, hbad, hiff⟩ := hrows #[2, 7, -4, 5] (by rw [hsize]; rfl)
  cases hviolated.symm.trans hbad
  refine ⟨c, hc, hmatrices, hviolated, ?_, ?_⟩
  · rw [hiff 0 _ _ _ rfl rfl rfl]
    decide
  · rw [hiff 1 _ _ _ rfl rfl rfl]
    decide

/-- A kept signal from beyond the witness has no column. -/
theorem kept_signal_has_no_column :
    ∃ c, (compile { prime := .int 97 } reachingTemplate () []).result = .ok c ∧
      c.system.signals = 2 ∧
      c.system.constraints = [⟨⟨[]⟩, ⟨[]⟩, ⟨[(1, 1), (5, 96)]⟩, "main"⟩] ∧
      failure (c.system.matrices none) = some (.fault .index) :=
  exists_ok (by decide +kernel)

end RankOne
