/-
  RankOne — the values that a verifier sees.

  * `Nested.flat`, `flat_collect`: nested values row by row are the values of the
    signals of their bus;
  * `values_toList`: the witness lists the values of the signals by position;
  * `publicValues_eq`: the public values are those of the outputs and of the public
    inputs, one by one;
  * `witness_layout`: what the layout of a compiled circuit is, what its rows are
    like, and what follows for the public values of its witnesses.
-/
import RankOne.Build.Statement
import RankOne.Proofs.Circuit.Arranged
import RankOne.Proofs.Circuit.Sparse
import RankOne.Witness.Evaluate

namespace RankOne.Witness

/-! ## Nested values -/

mutual

/-- Nested values, row by row. -/
def Nested.flat : Nested → List ℕ
  | .value n => [n]
  | .items xs => Nested.flatItems xs

/-- The values of a list of nested values. -/
def Nested.flatItems : List Nested → List ℕ
  | [] => []
  | x :: xs => x.flat ++ Nested.flatItems xs

end

mutual

/-- The values of a bus are those of its signals. -/
theorem flat_collect (w : Witness) : ∀ b : Bus, (w.collect b).flat = b.flat.map w.valueOf
  | .single _ => rfl
  | .array items _ _ => flatItems_collectItems w items

theorem flatItems_collectItems (w : Witness) : ∀ bs : List Bus,
    Nested.flatItems (w.collectItems bs) = (Bus.flatItems bs).map w.valueOf
  | [] => rfl
  | b :: bs => by
    rw [collectItems, Nested.flatItems, Bus.flatItems, List.map_append, flat_collect w b,
      flatItems_collectItems w bs]

end

/-! ## Values by position -/

section
variable {c : Circuit} {ss : List Signal} {w : Witness}

/-- A witness belongs to its circuit and has a value for every signal. -/
theorem evaluate_size {inputs overrides : Mapping} (h : evaluate c inputs overrides = .ok w) :
    w.circuit = c ∧ w.values.size = c.system.signals := by
  obtain ⟨values, -, h⟩ := bind_eq_ok.1 h
  obtain ⟨⟨⟩, hverify, h⟩ := bind_eq_ok.1 h
  cases h
  obtain ⟨bad, hbad, -⟩ := bind_eq_ok.1 hverify
  refine ⟨rfl, ?_⟩
  by_contra hsize
  rw [System.unsatisfiedRows, if_pos (by simpa using hsize)] at hbad
  cases hbad

variable (ha : c.Arranged ss) (hw : w.circuit = c) (hsize : w.values.size = c.system.signals)

section
include ha hw hsize

/-- The witness lists the values of the signals by position. -/
theorem values_toList : w.values.toList = c.signals.toList.map w.valueOf := by
  refine List.ext_getElem? fun i => ?_
  rw [List.getElem?_map, Array.getElem?_toList, Array.getElem?_toList]
  by_cases hi : i < c.signals.size
  · have hget := Array.getElem?_eq_getElem hi
    have hi' : i < w.values.size := by rwa [hsize, ← ha.size]
    rw [hget, Option.map_some, valueOf, hw, ha.place i _ hget, Array.getD_eq_getD_getElem?,
      Array.getElem?_eq_getElem hi']
    rfl
  · have hle : c.signals.size ≤ i := not_lt.1 hi
    have hle' : w.values.size ≤ i := by rwa [hsize, ← ha.size]
    rw [Array.getElem?_eq_none hle, Array.getElem?_eq_none hle']
    rfl

/-- **The public values are those of the outputs and of the public inputs.** -/
theorem publicValues_eq :
    w.publicValues = (Circuit.outputsOf ss ++ c.publicSignals).map w.valueOf := by
  have hcount : c.system.publicCount = (Circuit.outputsOf ss ++ c.publicSignals).length := by
    rw [System.publicCount, ha.outputCount, ha.publicCount, List.length_append]
  rw [publicValues, values_toList ha hw hsize, hw, hcount, ha.order, List.map_cons,
    List.drop_succ_cons, List.drop_zero, List.append_assoc, List.map_append, ← List.length_map,
    List.take_left]

end

section
include ha hw

/-- The outputs of a witness, row by row. -/
theorem flat_outputs : w.outputs.flatMap (·.2.flat) = (Circuit.outputsOf ss).map w.valueOf := by
  rw [outputs, hw, List.flatMap_map, Circuit.outputsOf, ha.listed, List.map_flatMap]
  exact List.flatMap_congr fun d _ => flat_collect w d.bus

/-- The values of a public input. -/
theorem value_public {n : String} (hn : n ∈ c.publicInputs) :
    ∃ v, w.value n = .ok v ∧
      v.flat = (Circuit.inputSignals c.mainInstance n).map w.valueOf := by
  obtain ⟨d, hd, rfl, hflat⟩ := ha.publics n hn
  have hfind := find?_of_nodup ha.names (List.mem_of_mem_filter hd)
  refine ⟨w.collect d.bus, ?_, by rw [hflat, flat_collect]⟩
  rw [value, hw, hfind]

/-- The values of public inputs, one after another. -/
theorem mapM_value : ∀ {ns : List String}, (∀ n ∈ ns, n ∈ c.publicInputs) →
    ∃ vs, ns.mapM w.value = .ok vs ∧
      vs.flatMap Nested.flat =
        (ns.flatMap (Circuit.inputSignals c.mainInstance)).map w.valueOf
  | [], _ => ⟨[], rfl, rfl⟩
  | n :: ns, hns => by
    rw [List.forall_mem_cons] at hns
    obtain ⟨v, hv, hflat⟩ := value_public ha hw hns.1
    obtain ⟨vs, hvs, hrest⟩ := mapM_value hns.2
    refine ⟨v :: vs, mapM_eq_ok.2 (.cons hv (mapM_eq_ok.1 hvs)), ?_⟩
    rw [List.flatMap_cons, List.flatMap_cons, List.map_append, hflat, hrest]

end

end

/-! ## Compiled circuits -/

/-- **The layout of a compiled circuit.**  Its positions are a bijection onto the
    numbers below the witness length: the constant, the main outputs, the public
    inputs as listed, the private inputs, and all other signals.  The sides of its
    rows are sparse combinations over these positions, and the public values of a
    witness are those of the outputs and of the public inputs, row by row. -/
theorem witness_layout {σ : Type} {settings : Settings} {t : Template σ} {host : σ}
    {public_ : List String} {c : Circuit} (h : (compile settings t host public_).result = .ok c) :
    (c.Arranged (declaredSignals settings t host) ∧ c.publicInputs = public_) ∧
    (∀ r ∈ c.system.constraints, ∀ l ∈ r.sides,
      l.indices.Pairwise (· < ·) ∧ ∀ t ∈ l.terms, 1 ≤ t.2) ∧
    ((∀ st ∈ executed settings t host, st.Own c ∧ st.Reduced) →
      ∀ r ∈ c.system.constraints, ∀ l ∈ r.sides, l.Sparse c.field.p c.system.signals) ∧
    ∀ inputs overrides w, evaluate c inputs overrides = .ok w →
      ∃ vs, public_.mapM w.value = .ok vs ∧
        w.publicValues = w.outputs.flatMap (·.2.flat) ++ vs.flatMap Nested.flat := by
  have hc := compile_coherent h
  obtain ⟨ha, rfl⟩ := compile_arranged h
  refine ⟨⟨ha, rfl⟩, hc.sorted, fun hst => ?_, fun inputs overrides w heval => ?_⟩
  · exact hc.sparse (fun st h => (hst st h).1) fun st h => (hst st h).2
  · obtain ⟨hw, hsize⟩ := evaluate_size heval
    obtain ⟨vs, hvs, hflat⟩ := mapM_value ha hw fun _ => id
    refine ⟨vs, hvs, ?_⟩
    rw [publicValues_eq ha hw hsize, List.map_append, flat_outputs ha hw, hflat]
    rfl

open Build in
/-- The sums of two rows, each with a factor, and their total: an array without
    signals, inputs around the outputs, and an intermediate before them. -/
def rowSums : Build Unit Unit := do
  let m ← matrix .input "m" (.int 2) (.int 2)
  let _ ← signals .output "none" (.int 0)
  let t ← signal .intermediate "t"
  let total ← signal .output "total"
  let key ← signal .input "key"
  let k ← signal .input "k"
  let out ← signals .output "out" (.int 2)
  let three ← const 3
  let sums := m.map fun row => row.foldl (fun e s => e.add (.ofSignal s)) three
  assign t ((Expr.ofSignal k).add (.ofSignal key))
  let products ← (sums.zip [t, k]).mapM fun q => times q.1 (.ofSignal q.2)
  assignAll out products
  assign total (out.foldl (fun e s => e.add (.ofSignal s)) three)

/-- The template of these sums. -/
def rowSumsTemplate : Template Unit := ⟨.of "RowSums" [], rowSums⟩

/-- Two rows of two, and the two factors. -/
def rowSumsInputs : Mapping :=
  [("k", .int 6), ("key", .int 5),
    ("m", .list [.list [.int 1, .int 2], .list [.int 3, .int 4]])]

/-- The row sums modulo 97 with two public inputs, listed against the order of their
    declaration, and the public values of a witness. -/
theorem rowSums_layout :
    ∃ c, (compile { prime := .int 97 } rowSumsTemplate () ["k", "m"]).result = .ok c ∧
      c.signals.toList.map (·.path) = ["one", "main.total", "main.out[0]", "main.out[1]", "main.k",
        "main.m[0][0]", "main.m[0][1]", "main.m[1][0]", "main.m[1][1]", "main.key", "main.t"] ∧
      c.Arranged (declaredSignals { prime := .int 97 } rowSumsTemplate ()) ∧
      (∀ r ∈ c.system.constraints, ∀ l ∈ r.sides, l.Sparse c.field.p c.system.signals) ∧
      ∃ w vs, evaluate c rowSumsInputs [] = .ok w ∧ ["k", "m"].mapM w.value = .ok vs ∧
        w.publicValues = [32, 66, 60, 6, 1, 2, 3, 4] ∧
        w.publicValues = w.outputs.flatMap (·.2.flat) ++ vs.flatMap Nested.flat := by
  obtain ⟨c, hc, hpaths, hst, hpublic⟩ := exists_ok
    (x := (compile { prime := .int 97 } rowSumsTemplate () ["k", "m"]).result)
    (P := fun c =>
      c.signals.toList.map (·.path) = ["one", "main.total", "main.out[0]", "main.out[1]", "main.k",
        "main.m[0][0]", "main.m[0][1]", "main.m[1][0]", "main.m[1][1]", "main.key", "main.t"] ∧
      (∀ st ∈ executed { prime := .int 97 } rowSumsTemplate (), st.Own c ∧ st.Reduced) ∧
      (evaluate c rowSumsInputs []).toOption.any (fun w =>
        decide (w.publicValues = [32, 66, 60, 6, 1, 2, 3, 4])) = true)
    (by decide +kernel)
  obtain ⟨⟨ha, -⟩, -, hsparse, hvalues⟩ := witness_layout hc
  obtain ⟨w, hw, hvalue⟩ := exists_ok hpublic
  obtain ⟨vs, hvs, hflat⟩ := hvalues rowSumsInputs [] w hw
  exact ⟨c, hc, hpaths, ha, hsparse hst, w, vs, hw, hvs, hvalue, hflat⟩

/-- The row of a kept signal has an index that the witness does not have. -/
theorem kept_signal_beyond_witness :
    ∃ c, (compile { prime := .int 97 } reachingTemplate () []).result = .ok c ∧
      c.system.signals = 2 ∧
      c.system.constraints = [⟨⟨[]⟩, ⟨[]⟩, ⟨[(1, 1), (5, 96)]⟩, "main"⟩] ∧
      failure (c.system.unsatisfiedRows #[1, 0]) = some (.fault .index) :=
  exists_ok (by decide +kernel)

end RankOne.Witness
