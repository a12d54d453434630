/-
  RankOne — values that are supplied more than once.

  A signal may be supplied under several spellings: within an array, by its indices, and with
  the main component in front.

  * `loadInputs_nodup`: inputs load only if the names of the main inputs are distinct;
  * `lastLeaf_insert`: an item counts for nothing if each of its keys comes again later;
  * `loadSignals_congr`: only what is found under a key counts for loading;
  * `last_leaf_kept`: a witness holds the last leaf of a key, and no other.
-/
import RankOne.Proofs.Circuit.Dangling
import RankOne.Proofs.Witness.Boundary

namespace RankOne.Witness

section
variable {c : Circuit} {sts : List Statement}

/-! ## Names -/

/-- A second signal of the same name would be missing. -/
theorem loadSignals_nodup (hc : c.Coherent sts) {ss : List Signal} (hss : ∀ s ∈ ss, s ∈ c.signals) :
    ∀ {values values' : Known} {missing : List String} {given given' : Mapping},
      loadSignals c ss values missing given = .ok (values', [], given') →
        (ss.map inputName).Nodup := by
  induction ss with
  | nil => exact fun _ => List.nodup_nil
  | cons s ss ih =>
    intro values values' missing given given' h
    have hss' := (List.forall_mem_cons.1 hss).2
    rw [loadSignals] at h
    split at h
    · obtain ⟨hm, -⟩ := loadSignals_spec hc hss' h
      exact absurd hm (by simp)
    · obtain ⟨n, -, h⟩ := bind_eq_ok.1 h
      refine List.nodup_cons.2 ⟨fun hmem => ?_, ih hss' h⟩
      obtain ⟨u, hu, hname⟩ := List.mem_map.1 hmem
      obtain ⟨-, -, hfound, -⟩ := loadSignals_spec hc hss' h
      obtain ⟨x, -, hx, -⟩ := hfound u hu
      exact (Mapping.find?_erase hx).1 hname

theorem loadInputs_nodup (hc : c.Coherent sts) {inputs : Mapping} {values known : Known}
    (h : loadInputs c inputs values = .ok known) : ((inputSignals c).map inputName).Nodup :=
  loadSignals_nodup hc (fun s hs => ((hc.inputs s).1 hs).1) (loadInputs_eq_ok.1 h)

/-! ## Discarded items -/

theorem lastLeaf_cons {inputs : Mapping} {p : String × Value} {key : String} {x : Value} :
    LastLeaf (p :: inputs) key x ↔
      LastLeaf inputs key x ∨ Leaf p key x ∧ ∀ q ∈ inputs, ∀ y, ¬ Leaf q key y := by
  constructor
  · rintro ⟨pre, q, post, heq, hq, hpost⟩
    cases pre with
    | nil =>
      obtain ⟨rfl, rfl⟩ := List.cons.inj heq
      exact Or.inr ⟨hq, hpost⟩
    | cons p' pre =>
      obtain ⟨rfl, rfl⟩ := List.cons.inj heq
      exact Or.inl ⟨pre, q, post, rfl, hq, hpost⟩
  · rintro (⟨pre, q, post, rfl, hq, hpost⟩ | ⟨hp, hnone⟩)
    · exact ⟨p :: pre, q, post, rfl, hq, hpost⟩
    · exact ⟨[], p, inputs, rfl, hp, hnone⟩

/-- An item counts for nothing if each of its keys comes again later. -/
theorem lastLeaf_insert {pre post : Mapping} {p : String × Value}
    (hp : ∀ key x, Leaf p key x → ∃ q ∈ post, ∃ y, Leaf q key y) {key : String} {x : Value} :
    LastLeaf (pre ++ p :: post) key x ↔ LastLeaf (pre ++ post) key x := by
  induction pre with
  | nil =>
    rw [List.nil_append, List.nil_append, lastLeaf_cons, or_iff_left]
    rintro ⟨hx, hnone⟩
    obtain ⟨q, hq, y, hy⟩ := hp key x hx
    exact hnone q hq y hy
  | cons r pre ih =>
    have hlater : (∀ q ∈ pre ++ p :: post, ∀ y, ¬ Leaf q key y) ↔
        ∀ q ∈ pre ++ post, ∀ y, ¬ Leaf q key y := by
      simp only [List.forall_mem_append, List.forall_mem_cons]
      refine and_congr_right fun _ => ⟨And.right, fun hpost => ⟨fun y hy => ?_, hpost⟩⟩
      obtain ⟨q, hq, z, hz⟩ := hp key y hy
      exact hpost q hq z hz
    rw [List.cons_append, List.cons_append, lastLeaf_cons, lastLeaf_cons, ih, hlater]

theorem Mapping.find?_erase_self (m : Mapping) (name : String) :
    (m.erase name).find? name = none :=
  Option.eq_none_iff_forall_ne_some.2 fun _ h => (find?_erase h).1 rfl

/-- Only what is found under a key counts for loading. -/
theorem loadSignals_congr {ss : List Signal} : ∀ {values known : Known}
    {missing missing' : List String} {given given' rest : Mapping},
      (∀ key, given.find? key = given'.find? key) →
      loadSignals c ss values missing given = .ok (known, missing', rest) →
      ∃ rest', loadSignals c ss values missing given' = .ok (known, missing', rest') ∧
        ∀ key, rest.find? key = rest'.find? key := by
  induction ss with
  | nil =>
    intro values known missing missing' given given' rest hfind h
    cases h
    exact ⟨given', rfl, hfind⟩
  | cons s ss ih =>
    intro values known missing missing' given given' rest hfind h
    rw [loadSignals] at h ⊢
    rw [← hfind]
    split at h
    · exact ih hfind h
    · obtain ⟨n, hn, h⟩ := bind_eq_ok.1 h
      rw [hn]
      refine ih (fun key => ?_) h
      by_cases hkey : key = inputName s
      · rw [hkey]
        exact (Mapping.find?_erase_self _ _).trans (Mapping.find?_erase_self _ _).symm
      · exact (Mapping.find?_erase_of_ne hkey).trans
          ((hfind key).trans (Mapping.find?_erase_of_ne hkey).symm)

/-- Mappings with the same last leaves load the same. -/
theorem loadInputs_congr {inputs inputs' : Mapping}
    (hlast : ∀ key x, LastLeaf inputs key x ↔ LastLeaf inputs' key x) {values known : Known}
    (h : loadInputs c inputs values = .ok known) : loadInputs c inputs' values = .ok known := by
  have hfind (key : String) : (entries inputs).find? key = (entries inputs').find? key := by
    refine Option.ext fun x => ?_
    rw [find?_entries, find?_entries, hlast]
  obtain ⟨rest, hl, hrest⟩ := loadSignals_congr hfind (loadInputs_eq_ok.1 h)
  -- nothing is found in what is left over, so nothing is left over
  obtain rfl : rest = [] := by
    refine List.eq_nil_iff_forall_not_mem.2 fun p hp => ?_
    have hnone : Mapping.find? rest p.1 = none := (hrest p.1).symm
    rw [Mapping.find?, Option.map_eq_none_iff, List.find?_eq_none] at hnone
    exact hnone p hp (by simp)
  exact loadInputs_eq_ok.2 hl

end

/-! ## Compiled circuits -/

/-- **The last leaf is kept.**  Whenever the inputs of a compiled circuit are accepted, every
    leaf names exactly one main input, and the witness gives that the last leaf of its key,
    where the rules compute signals of the circuit.  Hence no leaf is lost if no two items
    share a key; but an item of which every key comes again later may be put in or left out,
    whatever its value. -/
theorem last_leaf_kept {σ : Type} {settings : Settings} {t : Template σ} {host : σ}
    {public_ : List String} {c : Circuit} (h : (compile settings t host public_).result = .ok c)
    {inputs overrides : Mapping} {w : Witness} (hw : evaluate c inputs overrides = .ok w) :
    (∀ p ∈ inputs, ∀ key x, Leaf p key x →
      ∃! s, s ∈ inputSignals c ∧ s.path = "main." ++ key) ∧
    ((∀ r ∈ c.rules, r.target ∈ c.signals) →
      (∀ key x, LastLeaf inputs key x → ∀ s ∈ inputSignals c, s.path = "main." ++ key →
        Admits c.settings.inputs c.field x (w.valueOf s)) ∧
      (inputs.Pairwise (fun p q => ∀ key x y, Leaf p key x → ¬ Leaf q key y) →
        ∀ p ∈ inputs, ∀ key x, Leaf p key x → ∀ s ∈ inputSignals c, s.path = "main." ++ key →
          Admits c.settings.inputs c.field x (w.valueOf s))) ∧
    ∀ pre post p, inputs = pre ++ post →
      (∀ key x, Leaf p key x → ∃ q ∈ post, ∃ y, Leaf q key y) →
        evaluate c (pre ++ p :: post) overrides = .ok w := by
  have hc := compile_coherent h
  have hpath {s : Signal} (hs : s ∈ inputSignals c) := compile_input_path h hs
  obtain ⟨rfl, ⟨known, hload⟩, hvalues⟩ := evaluate_input hc hw
  have hnames := loadInputs_nodup hc hload
  have hkept (htargets : ∀ r ∈ w.circuit.rules, r.target ∈ w.circuit.signals) {key : String}
      {x : Value} (hx : LastLeaf inputs key x) {s : Signal} (hs : s ∈ inputSignals w.circuit)
      (hkey : s.path = "main." ++ key) :
      Admits w.circuit.settings.inputs w.circuit.field x (w.valueOf s) := by
    obtain ⟨y, hy, hvalue⟩ := hvalues htargets s hs
    rw [hpath hs, String.append_right_inj] at hkey
    rw [hkey] at hy
    cases hx.find?.symm.trans hy.find?
    exact hvalue
  refine ⟨fun p hp key x hx => ?_, fun htargets => ⟨fun key x hx s hs => hkept htargets hx hs,
    fun hpairs => ?_⟩, ?_⟩
  · have ha := (loads_iff hc (fun s hs => hpath hs) hnames).1 ⟨known, hload⟩
    obtain ⟨s, hs, hkey⟩ := (ha.keys key).1 ⟨p, hp, x, hx⟩
    refine ⟨s, ⟨hs, hkey⟩, fun u hu => List.inj_on_of_nodup_map hnames hu.1 hs ?_⟩
    rw [inputName, inputName, hu.2, hkey]
  · intro p hp key x hx s hs
    obtain ⟨pre, post, rfl⟩ := List.append_of_mem hp
    have hpost := (List.pairwise_cons.1 (List.pairwise_append.1 hpairs).2.1).1
    exact hkept htargets ⟨pre, p, post, rfl, hx, fun q hq y => hpost q hq key x y hx⟩ hs
  · rintro pre post p rfl hp
    have hsame := loadInputs_congr (fun key x => (lastLeaf_insert hp).symm) hload
    rw [evaluate, compute, hload] at hw
    rw [evaluate, compute, hsame]
    exact hw

/-- Of a copy modulo 97 the input is supplied by its path; a truth value under its name is
    put in before, which is no field element. -/
theorem copy_last_leaf_kept :
    ∃ c, (compile { prime := .int 97 } copyTemplate () []).result = .ok c ∧
      ∃ w, evaluate c [("main.in", .int 2)] [] = .ok w ∧
        (∀ s ∈ inputSignals c, s.path = "main.in" →
          Admits c.settings.inputs c.field (.int 2) (w.valueOf s)) ∧
        evaluate c [("in", .bool true), ("main.in", .int 2)] [] = .ok w := by
  obtain ⟨c, hc, htargets, hw⟩ := exists_ok
    (x := (compile { prime := .int 97 } copyTemplate () []).result)
    (P := fun c => (∀ r ∈ c.rules, r.target ∈ c.signals) ∧
      (evaluate c [("main.in", .int 2)] []).toOption.any (fun w =>
        decide (w.values = #[1, 2, 2])) = true)
    (by decide +kernel)
  obtain ⟨w, hw, -⟩ := exists_ok hw
  obtain ⟨-, hlast, hput⟩ := last_leaf_kept hc hw
  have hleaf : Leaf ("main.in", .int 2) "in" (.int 2) := ⟨[], .leaf rfl, by decide +kernel⟩
  refine ⟨c, hc, w, hw, fun s hs hpath => ?_, ?_⟩
  · exact (hlast htargets).1 "in" (.int 2) ⟨[], _, [], rfl, hleaf, nofun⟩ s hs hpath
  · refine hput [] _ ("in", .bool true) rfl fun key x hx => ?_
    obtain ⟨is, hwithin, rfl⟩ := hx
    cases hwithin with
    | leaf => exact ⟨_, List.mem_cons_self, .int 2, [], .leaf rfl, by decide +kernel⟩
    | item h => cases h

/-- A copy modulo 97 is given two different values for its input, and the first one is
    lost without an error. -/
theorem repeated_leaf_lost :
    ∃ c, (compile { prime := .int 97 } copyTemplate () []).result = .ok c ∧
      ∃ w, evaluate c [("in", .int 1), ("main.in", .int 2)] [] = .ok w ∧
        Leaf ("in", .int 1) "in" (.int 1) ∧ Leaf ("main.in", .int 2) "in" (.int 2) ∧
        ∃ s ∈ inputSignals c, s.path = "main.in" ∧
          ¬ Admits c.settings.inputs c.field (.int 1) (w.valueOf s) := by
  obtain ⟨c, hc, ⟨s, hs, hpath⟩, hp, hw⟩ := exists_ok
    (x := (compile { prime := .int 97 } copyTemplate () []).result)
    (P := fun c => (∃ s ∈ inputSignals c, s.path = "main.in") ∧ c.field.p = 97 ∧
      (evaluate c [("in", .int 1), ("main.in", .int 2)] []).toOption.any (fun w =>
        decide (∀ s ∈ inputSignals c, w.valueOf s = 2)) = true)
    (by decide +kernel)
  obtain ⟨w, hw, hvalue⟩ := exists_ok hw
  refine ⟨c, hc, w, hw, ⟨[], .leaf rfl, by decide +kernel⟩, ⟨[], .leaf rfl, by decide +kernel⟩,
    s, hs, hpath, ?_⟩
  rintro ⟨n, hn, -, hm⟩
  cases hn
  rw [hvalue s hs, hp] at hm
  exact absurd hm (by decide)

end RankOne.Witness
