/-
  RankOne — no template of the library leaves an output of a child unread.

  * `catalogue_keeps`: every program of the library hears the outputs of its children;
  * `Traced.bound`: if the main program does, then every component is bound in the
    workspace that the circuit is made of;
  * `Traced.reads_of_hears`, `Traced.dangling_eq_nil`: what a component hears, a row of it
    reads, and nothing is reported;
  * `library_outputs_read`: so it is for every template of the library.
-/
import RankOne.Proofs.Circuit.Dangling
import RankOne.Proofs.Gadget.Parents

namespace RankOne

open Build

/-! ## The library -/

namespace Gadget

variable {σ : Type} {W : Workspace}

theorem keeps_none_ {b : Build σ Unit} {P : List Declaration → Prop} (hb : Keeps W b P)
    (args : List Value) :
    Keeps W (Catalogue.none_ b args) fun _ => True := by
  intro id
  unfold Catalogue.none_
  split
  · exact (hb id).mono fun _ _ h => ⟨trivial, h.2⟩
  · exact ensures_throw _

theorem keeps_one {b : Value → Build σ Unit} {P : Value → List Declaration → Prop}
    (hb : ∀ x, Keeps W (b x) (P x)) (args : List Value) :
    Keeps W (Catalogue.one b args) fun _ => True := by
  intro id
  unfold Catalogue.one
  split
  · exact (hb _ id).mono fun _ _ h => ⟨trivial, h.2⟩
  · exact ensures_throw _

theorem keeps_two {b : Value → Value → Build σ Unit} {P : List Declaration → Prop}
    {args : List Value} (hb : ∀ x y, args = [x, y] → Keeps W (b x y) P) :
    Keeps W (Catalogue.two b args) fun _ => True := by
  intro id
  unfold Catalogue.two
  split
  · exact (hb _ _ rfl id).mono fun _ _ h => ⟨trivial, h.2⟩
  · exact ensures_throw _

/-- **Every program of the library hears the outputs of its children**, a multiplexer if it
    has a column. -/
theorem catalogue_keeps (hW : W.Sound) (ha : W.Apart) {name : String}
    {b : List Value → Build σ Unit} (hname : Catalogue.build? name = some b) {args : List Value}
    (hcolumn : name = "Multiplexer" → ∀ w n, args = [w, n] → ∀ k, w.index = .ok k → 1 ≤ k) :
    Keeps W (b args) fun _ => True := by
  obtain ⟨⟨name', b'⟩, hfind, rfl⟩ := Option.map_eq_some_iff.1 hname
  have hmem := List.mem_of_find?_eq_some hfind
  have hsame := List.find?_some hfind
  obtain rfl : name' = name := eq_of_beq hsame
  simp only [Catalogue.entries, List.mem_cons, Prod.mk.injEq, List.not_mem_nil, or_false] at hmem
  rcases hmem with ⟨-, rfl⟩ | ⟨-, rfl⟩ | ⟨-, rfl⟩ | ⟨-, rfl⟩ | ⟨-, rfl⟩ | ⟨-, rfl⟩ | ⟨-, rfl⟩ |
    ⟨-, rfl⟩ | ⟨-, rfl⟩ | ⟨-, rfl⟩ | ⟨-, rfl⟩ | ⟨-, rfl⟩ | ⟨-, rfl⟩ | ⟨hname', rfl⟩ | ⟨-, rfl⟩ |
    ⟨-, rfl⟩ | ⟨-, rfl⟩ | ⟨-, rfl⟩ | ⟨-, rfl⟩
  · exact keeps_none_ keeps_isZero args
  · exact keeps_none_ keeps_isEqual args
  · exact keeps_one keeps_numToBits args
  · exact keeps_one keeps_lessThan args
  · exact keeps_one (fun n => keeps_byLessThan hW ha n _) args
  · exact keeps_one (fun n => keeps_byLessThan hW ha n _) args
  · exact keeps_none_ keeps_assertBool args
  · exact keeps_none_ keeps_inverse args
  · exact keeps_one keeps_sum args
  · exact keeps_none_ keeps_square args
  · exact keeps_two fun n safe _ => keeps_quinSelector hW n safe
  · exact keeps_one keeps_decoder args
  · exact keeps_one keeps_escalarProduct args
  · exact keeps_two fun w n hargs => keeps_multiplexer hW ha (hcolumn hname' w n hargs) n
  · exact keeps_one (keeps_branch hW) args
  · exact keeps_one (keeps_factorial hW ha) args
  · exact keeps_one (keeps_fibonacci hW ha) args
  · exact keeps_one (keeps_power hW ha) args
  · exact keeps_one (keeps_swap hW) args

end Gadget

/-! ## Circuits -/

/-- A row lists what its sides list. -/
theorem Row.uid_mem_signals {row : Row} {e : Expr} {u : ℤ} (he : e ∈ [row.a, row.b, row.c])
    (hu : u ∈ e.linear.uids) : u ∈ row.signals.map (·.uid) := by
  have hside : u ∈ e.signals.map (·.uid) := by
    rw [Expr.signals, Signal.uid_mem_sorted, List.map_append, List.mem_append, List.map_map]
    exact Or.inl hu
  rw [Row.signals, Signal.uid_mem_sorted]
  simp only [List.mem_cons, List.not_mem_nil, or_false] at he
  simp only [List.map_append, List.mem_append]
  rcases he with rfl | rfl | rfl
  · exact Or.inl (Or.inl hside)
  · exact Or.inl (Or.inr hside)
  · exact Or.inr hside

section
variable {σ : Type} {settings : Settings} {t : Template σ} {host : σ} {public_ : List String}
  {c : Circuit} {w : Workspace} {id : ℕ} {s : Signal}

namespace Traced

/-- **Where the main program hears the outputs of its children, every component is
    bound.** -/
theorem bound (ht : Traced settings t host c w)
    (hbody : Keeps w t.body fun _ => True) (id : ℕ) : w.Bound id := by
  obtain ⟨field, w₁, host', hrun, hstill, hclose⟩ := ht.built
  have hruns : t.body.Runs 0 (t.opened field settings.dangling, host) _ () (w₁, host') :=
    ⟨Nat.zero_lt_one, hrun, rfl⟩
  have hleads : t.body.Leads w 0 (t.opened field settings.dangling, host) () (w₁, host') := by
    refine ⟨⟨_, hruns⟩, [], hclose.mono ?_ (Set.empty_subset _)⟩
    rintro j rfl
    exact Or.inl le_rfl
  have hstart : Ledger.Holds w 0 1 ⟨[], []⟩ (t.opened field settings.dangling) := by
    have hsize : (t.opened field settings.dangling).instances.size = 1 := rfl
    exact ⟨rfl, fun _ j hj hlt => by omega⟩
  obtain ⟨g, ⟨-, howed⟩, hg⟩ := hbody 0 1 _ () _ hleads hstart
  intro p hp
  have hid : id < w.instances.size := by
    by_contra hle
    rw [Workspace.instanceAt_of_le (not_lt.1 hle)] at hp
    cases hp
  have hpos : id ≠ 0 := by
    rintro rfl
    rw [ht.regular.tree.root] at hp
    cases hp
  exact hg.settled howed id (by omega) (hstill.size ▸ hid) p hp

theorem setOf_signals (ht : Traced settings t host c w) :
    {s | s ∈ c.signals} = {s | s ∈ w.signals} := Set.ext ht.signals

theorem field (ht : Traced settings t host c w) : c.field = w.field := by
  have hone : Workspace.one w.field ∈ w.signals := Array.mem_of_getElem? ht.regular.sound.first
  exact (ht.coherent.field _ ((ht.signals _).2 hone)).symm

/-- **What a component hears, a row of it reads.** -/
theorem reads_of_hears (ht : Traced settings t host c w) (h : w.Hears id s) (hs : s ∈ c.signals)
    (hk : s.kind ≠ .one) : c.Reads id s := by
  obtain ⟨k, hmem, row, hrow, e, he, hknows, huid⟩ := h
  obtain ⟨index, hi, hrows⟩ := ht.row
  obtain ⟨st, -, -, r, hr, hlow⟩ := hrows k row hrow
  have hside {l : Combination} (hl : Combination.ofExpr index e = .ok l) :
      ∃ t ∈ l.terms, t.1 = (c.place s : Int) ∧ ¬ (c.field.p : Int) ∣ t.2 := by
    refine (ht.coherent.side_reads hi hl ?_ hknows.canonical.clean.linear hs hk).2 huid
    rw [ht.field, ht.setOf_signals]
    exact hknows.isOver
  refine ⟨k, ?_, r, hr, ?_⟩
  · rw [ht.instanceAt]
    exact hmem
  · rw [ht.coherent.prime]
    simp only [List.mem_cons, List.not_mem_nil, or_false] at he
    rcases he with rfl | rfl | rfl
    · exact ⟨r.a, by simp [Constraint.sides], hside hlow.a⟩
    · exact ⟨r.b, by simp [Constraint.sides], hside hlow.b⟩
    · exact ⟨r.c, by simp [Constraint.sides], hside hlow.c⟩

/-- Where every component is bound, nothing dangled at the end of a build. -/
theorem dangling_eq_nil (ht : Traced settings t host c w) (hbound : ∀ id, w.Bound id)
    {q : ℕ × Workspace} (hq : q ∈ finished settings t host) : q.2.danglingOutputs q.1 = [] := by
  obtain ⟨hregular, w₀, hf⟩ := ht.finish q hq
  rw [Workspace.danglingOutputs_eq, List.map_eq_nil_iff, List.eq_nil_iff_forall_not_mem]
  intro s hs
  obtain ⟨⟨child, hchild, hout⟩, hunread⟩ := Workspace.mem_danglingSignals.1 hs
  obtain ⟨hkept, hentered⟩ := hf.child hregular.tree hchild
  rw [← hkept] at hout
  obtain ⟨k, hk, row, hrow, e, he, -, huid⟩ := hbound child.2 q.1 hentered.parent s hout
  refine hunread ((hf.referenced hregular.referenced s.uid).2 ⟨k, hk, row, hrow, ?_⟩)
  exact Row.uid_mem_signals he huid

end Traced

/-- **No template of the library leaves an output of a child unread**, a multiplexer if it
    has a column.  If it compiles where dangling outputs are reported, then nothing is
    reported, it compiles to the same circuit where they are errors, and every output of
    every component has a nonzero coefficient in a row of its parent. -/
theorem library_outputs_read {name : String} {b : List Value → Build σ Unit}
    (hname : Catalogue.build? name = some b) {args : List Value}
    (hcolumn : name = "Multiplexer" → ∀ w n, args = [w, n] → ∀ k, w.index = .ok k → 1 ≤ k)
    {application : Application} (hwarn : settings.dangling = .warn)
    (h : (compile settings ⟨application, b args⟩ host public_).result = .ok c) :
    c.dangling = [] ∧
      (compile settings.strict ⟨application, b args⟩ host public_).result =
        .ok { c with settings := settings.strict } ∧
      ∀ id p s, (c.instanceAt id).parent = some p → s ∈ (c.instanceAt id).outputs →
        c.Reads p s := by
  obtain ⟨w, ht⟩ := compile_traced h
  have hbound := ht.bound
    (Gadget.catalogue_keeps ht.regular.sound ht.regular.apart hname hcolumn)
  have hnil : c.dangling = [] := by
    rw [compile_dangling h hwarn, Workspace.reports, List.flatMap_eq_nil_iff]
    intro q hq
    exact ht.dangling_eq_nil hbound hq
  refine ⟨hnil, compile_strict h hwarn hnil, ?_⟩
  intro id p s hp hs
  rw [ht.instanceAt] at hp hs
  obtain ⟨hmem, hk⟩ := ht.output hs
  exact ht.reads_of_hears (hbound id p hp s hs) hmem hk

end

/-- A multiplexer of two columns and two rows, modulo seven. -/
theorem multiplexer_outputs_read : ∃ b c,
    (Catalogue.build? "Multiplexer" : Option (List Value → Build Unit Unit)) = some b ∧
      (compile { prime := .int 7 } ⟨.of "Multiplexer" [.int 2, .int 2], b [.int 2, .int 2]⟩ ()
        []).result = .ok c ∧
      (c.instances.toList.map fun i => i.path) =
        ["main", "main.dec", "main.ep[0]", "main.ep[1]"] ∧ c.dangling = [] ∧
      (compile (Settings.strict { prime := .int 7 })
        ⟨.of "Multiplexer" [.int 2, .int 2], b [.int 2, .int 2]⟩ () []).result =
          .ok { c with settings := Settings.strict { prime := .int 7 } } ∧
      ∀ id p s, (c.instanceAt id).parent = some p → s ∈ (c.instanceAt id).outputs →
        c.Reads p s := by
  obtain ⟨c, h, hpaths⟩ := exists_ok
    (x := (compile { prime := .int 7 } ⟨.of "Multiplexer" [.int 2, .int 2],
      Catalogue.two Gadget.multiplexer [.int 2, .int 2]⟩ () []).result)
    (P := fun c => (c.instances.toList.map fun i => i.path) =
      ["main", "main.dec", "main.ep[0]", "main.ep[1]"]) (by decide +kernel)
  have hname : (Catalogue.build? "Multiplexer" : Option (List Value → Build Unit Unit)) =
      some (Catalogue.two Gadget.multiplexer) := rfl
  refine ⟨_, c, hname, h, hpaths, ?_⟩
  refine library_outputs_read hname ?_ rfl h
  intro _ w n hargs k hk
  cases hargs
  cases hk
  decide

end RankOne
