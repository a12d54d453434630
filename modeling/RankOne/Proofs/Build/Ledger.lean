/-
  RankOne — what the builds of a component ensure.

  Builds are followed towards the workspace `W` that a compilation ends with.

  * `Ledger`: what a component has declared, and which outputs of its children it has
    still to mention;
  * `Build.Leads`, `Build.Ensures`: a run of a build on the way to `W`, and what holds of
    the result and the ledger after each of them;
  * `Ensures.bind`, `ensures_signal`, `ensures_assign`, `ensures_place`, …: sequences, the
    requests, and children.
-/
import RankOne.Proofs.Build.Attribution
import RankOne.Proofs.Build.Hearing
import RankOne.Proofs.Build.Trace

namespace RankOne

namespace Workspace

/-! ## Declarations of others -/

section
variable {w w₁ : Workspace} {here : ℕ}

theorem declarations_reserve (here : ℕ) (name : String) (j : ℕ) :
    (((reserve here name).run.run w).2.instanceAt j).declarations =
      (w.instanceAt j).declarations := by
  rw [reserve, Work.run_bind, Work.run_get]
  dsimp only
  split
  · rfl
  · rw [Work.run_modify, instanceAt_updateInstance]
    split_ifs <;> rfl

theorem declarations_occupy (here : ℕ) (place : Place) (j : ℕ) :
    (((occupy here place).run.run w).2.instanceAt j).declarations =
      (w.instanceAt j).declarations := by
  cases place with
  | named name =>
    have hreserve := declarations_reserve (w := w) here name j
    rw [occupy, Work.run_bind]
    rcases hr : (reserve here name).run.run w with ⟨e | u, w₁⟩ <;> rw [hr] at hreserve <;>
      exact hreserve
  | slot a i =>
    have hsame : ((occupy here (.slot a i)).run.run w).2 = w := by
      rw [occupy]
      split
      · rfl
      · split
        · rfl
        · rw [Work.run_bind, Work.run_get]
          dsimp only
          split
          · rfl
          · rw [Work.run_bind, Work.run_get]
            dsimp only
            split <;> rfl
    rw [hsame]

/-- Entering a child declares nothing. -/
theorem declarations_openChild (here : ℕ) (place : Place) (application : Application) {j : ℕ}
    (hj : j < w.instances.size) :
    (((openChild here place application).run.run w).2.instanceAt j).declarations =
      (w.instanceAt j).declarations := by
  have hoccupy := declarations_occupy (w := w) here place j
  have hsize := (quiet_occupy (w := w) here place).still.size
  rw [openChild, Work.run_bind]
  rcases hr : (occupy here place).run.run w with ⟨e | ⟨parent, name⟩, w₁⟩ <;>
    rw [hr] at hoccupy hsize <;> dsimp only at hoccupy hsize
  · exact hoccupy
  · change (instanceAt { w₁ with instances := w₁.instances.push _ } j).declarations = _
    rw [instanceAt_push, if_neg (by omega)]
    exact hoccupy

/-- Leaving a child declares nothing. -/
theorem declarations_closeChild (place : Place) (parent : ℕ) (name : String) (id : ℕ)
    (built : Except Error Unit) (j : ℕ) :
    (((closeChild place parent name id built).run.run w).2.instanceAt j).declarations =
      (w.instanceAt j).declarations := by
  cases built with
  | error e => rfl
  | ok u =>
    rw [closeChild, Work.run_bind, Work.run_liftM]
    dsimp only
    rw [Work.run_bind]
    have hcheck : (((checkDangling id).run.run w).2.instanceAt j).declarations =
        (w.instanceAt j).declarations := by
      rw [checkDangling, Work.run_bind, Work.run_get]
      dsimp only
      split <;> rfl
    rcases hd : (checkDangling id).run.run w with ⟨e | u, w₁⟩ <;> rw [hd] at hcheck
    · exact hcheck
    · simp only [Work.run_bind, Work.run_modify, Work.run_get]
      rw [← hcheck]
      cases place
      · change ((w₁.updateInstance parent _).instanceAt j).declarations = _
        rw [instanceAt_updateInstance]
        split_ifs <;> rfl
      · change ((w₁.updateInstance parent _).instanceAt j).declarations = _
        rw [instanceAt_updateInstance]
        split_ifs <;> rfl

/-- A child that was left shows what it declared. -/
theorem closeChild_eq_ok {place : Place} {parent id : ℕ} {name : String} {c : Component}
    (h : (closeChild place parent name id (.ok ())).run.run w = (.ok c, w₁)) :
    c.id = id ∧ c.declarations = (w₁.instanceAt id).declarations := by
  rw [closeChild, Work.run_bind, Work.run_liftM] at h
  dsimp only at h
  rw [Work.run_bind] at h
  rcases hd : (checkDangling id).run.run w with ⟨e | v, w₂⟩ <;> rw [hd] at h
  · cases h
  · simp only [Work.run_bind, Work.run_modify, Work.run_get] at h
    cases place <;> cases h <;> exact ⟨rfl, rfl⟩

end

end Workspace

/-! ## Ledgers -/

/-- The outputs among declarations. -/
def Declaration.outputs (ds : List Declaration) : List Signal :=
  (Declaration.withRole ds .output).flatMap (·.bus.flat)

/-- The books of a component: what it has declared, and the outputs of its children that
    it has still to hear. -/
structure Ledger where
  declared : List Declaration
  owed : List Signal

namespace Ledger

/-- One more declaration. -/
def declare (g : Ledger) (d : Declaration) : Ledger := { g with declared := g.declared ++ [d] }

/-- The outputs of one more child. -/
def owe (g : Ledger) (ss : List Signal) : Ledger := { g with owed := g.owed ++ ss }

/-- The books are right: if the component comes to hear all that it owes, then the
    components from the `n`-th on are bound. -/
structure Holds (W : Workspace) (here n : ℕ) (g : Ledger) (w : Workspace) : Prop where
  declared : (w.instanceAt here).declarations = g.declared
  settled : (∀ u ∈ g.owed, W.Hears here u) → ∀ j, n ≤ j → j < w.instances.size → W.Bound j

end Ledger

namespace Build

variable {σ α β : Type}

/-- A run of a build in a component, on the way to `W`.  Afterwards act the component,
    those before it, and those that are entered later. -/
structure Leads (W : Workspace) (here : ℕ) (b : Build σ α) (s : Workspace × σ) (a : α)
    (s' : Workspace × σ) : Prop where
  runs : ∃ sts, b.Runs here s sts a s'
  after : ∃ sts, Workspace.Run {j | j ≤ here ∨ s'.1.instances.size ≤ j} Set.univ s'.1 sts W

/-- What holds of the result and the ledger after every run of a build to `W`. -/
def Ensures (W : Workspace) (here : ℕ) (g : Ledger) (b : Build σ α) (Q : α → Ledger → Prop) :
    Prop :=
  ∀ n s a s', b.Leads W here s a s' → g.Holds W here n s.1 → ∃ g', Q a g' ∧ g'.Holds W here n s'.1

section
variable {W : Workspace} {here : ℕ} {g : Ledger} {s s' : Workspace × σ} {b : Build σ α}
  {x : Build σ α} {f : α → Build σ β} {Q R : α → Ledger → Prop} {T : β → Ledger → Prop}

theorem leads_bind {b : β} (h : (x >>= f).Leads W here s b s') :
    ∃ a s₁, x.Leads W here s a s₁ ∧ (f a).Leads W here s₁ b s' := by
  obtain ⟨⟨sts, hr⟩, ys, hafter⟩ := h
  obtain ⟨a, s₁, xs, zs, hx, hf, -⟩ := runs_bind hr
  refine ⟨a, s₁, ⟨⟨xs, hx⟩, zs ++ ys, ?_⟩, ⟨zs, hf⟩, ys, hafter⟩
  have hle := hf.size_le
  refine (hf.chain.mono ?_ subset_rfl).trans (hafter.mono ?_ subset_rfl)
  · rintro j (rfl | hj)
    · exact Or.inl le_rfl
    · exact Or.inr hj
  · rintro j (hj | hj)
    · exact Or.inl hj
    · exact Or.inr (hle.trans hj)

/-- **What a sequence ensures is what its parts ensure.** -/
theorem Ensures.bind (hx : x.Ensures W here g Q)
    (hf : ∀ a g', Q a g' → (f a).Ensures W here g' T) : (x >>= f).Ensures W here g T := by
  intro n s b s' h hg
  obtain ⟨a, s₁, hxs, hfs⟩ := leads_bind h
  obtain ⟨g₁, hQ, hg₁⟩ := hx n s a s₁ hxs hg
  exact hf a g₁ hQ n s₁ b s' hfs hg₁

/-- A first part that leaves the ledger as it is. -/
theorem Ensures.next {P : α → Prop} (hx : x.Ensures W here g fun a g' => g' = g ∧ P a)
    (hf : ∀ a, P a → (f a).Ensures W here g T) : (x >>= f).Ensures W here g T := by
  refine hx.bind ?_
  rintro a _ ⟨rfl, ha⟩
  exact hf a ha

theorem Ensures.mono (h : b.Ensures W here g Q) (hR : ∀ a g', Q a g' → R a g') :
    b.Ensures W here g R := by
  intro n s a s' hs hg
  obtain ⟨g', hQ, hg'⟩ := h n s a s' hs hg
  exact ⟨g', hR a g' hQ, hg'⟩

theorem ensures_pure {a : α} (h : Q a g) : (pure a : Build σ α).Ensures W here g Q := by
  rintro n s a' s' ⟨⟨sts, hr⟩, -⟩ hg
  obtain ⟨rfl, rfl, -⟩ := runs_pure hr
  exact ⟨g, h, hg⟩

theorem ensures_demand {r : Except Error α} (h : ∀ a, r = .ok a → Q a g) :
    (demand r : Build σ α).Ensures W here g Q := by
  rintro n s a s' ⟨⟨sts, hr⟩, -⟩ hg
  obtain ⟨ha, rfl, -⟩ := runs_demand hr
  exact ⟨g, h a ha, hg⟩

theorem ensures_throw (e : Error) : (throw e : Build σ α).Ensures W here g Q := by
  rintro n s a s' ⟨⟨sts, hr⟩, -⟩ hg
  cases hr.run

/-- **What a component has come to hear, it does not owe.** -/
theorem Ensures.settle {P : α → Prop} (h : b.Ensures W here g fun a g' =>
      g'.declared = g.declared ∧ (∀ u ∈ g'.owed, u ∈ g.owed ∨ W.Hears here u) ∧ P a) :
    b.Ensures W here g fun a g' => g' = g ∧ P a := by
  intro n s a s' hs hg
  obtain ⟨g', ⟨hdeclared, howed, ha⟩, hg'⟩ := h n s a s' hs hg
  refine ⟨g, ⟨rfl, ha⟩, hg'.declared.trans hdeclared, ?_⟩
  intro hheard
  refine hg'.settled ?_
  intro u hu
  rcases howed u hu with hu | hu
  · exact hheard u hu
  · exact hu

/-- A build after which the ledger is as it was before. -/
def Balanced (W : Workspace) (here : ℕ) (b : Build σ α) : Prop :=
  ∀ g, b.Ensures W here g fun _ g' => g' = g

theorem Balanced.next (hx : x.Balanced W here) (hf : ∀ a, (f a).Ensures W here g T) :
    (x >>= f).Ensures W here g T := by
  refine (hx g).bind ?_
  rintro a _ rfl
  exact hf a

theorem balanced_of_settled (h : ∀ g, b.Ensures W here g fun _ g' =>
      g'.declared = g.declared ∧ ∀ u ∈ g'.owed, u ∈ g.owed ∨ W.Hears here u) :
    b.Balanced W here := by
  intro g
  have hsettled : b.Ensures W here g fun _ g' => g' = g ∧ True := by
    refine Ensures.settle ((h g).mono ?_)
    rintro a g' ⟨hdeclared, howed⟩
    exact ⟨hdeclared, howed, trivial⟩
  refine hsettled.mono ?_
  rintro a g' ⟨hg, -⟩
  exact hg

end

/-! ## Requests -/

/-- A build that declares nothing and places no child, whatever it is run for. -/
def Idle (b : Build σ α) : Prop := ∀ W here, b.Balanced W here

theorem Idle.next {x : Build σ α} {f : α → Build σ β} {T : β → Ledger → Prop} {W : Workspace}
    {here : ℕ} {g : Ledger} (hx : Idle x) (hf : ∀ a, (f a).Ensures W here g T) :
    (x >>= f).Ensures W here g T := (hx W here).next hf

theorem Idle.bind {x : Build σ α} {f : α → Build σ β} (hx : Idle x) (hf : ∀ a, Idle (f a)) :
    Idle (x >>= f) := fun W here g => hx.next fun a => hf a W here g

theorem Idle.ensures {b : Build σ α} {Q : α → Ledger → Prop} {W : Workspace} {here : ℕ} {g : Ledger}
    (hb : Idle b) (hQ : ∀ a, Q a g) : b.Ensures W here g Q := by
  refine (hb W here g).mono ?_
  rintro a _ rfl
  exact hQ a

theorem idle_pure (a : α) : Idle (pure a : Build σ α) := fun _ _ _ => ensures_pure rfl

theorem idle_demand (r : Except Error α) : Idle (demand r : Build σ α) :=
  fun _ _ _ => ensures_demand fun _ _ => rfl

theorem idle_throw (e : Error) : Idle (throw e : Build σ α) := fun _ _ _ => ensures_throw e

section
variable {W : Workspace} {here : ℕ} {g : Ledger} {s s' : Workspace × σ}

/-- Only declarations add to what a component has declared. -/
theorem declarations_request {c : Command} (hc : ∀ role name dims, c ≠ .declare role name dims)
    {sts : List Statement} {a : c.Reply} (h : (request c : Build σ c.Reply).Runs here s sts a s') :
    (s'.1.instanceAt here).declarations = (s.1.instanceAt here).declarations := by
  obtain ⟨hrun, -⟩ := runs_request h
  obtain ⟨w', host'⟩ := s'
  cases c with
  | path | field | inspect | log => cases hrun; rfl
  | declare role name dims => exact absurd rfl (hc role name dims)
  | slots name dims =>
    have hreserve := Workspace.declarations_reserve (w := s.1) here name here
    rw [Command.perform, Workspace.declareSlots, Work.run_bind] at hrun
    rcases hr : (Workspace.reserve here name).run.run s.1 with ⟨e | u, w₁⟩ <;>
      rw [hr] at hrun hreserve <;> dsimp only at hrun
    · cases hrun
    · rw [Work.run_bind, Work.run_liftM] at hrun
      rcases dims with e | dims <;> dsimp only at hrun
      · cases hrun
      · split at hrun
        · cases hrun
        · rw [Work.run_bind, Work.run_get] at hrun
          dsimp only at hrun
          rw [Work.run_bind, Work.run_liftM] at hrun
          rcases hp : Workspace.checkPlaces w₁.signals.size dims with e | u <;> rw [hp] at hrun <;> cases hrun
          exact hreserve
  | misplace => exact a.elim
  | slot array i label =>
    rw [Command.perform, Workspace.readSlot] at hrun
    split at hrun
    · cases hrun
    · split at hrun
      · cases hrun; rfl
      · rw [Work.run_bind, Work.run_get] at hrun
        dsimp only at hrun
        split at hrun <;> cases hrun
        rfl
  | assign target value =>
    cases value with
    | error e =>
      simp only [Command.perform, Workspace.assign, Work.run_bind, Work.run_get,
        Work.run_liftM] at hrun
      rcases hw : Workspace.writable (s.1.instanceAt here) target with e' | u <;>
        rw [hw] at hrun <;> cases hrun
    | ok e => exact congrArg Sight.declarations (Workspace.assign_eq_ok h.lt hrun)
  | constrain l r =>
    have hsight := Workspace.constrain_eq_ok h.lt hrun
    split_ifs at hsight <;> exact congrArg Sight.declarations hsight
  | hint target hint deps =>
    cases deps with
    | error e =>
      simp only [Command.perform, Workspace.hint, Workspace.addHint, Work.run_bind, Work.run_get,
        Work.run_liftM] at hrun
      rcases hw : Workspace.writable (s.1.instanceAt here) target with e' | u <;>
        rw [hw] at hrun <;> dsimp only at hrun
      · cases hrun
      · rcases hd : s.1.draft.hint target hint (.error e) (s.1.instanceAt here).path with
          e' | draft <;> rw [hd] at hrun
        · cases hrun
        · obtain ⟨-, _, hdeps, -⟩ := Draft.hint_eq_ok hd
          cases hdeps
    | ok deps => exact congrArg Sight.declarations (Workspace.hint_eq_ok hrun)
  | bind x p =>
    rw [Command.perform, Workspace.bindPosition, Work.run_bind, Work.run_get] at hrun
    dsimp only at hrun
    split at hrun <;> cases hrun
    rfl

theorem size_request {c : Command} {sts : List Statement} {a : c.Reply}
    (h : (request c : Build σ c.Reply).Runs here s sts a s') :
    s'.1.instances.size = s.1.instances.size := by
  obtain ⟨hrun, -⟩ := runs_request h
  have hsize := (perform_cases h.lt c).size
  rwa [hrun] at hsize

/-- A request that declares nothing leaves the ledger as it is. -/
theorem ensures_request {c : Command} (hc : ∀ role name dims, c ≠ .declare role name dims)
    {P : c.Reply → Prop}
    (hP : ∀ (s : Workspace × σ) a s', (request c : Build σ c.Reply).Leads W here s a s' → P a) :
    (request c : Build σ c.Reply).Ensures W here g fun a g' => g' = g ∧ P a := by
  intro n s a s' h hg
  refine ⟨g, ⟨rfl, hP s a s' h⟩, ?_⟩
  obtain ⟨⟨sts, hr⟩, -⟩ := h
  refine ⟨(declarations_request hc hr).trans hg.declared, ?_⟩
  rw [size_request hr]
  exact hg.settled

theorem idle_request {c : Command} (hc : ∀ role name dims, c ≠ .declare role name dims) :
    Idle (request c : Build σ c.Reply) := by
  intro W here g
  refine (ensures_request (P := fun _ => True) hc fun _ _ _ _ => trivial).mono ?_
  rintro a g' ⟨hg, -⟩
  exact hg

theorem idle_field : Idle (field : Build σ PrimeField) := idle_request (by simp)

theorem idle_path : Idle (path : Build σ String) := idle_request (by simp)

theorem idle_assign (target : Signal) (e : Expr) : Idle (assign target e : Build σ Unit) :=
  idle_request (by simp)

theorem idle_constrain (l r : Expr) : Idle (constrain l r : Build σ Unit) :=
  idle_request (by simp)

theorem idle_hint (target : Signal) (h : Hint) (dep : Expr) :
    Idle (hint target h dep : Build σ Unit) := idle_request (by simp)

theorem idle_log (text : String) : Idle (log text : Build σ Unit) :=
  idle_path.bind fun _ => idle_request (by simp)

theorem idle_const (n : Int) : Idle (const n : Build σ Expr) :=
  idle_field.bind fun _ => idle_pure _

theorem idle_times (a b : Expr) : Idle (times a b : Build σ Expr) := idle_demand _

theorem idle_assignAll : ∀ (ts : List Signal) (es : List Expr),
    Idle (assignAll ts es : Build σ Unit)
  | [], _ | _ :: _, [] => idle_pure _
  | t :: ts, e :: es => (idle_assign t e).bind fun _ => idle_assignAll ts es

theorem idle_slotItems (a : SlotArray) : ∀ is : List ℕ,
    Idle (slotItems a is : Build σ (List Value))
  | [] => idle_pure _
  | _ :: is => (idle_request (by simp)).bind fun _ =>
    (idle_slotItems a is).bind fun _ => idle_pure _

theorem idle_items (v : Value) : Idle (items v : Build σ (List Value)) := by
  unfold items
  split
  · exact (idle_demand _).bind fun n => idle_slotItems _ _
  · exact idle_demand _
  · exact idle_demand _

theorem Leads.field {α : Type} {b : Build σ α} {a : α} (h : b.Leads W here s a s') :
    W.field = s.1.field := by
  obtain ⟨⟨sts, hr⟩, ys, hafter⟩ := h
  exact hafter.field.trans hr.chain.field

theorem ensures_field : (field : Build σ PrimeField).Ensures W here g
    fun f g' => g' = g ∧ f = W.field := by
  refine ensures_request (by simp) ?_
  intro s f s' h
  obtain ⟨sts, hr⟩ := h.runs
  rw [h.field]
  exact (runs_field hr).2.1

theorem ensures_const (n : Int) : (const n : Build σ Expr).Ensures W here g
    fun e g' => g' = g ∧ e = .ofInt W.field n := by
  refine ensures_field.next ?_
  rintro f rfl
  exact ensures_pure ⟨rfl, rfl⟩

theorem ensures_times (a b : Expr) : (times a b : Build σ Expr).Ensures W here g
    fun e g' => g' = g ∧ a.mul b = .ok e := by
  refine ensures_demand ?_
  intro e he
  exact ⟨rfl, he⟩

/-- The row of a statement stands in the final workspace. -/
theorem Leads.emits {c : Command} {st : Statement} {a : c.Reply}
    (h : (request c : Build σ c.Reply).Leads W here s a s')
    (hst : c.statement? (s.1.instanceAt here).path = some st) (hrow : st.emitsRow = true) :
    ∃ row, st.Emits row ∧ ∃ k ∈ (W.instanceAt here).rows, W.draft.rows[k]? = some row := by
  obtain ⟨⟨sts, hr⟩, ys, hafter⟩ := h
  obtain ⟨hrun, hsts⟩ := runs_request hr
  have hperformed := perform_cases hr.lt c
  have hexecuted : c.executed here s.1 = [st] := by
    rw [Command.executed_of_answered hrun, hst]
    rfl
  rw [hrun, hexecuted] at hperformed
  obtain ⟨row, hemits, k, hk, hget⟩ := hperformed.emitted hr.lt hrow
  refine ⟨row, hemits, k, (hafter.grows here).2 hk, ?_⟩
  rw [hafter.row? (Array.getElem?_eq_some_iff.1 hget).1, hget]

theorem ensures_assign (target : Signal) (e : Expr) :
    (assign target e : Build σ Unit).Ensures W here g
      fun _ g' => g' = g ∧ W.Emits here (e.sub (.ofSignal target)) := by
  refine ensures_request (by simp) ?_
  intro s u s' h
  obtain ⟨row, hemits, k, hk, hget⟩ := h.emits rfl rfl
  cases hemits with
  | assign htoRow => exact ⟨k, hk, _, hget, htoRow⟩

theorem ensures_constrain (l r : Expr) : (constrain l r : Build σ Unit).Ensures W here g
    fun _ g' => g' = g ∧ (max l.degree r.degree ≠ 0 → W.Emits here (l.sub r)) := by
  refine ensures_request (by simp) ?_
  intro s u s' h hdegree
  obtain ⟨row, hemits, k, hk, hget⟩ := h.emits rfl (bne_iff_ne.2 hdegree)
  cases hemits with
  | constrain htoRow => exact ⟨k, hk, _, hget, htoRow⟩

theorem ensures_slots (name : String) (n : Value) :
    (slots name n : Build σ SlotArray).Ensures W here g
      fun a g' => g' = g ∧ a.owner = here := by
  refine ensures_request (by simp) ?_
  intro s a s' h
  obtain ⟨sts, hr⟩ := h.runs
  obtain ⟨hrun, -⟩ := runs_request hr
  rw [Command.perform, Workspace.declareSlots, Work.run_bind] at hrun
  rcases hr : (Workspace.reserve here name).run.run s.1 with ⟨e | u, w₁⟩ <;> rw [hr] at hrun <;>
    dsimp only at hrun
  · cases hrun
  · rw [Work.run_bind, Work.run_liftM] at hrun
    rcases hdims : sizes [n] with e | dims <;> rw [hdims] at hrun <;> dsimp only at hrun
    · cases hrun
    · split at hrun
      · cases hrun
      · rw [Work.run_bind, Work.run_get] at hrun
        dsimp only at hrun
        rw [Work.run_bind, Work.run_liftM] at hrun
        rcases hp : Workspace.checkPlaces w₁.signals.size dims with e | u <;> rw [hp] at hrun <;>
          dsimp only at hrun
        · cases hrun
        · obtain ⟨ha, -⟩ := Prod.ext_iff.1 hrun
          cases ha
          rfl

/-! ## Declarations -/

theorem ensures_declare (role : Role) (name : String) (dims : List Value) :
    (declare role name dims : Build σ Bus).Ensures W here g fun bus g' =>
      g' = g.declare ⟨name, role, bus⟩ ∧ (∀ x ∈ bus.flat, W.Has here role x) ∧
        ∃ ds, sizes dims = .ok ds ∧ ∃ component mark path ss,
          bus = (Workspace.makeBus W.field role component (ds.map Int.toNat) mark path ss).1 := by
  intro n s bus s' h hg
  have hfield := h.field
  obtain ⟨⟨sts, hr⟩, ys, hafter⟩ := h
  obtain ⟨-, hsight, ds, hds, hbus⟩ := runs_declare hr
  have hdeclared : (s'.1.instanceAt here).declarations =
      (s.1.instanceAt here).declarations ++ [⟨name, role, bus⟩] :=
    congrArg Sight.declarations hsight
  rw [← hfield] at hbus
  refine ⟨_, ⟨rfl, ?_, ds, hds, _, _, _, _, hbus⟩, ?_, ?_⟩
  · intro x hx
    refine ⟨⟨name, role, bus⟩, (hafter.grows here).1 ?_, rfl, hx⟩
    rw [hdeclared]
    exact List.mem_append_right _ (List.mem_singleton_self _)
  · rw [hdeclared, hg.declared]
    rfl
  · rw [size_request hr]
    exact hg.settled

theorem ensures_signal (role : Role) (name : String) :
    (signal role name : Build σ Signal).Ensures W here g fun x g' =>
      g' = g.declare ⟨name, role, .single x⟩ ∧ W.Has here role x := by
  refine (ensures_declare role name []).bind ?_
  rintro bus _ ⟨rfl, hhas, -⟩
  cases bus with
  | single x => exact ensures_pure ⟨rfl, hhas x (List.mem_singleton_self x)⟩
  | array => exact ensures_throw _

/-- A row of signals has the size that was asked for. -/
theorem length_flat_makeBus (f : PrimeField) (role : Role) (component : String) (d : ℕ)
    (mark : Mark) (path : String) (ss : Array Signal) :
    (Workspace.makeBus f role component [d] mark path ss).1.flat.length = d := by
  have hpaths := congrArg List.length (Workspace.paths_makeBus f role component [d] mark path ss)
  simpa [rowMajor] using hpaths

theorem ensures_signals (role : Role) (name : String) (n : Value) :
    (signals role name n : Build σ (List Signal)).Ensures W here g fun xs g' =>
      (∃ bus, g' = g.declare ⟨name, role, bus⟩ ∧ bus.flat = xs) ∧
        (∀ x ∈ xs, W.Has here role x) ∧ ∃ k, n.index = .ok k ∧ xs.length = k.toNat := by
  refine (ensures_declare role name [n]).bind ?_
  rintro bus _ ⟨rfl, hhas, ds, hds, component, mark, path, ss, hbus⟩
  refine ensures_pure ⟨⟨bus, rfl, rfl⟩, hhas, ?_⟩
  rw [sizes, List.mapM_cons, bind_eq_ok] at hds
  obtain ⟨k, hk, hds⟩ := hds
  cases hds
  refine ⟨k, hk, ?_⟩
  rw [hbus]
  exact length_flat_makeBus W.field role component _ mark path ss

/-- Rows of signals, all of one length. -/
theorem ensures_matrix (role : Role) (name : String) (m n : Value) :
    (matrix role name m n : Build σ (List (List Signal))).Ensures W here g fun xss g' =>
      (∃ bus, g' = g.declare ⟨name, role, bus⟩) ∧ (∀ xs ∈ xss, ∀ x ∈ xs, W.Has here role x) ∧
        ∃ i j, m.index = .ok i ∧ n.index = .ok j ∧ xss.length = i.toNat ∧
          ∀ xs ∈ xss, xs.length = j.toNat := by
  refine (ensures_declare role name [m, n]).bind ?_
  rintro bus _ ⟨rfl, hhas, ds, hds, component, mark, path, ss, hbus⟩
  rw [sizes, List.mapM_cons, bind_eq_ok] at hds
  obtain ⟨i, hi, hds⟩ := hds
  rw [List.mapM_cons] at hds
  obtain ⟨js, hjs, hds⟩ := bind_eq_ok.1 hds
  obtain ⟨j, hj, hjs⟩ := bind_eq_ok.1 hjs
  cases hjs
  cases hds
  rw [List.map_cons, Workspace.makeBus_cons] at hbus
  rw [hbus] at hhas ⊢
  refine ensures_pure ⟨⟨_, rfl⟩, ?_, i, j, hi, hj, ?_, ?_⟩
  · intro xs hxs x hx
    obtain ⟨item, hitem, rfl⟩ := List.mem_map.1 hxs
    exact hhas x (Bus.mem_flatItems hitem hx)
  · rw [List.length_map, Workspace.length_makeItems, List.length_range]
  · intro xs hxs
    obtain ⟨item, hitem, rfl⟩ := List.mem_map.1 hxs
    obtain ⟨mark', path', ss', rfl⟩ := Workspace.mem_makeItems _ _ _ hitem
    exact length_flat_makeBus W.field role component _ mark' path' ss'

/-! ## Terminals -/

theorem ensures_terminalSignal (c : Component) (name : String) :
    (terminalSignal c name : Build σ Signal).Ensures W here g fun x g' =>
      g' = g ∧ c.terminal name = .ok (.single x) := by
  refine Ensures.next (P := fun bus => c.terminal name = .ok bus) ?_ ?_
  · exact ensures_demand fun bus hbus => ⟨rfl, hbus⟩
  · intro bus hbus
    cases bus with
    | single x => exact ensures_pure ⟨rfl, hbus⟩
    | array => exact ensures_throw _

theorem ensures_terminalSignals (c : Component) (name : String) :
    (terminalSignals c name : Build σ (List Signal)).Ensures W here g fun xs g' =>
      g' = g ∧ ∃ bus, c.terminal name = .ok bus ∧ bus.flat = xs := by
  refine Ensures.next (P := fun bus => c.terminal name = .ok bus) ?_ ?_
  · exact ensures_demand fun bus hbus => ⟨rfl, hbus⟩
  · intro bus hbus
    exact ensures_pure ⟨rfl, bus, hbus, rfl⟩

theorem idle_terminalSignal (c : Component) (name : String) :
    Idle (terminalSignal c name : Build σ Signal) := by
  intro W here g
  refine (ensures_terminalSignal c name).mono ?_
  rintro x g' ⟨hg, -⟩
  exact hg

theorem idle_terminalSignals (c : Component) (name : String) :
    Idle (terminalSignals c name : Build σ (List Signal)) := by
  intro W here g
  refine (ensures_terminalSignals c name).mono ?_
  rintro x g' ⟨hg, -⟩
  exact hg

end

/-! ## Children -/

/-- What the program of a template ensures in every component that is built by it: its
    declarations are as `P` says, and it hears all that it owes. -/
def Keeps (W : Workspace) (b : Build σ Unit) (P : List Declaration → Prop) : Prop :=
  ∀ id, b.Ensures W id ⟨[], []⟩ fun _ g => P g.declared ∧ ∀ u ∈ g.owed, W.Hears id u

section
variable {W : Workspace} {here : ℕ} {g : Ledger} {s s' : Workspace × σ}

/-- The stages of a run that places a child. -/
theorem runs_place {place : Place} {t : Template σ} {sts : List Statement} {c : Component}
    (h : (Build.place place t).Runs here s sts c s') :
    ∃ parent name id w₁ w₂ host,
      (Workspace.openChild here place t.application).run.run s.1 = (.ok (parent, name, id), w₁) ∧
      t.body.Runs id (w₁, s.2) (Program.statements t.body.run id (w₁, s.2)) () (w₂, host) ∧
      (Workspace.closeChild place parent name id (.ok ())).run.run w₂ = (.ok c, s'.1) := by
  obtain ⟨hlt, hrun, -⟩ := h
  obtain ⟨w, host⟩ := s
  rw [Build.place] at hrun
  simp only [ExceptT.run_mk, Program.run] at hrun
  rcases ho : (Workspace.openChild here place t.application).run.run w with
    ⟨e | ⟨parent, name, id⟩, w₁⟩ <;> rw [ho] at hrun <;> dsimp only at hrun
  · cases hrun
  · rcases hb : Program.run t.body.run id (w₁, host) with ⟨built, w₂, host₂⟩
    rw [hb] at hrun
    dsimp only at hrun
    obtain ⟨hc, rfl⟩ := Prod.ext_iff.1 hrun
    dsimp only at hc
    have hclose : (Workspace.closeChild place parent name id built).run.run w₂ =
        (.ok c, ((Workspace.closeChild place parent name id built).run.run w₂).2) :=
      Prod.ext hc rfl
    obtain rfl := Workspace.built_of_closeChild hclose
    obtain ⟨-, hsize, -⟩ := Workspace.openChild_eq_ok ho
    exact ⟨parent, name, id, w₁, w₂, host₂, rfl, ⟨by dsimp only; omega, hb, rfl⟩, hclose⟩

theorem declarations_fresh {place : Place} {application : Application} {parent id : ℕ}
    {name : String} {w w₁ : Workspace}
    (h : (Workspace.openChild here place application).run.run w = (.ok (parent, name, id), w₁)) :
    (w₁.instanceAt id).declarations = [] := by
  obtain ⟨w₀, hfresh⟩ := Workspace.instanceAt_openChild h
  rw [hfresh]
  rfl

/-- **A parent owes the outputs of a child**, and nothing else that its program entered. -/
theorem ensures_place {p : Place} {t : Template σ} {P : List Declaration → Prop}
    (howner : p.owner here = here) (hbody : Keeps W t.body P) :
    (Build.place p t).Ensures W here g fun c g' =>
      g' = g.owe (Declaration.outputs c.declarations) ∧ P c.declarations ∧ c.id ≠ here ∧
        c.declarations = (W.instanceAt c.id).declarations := by
  rintro n s c s' ⟨⟨sts, hr⟩, ys, hafter⟩ hg
  have hlt := hr.lt
  obtain ⟨parent, name, id, w₁, w₂, host, hopen, hruns, hclose⟩ := runs_place hr
  obtain ⟨hid, hsize, -⟩ := Workspace.openChild_eq_ok hopen
  obtain rfl : parent = here := (Workspace.openChild_owner hlt hopen).trans howner
  obtain ⟨hcid, hcdecl⟩ := Workspace.closeChild_eq_ok hclose
  have hentered := Workspace.entered_of_openChild hopen hruns.chain
  have hleave := Workspace.run_closeChild parent hentered hclose
  have hle₂ := hruns.size_le
  have hle₃ := hleave.size_le
  dsimp only at hle₂ hle₃
  -- the child leads to the final workspace, too
  have hlater : Workspace.Run {j | j ≤ id ∨ w₂.instances.size ≤ j} Set.univ w₂ ([] ++ ys) W := by
    refine (hleave.mono ?_ (Set.subset_univ _)).trans (hafter.mono ?_ subset_rfl)
    · rintro j rfl
      exact Or.inl (by omega)
    · rintro j (hj | hj)
      · exact Or.inl (by omega)
      · exact Or.inr (by omega)
  obtain ⟨g₁, ⟨hP, howed⟩, hg₁⟩ := hbody id (id + 1) (w₁, s.2) () (w₂, host)
    ⟨⟨_, hruns⟩, _, hlater⟩ ⟨declarations_fresh hopen, by dsimp only; omega⟩
  -- nothing is declared while a child is entered and left
  have hleft (j : ℕ) : (s'.1.instanceAt j).declarations = (w₂.instanceAt j).declarations := by
    have hdecl := Workspace.declarations_closeChild (w := w₂) p parent name id (.ok ()) j
    rwa [hclose] at hdecl
  have hown : (w₂.instanceAt parent).declarations = (s.1.instanceAt parent).declarations := by
    have hdecl := Workspace.declarations_openChild parent p t.application hlt
    rw [hopen] at hdecl
    refine (hruns.chain.frame (by dsimp only; omega) ?_).1.trans hdecl
    rintro (rfl | hj) <;> dsimp only at * <;> omega
  have hchild : c.declarations = g₁.declared := by
    rw [hcdecl, hleft, hg₁.declared]
  have hfinal : (W.instanceAt id).declarations = c.declarations := by
    rw [hcdecl]
    refine (hafter.frame (by omega) ?_).1
    rintro (hj | hj) <;> omega
  refine ⟨_, ⟨rfl, hchild ▸ hP, by omega, hcid ▸ hfinal.symm⟩, ?_, ?_⟩
  · rw [hleft, hown]
    exact hg.declared
  · intro hheard j hn hj
    rcases lt_trichotomy j id with hlt' | rfl | hgt
    · refine hg.settled (fun u hu => hheard u (List.mem_append_left _ hu)) j hn (by omega)
    · intro q hq u hu
      have hparent := (hlater.entered hentered).parent
      rw [hparent] at hq
      cases hq
      refine hheard u (List.mem_append_right _ ?_)
      rw [← hfinal]
      exact hu
    · refine hg₁.settled howed j (by omega) ?_
      have hclosed := (Workspace.still_closeChild (w := w₂) p parent name id (.ok ())).size
      rw [hclose] at hclosed
      dsimp only at hclosed ⊢
      omega

end

end Build

end RankOne
