/-
  RankOne — templates without children.

  * `idle_indicate`, `idle_decompose`, …: loops and checks that declare nothing and place
    no child;
  * `Declaration.Shows`, `Sole`: a terminal of a component, and one whose only output is a
    signal named `out`;
  * `keeps_isZero`, `keeps_lessThan`, `keeps_decoder`, …: what these templates show.
-/
import RankOne.Gadget.Catalogue
import RankOne.Proofs.Build.Ledger

namespace RankOne

/-! ## Terminals -/

/-- A terminal among declarations. -/
def Declaration.Shows (ds : List Declaration) (name : String) (role : Role) (bus : Bus) : Prop :=
  ds.find? (fun d => d.name == name && d.role != .intermediate) = some ⟨name, role, bus⟩

theorem Declaration.Shows.terminal {c : Component} {name : String} {role : Role} {bus : Bus}
    (h : Declaration.Shows c.declarations name role bus) : c.terminal name = .ok bus := by
  rw [Component.terminal, Component.terminal?, h]
  rfl

theorem Declaration.Shows.has {W : Workspace} {id : ℕ} {name : String} {role : Role} {bus : Bus}
    (h : Declaration.Shows (W.instanceAt id).declarations name role bus) {s : Signal}
    (hs : s ∈ bus.flat) : W.Has id role s :=
  ⟨⟨name, role, bus⟩, List.mem_of_find?_eq_some h, rfl, hs⟩

/-- The declarations have one output, a signal named `out`. -/
structure Declaration.Sole (ds : List Declaration) (u : Signal) : Prop where
  outputs : Declaration.outputs ds = [u]
  shows : Declaration.Shows ds "out" .output (.single u)

namespace Gadget

open Build Declaration

variable {σ : Type} {W : Workspace}

/-! ## Loops and checks -/

theorem idle_indicate (x : Expr) (out inv : Signal) : Idle (indicate x out inv : Build σ Unit) :=
  (idle_hint _ _ _).bind fun _ => (idle_times _ _).bind fun _ => (idle_const _).bind fun _ =>
    (idle_assign _ _).bind fun _ => (idle_times _ _).bind fun _ => (idle_const _).bind fun _ =>
      idle_constrain _ _

theorem idle_constrainBit (x : Signal) : Idle (constrainBit x : Build σ Unit) :=
  (idle_const _).bind fun _ => (idle_times _ _).bind fun _ => (idle_const _).bind fun _ =>
    idle_constrain _ _

theorem idle_digitsFrom (value : Expr) : ∀ (bits : List Signal) (i weight : ℕ) (acc : Expr),
    Idle (digitsFrom value i weight acc bits : Build σ Expr)
  | [], _, _, _ => idle_pure _
  | b :: bits, _, _, _ => (idle_hint _ _ _).bind fun _ => (idle_constrainBit b).bind fun _ =>
    idle_digitsFrom value bits _ _ _

theorem idle_decompose (bits : List Signal) (value : Expr) :
    Idle (decompose bits value : Build σ Unit) :=
  (idle_const _).bind fun _ => (idle_digitsFrom value bits _ _ _).bind fun _ => idle_constrain _ _

theorem idle_checkWidth (n : Value) : Idle (checkWidth n : Build σ Unit) := by
  refine idle_field.bind fun f => (idle_demand _).bind fun small => ?_
  have hrefuse (large : Bool) : Idle (do
      if small || large then throw (.comparatorWidth (← path) (← demand n.shownText) f.p) :
        Build σ Unit) := by
    split
    · exact idle_path.bind fun _ => (idle_demand _).bind fun _ => idle_throw _
    · exact idle_pure _
  dsimp only
  split
  · exact (idle_pure _).bind hrefuse
  · exact (idle_demand _).bind hrefuse

theorem idle_offset (n : Value) : Idle (offset n : Build σ Expr) := by
  unfold offset
  split
  · exact idle_const _
  · refine (idle_demand _).bind fun v => ?_
    split
    · exact idle_const _
    · exact idle_const _
    · exact idle_throw _

/-- A size that was not refused is large enough. -/
theorem ensures_checkBound (bound : Value) (least : Int) {here : ℕ} {g : Ledger} :
    (checkBound bound least : Build σ Unit).Ensures W here g
      fun _ g' => g' = g ∧ ∀ k, bound.index = .ok k → least ≤ k := by
  refine Ensures.next (P := fun small => (do
    (← Value.binary .lt bound (.int least)).truth) = .ok small) ?_ fun small hsmall => ?_
  · exact ensures_demand fun small hsmall => ⟨rfl, hsmall⟩
  · split
    · exact idle_path.next fun _ => (idle_demand _).next fun _ => ensures_throw _
    · next hfalse =>
      refine ensures_pure ⟨rfl, fun k hk => ?_⟩
      obtain ⟨v, hv, htruth⟩ := Value.binary_lt_of_index hk least
      have hdecide : small = decide (k < least) := by
        rw [hv] at hsmall
        exact Except.ok.inj (hsmall.symm.trans htruth)
      rw [hdecide, decide_eq_true_iff] at hfalse
      omega

theorem idle_decodeFrom (x : Signal) : ∀ (outs : List Signal) (i : ℕ) (acc : Expr),
    Idle (decodeFrom x i acc outs : Build σ Expr)
  | [], _, _ => idle_pure _
  | _ :: outs, _, _ => (idle_hint _ _ _).bind fun _ => (idle_const _).bind fun _ =>
    (idle_times _ _).bind fun _ => (idle_const _).bind fun _ => (idle_constrain _ _).bind fun _ =>
      idle_decodeFrom x outs _ _

theorem idle_productsFrom : ∀ (rows : List (Signal × Signal × Signal)) (acc : Expr),
    Idle (productsFrom acc rows : Build σ Expr)
  | [], _ => idle_pure _
  | (_, _, _) :: rows, _ => (idle_times _ _).bind fun _ => (idle_assign _ _).bind fun _ =>
    idle_productsFrom rows _

theorem idle_assignValue (target : Signal) (v : Value) :
    Idle (assignValue target v : Build σ Unit) :=
  idle_field.bind fun _ => idle_request (by simp)

theorem idle_chain {step : ℕ → Signal → Build σ Expr} (hstep : ∀ i x, Idle (step i x)) :
    ∀ (rest : List Signal) (i : ℕ) (before : Signal), Idle (chain step i before rest)
  | [], _, _ => idle_pure _
  | s :: rest, _, _ => (hstep _ _).bind fun _ => (idle_assign s _).bind fun _ =>
    idle_chain hstep rest _ _

theorem idle_fibonacciFrom : ∀ (rest : List Signal) (a b : Signal),
    Idle (fibonacciFrom a b rest : Build σ Unit)
  | [], _, _ => idle_pure _
  | _ :: rest, _, _ => (idle_assign _ _).bind fun _ => idle_fibonacciFrom rest _ _

/-! ## Indicators -/

theorem keeps_isZero : Keeps W (isZero : Build σ Unit) fun ds => ∃ u, Sole ds u := by
  intro id
  refine (ensures_signal _ _).bind ?_
  rintro x _ ⟨rfl, -⟩
  refine (ensures_signal _ _).bind ?_
  rintro out _ ⟨rfl, -⟩
  refine (ensures_signal _ _).bind ?_
  rintro inv _ ⟨rfl, -⟩
  exact (idle_indicate _ _ _).ensures fun _ => ⟨⟨out, rfl, rfl⟩, List.forall_mem_nil _⟩

theorem keeps_isEqual : Keeps W (isEqual : Build σ Unit) fun ds => ∃ u, Sole ds u := by
  intro id
  refine (ensures_signals _ _ _).bind ?_
  rintro xs _ ⟨⟨bus, rfl, -⟩, -⟩
  refine (ensures_signal _ _).bind ?_
  rintro out _ ⟨rfl, -⟩
  refine (ensures_signal _ _).bind ?_
  rintro inv _ ⟨rfl, -⟩
  split
  · exact (idle_indicate _ _ _).ensures fun _ => ⟨⟨out, rfl, rfl⟩, List.forall_mem_nil _⟩
  · exact ensures_throw _

/-! ## Comparison -/

theorem keeps_lessThan (n : Value) :
    Keeps W (lessThan n : Build σ Unit) fun ds => ∃ u, Sole ds u := by
  intro id
  refine (idle_checkWidth n).next fun _ => (ensures_signals _ _ _).bind ?_
  rintro xs _ ⟨⟨bus, rfl, -⟩, -⟩
  refine (ensures_signal _ _).bind ?_
  rintro out _ ⟨rfl, -⟩
  refine (idle_demand _).next fun width => (ensures_signals _ _ _).bind ?_
  rintro bits _ ⟨⟨bitsBus, rfl, -⟩, -⟩
  split
  · refine (idle_offset n).next fun _ => (idle_decompose _ _).next fun _ => ?_
    refine (idle_demand _).next fun _ => (idle_demand _).next fun top => ?_
    refine (idle_const _).next fun _ => ?_
    exact (idle_assign _ _).ensures fun _ => ⟨⟨out, rfl, rfl⟩, List.forall_mem_nil _⟩
  · exact ensures_throw _

/-! ## Selection -/

/-- What a decoder of a size shows. -/
structure Decodes (w : Value) (ds : List Declaration) (bus : Bus) (success : Signal) : Prop where
  outputs : Declaration.outputs ds = bus.flat ++ [success]
  out : Shows ds "out" .output bus
  success : Shows ds "success" .output (.single success)
  length : ∃ k, w.index = .ok k ∧ bus.flat.length = k.toNat

theorem keeps_decoder (w : Value) :
    Keeps W (decoder w : Build σ Unit) fun ds => ∃ bus success, Decodes w ds bus success := by
  intro id
  refine (ensures_signal _ _).bind ?_
  rintro x _ ⟨rfl, -⟩
  refine (ensures_signals _ _ _).bind ?_
  rintro outs _ ⟨⟨bus, rfl, rfl⟩, -, k, hk, hlength⟩
  refine (ensures_signal _ _).bind ?_
  rintro success _ ⟨rfl, -⟩
  refine (idle_const _).next fun _ => (idle_decodeFrom _ _ _ _).next fun _ => ?_
  refine (idle_assign _ _).next fun _ => ?_
  refine (idle_constrainBit _).ensures fun _ => ⟨⟨bus, success, ?_⟩, List.forall_mem_nil _⟩
  exact ⟨rfl, rfl, rfl, k, hk, hlength⟩

/-- What an inner product of a size shows. -/
structure Multiplies (w : Value) (ds : List Declaration) (a b : Bus) (u : Signal) : Prop where
  sole : Sole ds u
  left : Shows ds "in1" .input a
  right : Shows ds "in2" .input b
  length : ∃ k, w.index = .ok k ∧ a.flat.length = k.toNat ∧ b.flat.length = k.toNat

theorem keeps_escalarProduct (w : Value) : Keeps W (escalarProduct w : Build σ Unit) fun ds =>
    ∃ a b u, Multiplies w ds a b u := by
  intro id
  refine (ensures_signals _ _ _).bind ?_
  rintro xs _ ⟨⟨left, rfl, rfl⟩, -, k, hk, hleft⟩
  refine (ensures_signals _ _ _).bind ?_
  rintro ys _ ⟨⟨right, rfl, rfl⟩, -, k', hk', hright⟩
  obtain rfl : k = k' := Except.ok.inj (hk.symm.trans hk')
  refine (ensures_signal _ _).bind ?_
  rintro out _ ⟨rfl, -⟩
  refine (ensures_signals _ _ _).bind ?_
  rintro aux _ ⟨⟨auxBus, rfl, -⟩, -⟩
  refine (idle_const _).next fun _ => (idle_productsFrom _ _).next fun _ => ?_
  refine (idle_assign _ _).ensures fun _ => ⟨⟨left, right, out, ?_⟩, List.forall_mem_nil _⟩
  exact ⟨⟨rfl, rfl⟩, rfl, rfl, k, hk, hleft, hright⟩

/-! ## Other templates -/

theorem keeps_numToBits (n : Value) : Keeps W (numToBits n : Build σ Unit) fun _ => True := by
  intro id
  refine (ensures_signal _ _).bind ?_
  rintro x _ ⟨rfl, -⟩
  refine (ensures_signals _ _ _).bind ?_
  rintro bits _ ⟨⟨bus, rfl, -⟩, -⟩
  exact (idle_decompose _ _).ensures fun _ => ⟨trivial, List.forall_mem_nil _⟩

theorem keeps_assertBool : Keeps W (assertBool : Build σ Unit) fun _ => True := by
  intro id
  refine (ensures_signal _ _).bind ?_
  rintro x _ ⟨rfl, -⟩
  exact (idle_constrainBit _).ensures fun _ => ⟨trivial, List.forall_mem_nil _⟩

theorem keeps_inverse : Keeps W (Gadget.inverse : Build σ Unit) fun _ => True := by
  intro id
  refine (ensures_signal _ _).bind ?_
  rintro x _ ⟨rfl, -⟩
  refine (ensures_signal _ _).bind ?_
  rintro out _ ⟨rfl, -⟩
  refine (idle_hint _ _ _).next fun _ => (idle_times _ _).next fun _ => ?_
  refine (idle_const _).next fun _ => ?_
  exact (idle_constrain _ _).ensures fun _ => ⟨trivial, List.forall_mem_nil _⟩

theorem keeps_sum (n : Value) : Keeps W (Gadget.sum n : Build σ Unit) fun _ => True := by
  intro id
  refine (ensures_signals _ _ _).bind ?_
  rintro xs _ ⟨⟨bus, rfl, -⟩, -⟩
  refine (ensures_signal _ _).bind ?_
  rintro out _ ⟨rfl, -⟩
  refine idle_field.next fun _ => ?_
  exact (idle_assign _ _).ensures fun _ => ⟨trivial, List.forall_mem_nil _⟩

theorem keeps_square : Keeps W (square : Build σ Unit) fun _ => True := by
  intro id
  refine (ensures_signal _ _).bind ?_
  rintro x _ ⟨rfl, -⟩
  refine (ensures_signal _ _).bind ?_
  rintro out _ ⟨rfl, -⟩
  refine (idle_times _ _).next fun _ => ?_
  exact (idle_assign _ _).ensures fun _ => ⟨trivial, List.forall_mem_nil _⟩

end Gadget

end RankOne
