/-
  RankOne — the invariant of a compilation.

  * `Made`, `makeBus_spec`: a declaration appends its signals, numbered on;
  * `Workspace.Sound`: signals are numbered, each is the constant or belongs to
    the declarations of its component, only the first component is the main
    one, and the rules compute each signal once and never the constant or a main
    input;
  * `Run.sound`: the invariant holds throughout.
-/
import RankOne.Proofs.Build.Rows

namespace RankOne

/-! ## Buses -/

/-- Signals are numbered from zero on. -/
def Numbered (ss : Array Signal) : Prop := ∀ (i : ℕ) (s : Signal), ss[i]? = some s → s.uid = i

theorem Numbered.push {ss : Array Signal} {s : Signal} (h : Numbered ss) (hs : s.uid = ss.size) :
    Numbered (ss.push s) := by
  intro i t ht
  rw [Array.getElem?_push] at ht
  split_ifs at ht with hi
  · cases ht; rw [hs, hi]
  · exact h i t ht

/-- A signal is found under its number. -/
theorem Numbered.getElem? {ss : Array Signal} {s : Signal} (h : Numbered ss) (hs : s ∈ ss) :
    ss[s.uid.toNat]? = some s := by
  obtain ⟨i, hi⟩ := Array.mem_iff_getElem?.1 hs
  rw [h i s hi]; exact hi

theorem Numbered.eq_of_uid {ss : Array Signal} {s t : Signal} (h : Numbered ss) (hs : s ∈ ss)
    (ht : t ∈ ss) (hu : s.uid = t.uid) : s = t := by
  have := h.getElem? hs
  rw [hu, h.getElem? ht] at this
  exact (Option.some.inj this).symm

/-- Numbers increase along the list. -/
theorem Numbered.pairwise {ss : Array Signal} (h : Numbered ss) :
    ss.toList.Pairwise (·.uid < ·.uid) := by
  refine List.pairwise_iff_getElem.2 fun i j hi hj hij => ?_
  have hi' := h i _ (by rw [← Array.getElem?_toList, List.getElem?_eq_getElem hi])
  have hj' := h j _ (by rw [← Array.getElem?_toList, List.getElem?_eq_getElem hj])
  omega

theorem nodup_of_ascending {ss : List Signal} (h : ss.Pairwise (·.uid < ·.uid)) : ss.Nodup :=
  h.imp fun hlt heq => by rw [heq] at hlt; exact lt_irrefl _ hlt

/-- The signals `new` of a role in a component are appended, numbered on, under
    paths that start with `path`. -/
structure Made (f : PrimeField) (role : Role) (component path : String) (ss : Array Signal)
    (new : List Signal) (ss' : Array Signal) : Prop where
  list : ss'.toList = ss.toList ++ new
  made : ∀ s ∈ new, s.kind = .declared role ∧ s.field = f ∧ s.component = component
  own : ∀ s ∈ new, s.source = .own
  path : ∀ s ∈ new, ∃ rest, s.path = path ++ rest
  numbered : Numbered ss → Numbered ss'

namespace Made

variable {f : PrimeField} {role : Role} {component path : String} {ss ss₁ ss₂ : Array Signal}
  {new new' : List Signal}

theorem refl (ss : Array Signal) : Made f role component path ss [] ss :=
  ⟨(List.append_nil _).symm, by simp, by simp, by simp, id⟩

theorem trans (h : Made f role component path ss new ss₁)
    (h' : Made f role component path ss₁ new' ss₂) :
    Made f role component path ss (new ++ new') ss₂ where
  list := by rw [h'.list, h.list, List.append_assoc]
  made s hs := (List.mem_append.1 hs).elim (h.made s) (h'.made s)
  own s hs := (List.mem_append.1 hs).elim (h.own s) (h'.own s)
  path s hs := (List.mem_append.1 hs).elim (h.path s) (h'.path s)
  numbered := h'.numbered ∘ h.numbered

/-- What starts with a longer path starts with the shorter one. -/
theorem of_append {long more : String} (hl : long = path ++ more)
    (h : Made f role component long ss new ss₁) : Made f role component path ss new ss₁ :=
  { h with
    path := by
      intro s hs
      obtain ⟨rest, hr⟩ := h.path s hs
      exact ⟨more ++ rest, by rw [hr, hl, String.append_assoc]⟩ }

theorem mem_iff (h : Made f role component path ss new ss₁) {s : Signal} :
    s ∈ ss₁ ↔ s ∈ ss ∨ s ∈ new := by
  rw [← Array.mem_toList_iff, h.list, List.mem_append, Array.mem_toList_iff]

theorem getElem? (h : Made f role component path ss new ss₁) {i : ℕ} {s : Signal}
    (hs : ss[i]? = some s) : ss₁[i]? = some s := by
  obtain ⟨hi, -⟩ := Array.getElem?_eq_some_iff.1 hs
  rw [← Array.getElem?_toList, h.list, List.getElem?_append_left (by simpa using hi),
    Array.getElem?_toList]
  exact hs

end Made

theorem Bus.mem_flatItems {item : Bus} {items : List Bus} {s : Signal} (h : item ∈ items)
    (hs : s ∈ item.flat) : s ∈ Bus.flatItems items := by
  induction items with
  | nil => cases h
  | cons b bs ih =>
    rw [Bus.flatItems, List.mem_append]
    rcases List.mem_cons.1 h with rfl | h
    · exact Or.inl hs
    · exact Or.inr (ih h)

namespace Workspace

section
variable (f : PrimeField) (role : Role) (component : String)

/-- The items of an array at some positions, made one after another. -/
def makeItems (ds : List ℕ) (mark : Mark) (path : String) :
    List ℕ → Array Signal → List Bus × Array Signal
  | [], ss => ([], ss)
  | i :: is, ss =>
    let item := makeBus f role component ds (mark ++ [i]) s!"{path}[{i}]" ss
    let rest := makeItems ds mark path is item.2
    (item.1 :: rest.1, rest.2)

theorem length_makeItems (ds : List ℕ) (mark : Mark) (path : String) (is : List ℕ)
    (ss : Array Signal) : (makeItems f role component ds mark path is ss).1.length = is.length := by
  induction is generalizing ss with
  | nil => rfl
  | cons i is ih => rw [makeItems, List.length_cons, List.length_cons, ih]

/-- Every item of an array is made as a bus. -/
theorem mem_makeItems {ds : List ℕ} {mark : Mark} {path : String} {is : List ℕ}
    {ss : Array Signal} {item : Bus} (h : item ∈ (makeItems f role component ds mark path is ss).1) :
    ∃ mark path ss, item = (makeBus f role component ds mark path ss).1 := by
  induction is generalizing ss with
  | nil => cases h
  | cons i is ih =>
    rcases List.mem_cons.1 h with rfl | h
    · exact ⟨_, _, _, rfl⟩
    · exact ih h

/-- An array is made item by item. -/
theorem makeBus_cons (d : ℕ) (ds : List ℕ) (mark : Mark) (path : String) (ss : Array Signal) :
    makeBus f role component (d :: ds) mark path ss =
      (.array (makeItems f role component ds mark path (List.range d) ss).1 (d :: ds) mark,
        (makeItems f role component ds mark path (List.range d) ss).2) := by
  -- the items come in reverse order out of the fold
  have hfold : ∀ (is : List ℕ) (acc : List Bus × Array Signal),
      is.foldl (fun acc i =>
        ((makeBus f role component ds (mark ++ [i]) s!"{path}[{i}]" acc.2).1 :: acc.1,
          (makeBus f role component ds (mark ++ [i]) s!"{path}[{i}]" acc.2).2)) acc =
      ((makeItems f role component ds mark path is acc.2).1.reverse ++ acc.1,
        (makeItems f role component ds mark path is acc.2).2) := by
    intro is
    induction is with
    | nil => exact fun acc => rfl
    | cons i is ih =>
      intro acc
      rw [List.foldl_cons, ih]
      simp [makeItems]
  rw [makeBus]
  dsimp only
  rw [hfold]
  simp

theorem makeItems_spec {ds : List ℕ}
    (hds : ∀ (mark : Mark) (path : String) (ss : Array Signal),
      Made f role component path ss (makeBus f role component ds mark path ss).1.flat
        (makeBus f role component ds mark path ss).2) (mark : Mark) (path : String) :
    ∀ (is : List ℕ) (ss : Array Signal),
      Made f role component path ss
        (Bus.flatItems (makeItems f role component ds mark path is ss).1)
        (makeItems f role component ds mark path is ss).2
  | [], ss => .refl ss
  | i :: is, ss => by
    have hpath : s!"{path}[{i}]" = path ++ ("[" ++ toString i ++ "]") := by
      simp only [String.append_assoc]; rfl
    exact ((hds (mark ++ [i]) s!"{path}[{i}]" ss).of_append hpath).trans
      (makeItems_spec hds mark path is _)

/-- **The signals of a bus are those that its declaration appends.** -/
theorem makeBus_spec : ∀ (dims : List ℕ) (mark : Mark) (path : String) (ss : Array Signal),
    Made f role component path ss (makeBus f role component dims mark path ss).1.flat
      (makeBus f role component dims mark path ss).2
  | [], _, _, ss =>
    { list := Array.toList_push
      made := by intro s hs; rw [List.mem_singleton.1 hs]; exact ⟨rfl, rfl, rfl⟩
      own := by intro s hs; rw [List.mem_singleton.1 hs]
      path := by intro s hs; rw [List.mem_singleton.1 hs]; exact ⟨"", String.append_empty.symm⟩
      numbered := fun h => h.push rfl }
  | d :: ds, mark, path, ss => by
    rw [makeBus_cons, Bus.flat]
    exact makeItems_spec f role component (makeBus_spec ds) mark path (List.range d) ss

end

/-! ## The invariant -/

/-- The invariant of a compilation. -/
structure Sound (w : Workspace) : Prop where
  first : w.signals[0]? = some (one w.field)
  numbered : Numbered w.signals
  field : ∀ s ∈ w.signals, s.field = w.field
  own : ∀ s ∈ w.signals, s.source = .own
  kind : ∀ s ∈ w.signals, s.kind = .one → s = one w.field
  main : (w.instanceAt 0).path = "main"
  paths : ∀ id, id ≠ 0 → (w.instanceAt id).path ≠ "main"
  /-- a declared signal carries its role and its component -/
  declared : ∀ id, ∀ d ∈ (w.instanceAt id).declarations, ∀ s ∈ d.bus.flat,
    s ∈ w.signals ∧ s.kind = .declared d.role ∧ s.component = (w.instanceAt id).path
  /-- every signal but the constant is declared -/
  covered : ∀ s ∈ w.signals, s.kind ≠ .one →
    ∃ id, ∃ d ∈ (w.instanceAt id).declarations, s ∈ d.bus.flat
  targets : ∀ r ∈ w.draft.rules.toList,
    r.target.kind ≠ .one ∧ Circuit.isMainInput r.target = false
  single : (w.draft.rules.toList.map (·.target.uid)).Nodup

section
variable {w w' : Workspace}

/-- The workspaces differ in nothing that the invariant speaks of. -/
structure Keeps (w w' : Workspace) : Prop where
  field : w'.field = w.field
  signals : w'.signals = w.signals
  draft : w'.draft = w.draft
  size : w'.instances.size = w.instances.size
  path : ∀ id, (w'.instanceAt id).path = (w.instanceAt id).path
  declarations : ∀ id, (w'.instanceAt id).declarations = (w.instanceAt id).declarations

theorem Keeps.sound (h : Keeps w w') (hw : w.Sound) : w'.Sound where
  first := by rw [h.signals, h.field]; exact hw.first
  numbered := by rw [h.signals]; exact hw.numbered
  field := by rw [h.signals, h.field]; exact hw.field
  own := by rw [h.signals]; exact hw.own
  kind := by rw [h.signals, h.field]; exact hw.kind
  main := by rw [h.path]; exact hw.main
  paths id hid := by rw [h.path]; exact hw.paths id hid
  declared id := by rw [h.declarations, h.signals, h.path]; exact hw.declared id
  covered s hs hk := by
    rw [h.signals] at hs
    obtain ⟨id, d, hd, hsd⟩ := hw.covered s hs hk
    exact ⟨id, d, by rw [h.declarations]; exact hd, hsd⟩
  targets := by rw [h.draft]; exact hw.targets
  single := by rw [h.draft]; exact hw.single

theorem keeps_updateInstance (id : ℕ) {g : Instance → Instance} (hp : ∀ c, (g c).path = c.path)
    (hd : ∀ c, (g c).declarations = c.declarations) : Keeps w (w.updateInstance id g) where
  field := rfl
  signals := rfl
  draft := rfl
  size := by simp [updateInstance]
  path j := by rw [instanceAt_updateInstance]; split_ifs <;> simp [hp]
  declarations j := by rw [instanceAt_updateInstance]; split_ifs <;> simp [hd]

theorem keeps_of_instances (hf : w'.field = w.field) (hs : w'.signals = w.signals)
    (hd : w'.draft = w.draft) (hi : w'.instances = w.instances) : Keeps w w' := by
  have hat (j : ℕ) : w'.instanceAt j = w.instanceAt j := by rw [instanceAt, hi]; rfl
  exact ⟨hf, hs, hd, by rw [hi], fun j => by rw [hat], fun j => by rw [hat]⟩

/-- A path below another one is not that of the main component. -/
theorem child_path_ne_main (a b : String) : s!"{a}.{b}" ≠ "main" := by
  intro h
  have hdot : '.' ∈ (a ++ "." ++ b).toList := by simp
  rw [show a ++ "." ++ b = "main" from h] at hdot
  exact absurd hdot (by decide)

theorem Sound.size_pos (hw : w.Sound) : 0 < w.instances.size := by
  by_contra h
  have hpath := hw.main
  rw [instanceAt_of_le (by omega)] at hpath
  exact absurd hpath (by decide)

/-- Only a component declares. -/
theorem lt_of_declared {id : ℕ} {d : Declaration} (hd : d ∈ (w.instanceAt id).declarations) :
    id < w.instances.size := by
  by_contra h
  rw [instanceAt_of_le (by omega)] at hd
  cases hd

theorem Sound.enter (hw : w.Sound) (parent : ℕ) (name : String) (application : Application) :
    Sound { w with instances := w.instances.push (w.freshChild parent name application) } := by
  have hat (j : ℕ) := instanceAt_push w (w.freshChild parent name application) j
  have hpos := hw.size_pos
  exact
    { hw with
      main := by rw [hat, if_neg (by omega)]; exact hw.main
      paths := by
        intro id hid
        rw [hat]
        split_ifs
        · exact child_path_ne_main _ _
        · exact hw.paths id hid
      declared := by
        intro id
        rw [hat]
        split_ifs
        · exact fun d hd => absurd hd List.not_mem_nil
        · exact hw.declared id
      covered := by
        intro s hs hk
        obtain ⟨id, d, hd, hsd⟩ := hw.covered s hs hk
        refine ⟨id, d, ?_, hsd⟩
        rw [hat, if_neg]
        · exact hd
        · rintro rfl
          rw [instanceAt, Array.getD_eq_getD_getElem?, Array.getElem?_eq_none (le_refl _)] at hd
          cases hd }

/-- What is declared after one more declaration. -/
theorem mem_declarations_append {id : ℕ} (hid : id < w.instances.size) {signals : Array Signal}
    {new d : Declaration} {j : ℕ} :
    d ∈ ((w.withDeclared id signals new).instanceAt j).declarations ↔
      d ∈ (w.instanceAt j).declarations ∨ id = j ∧ d = new := by
  rw [instanceAt_withDeclared]
  split_ifs with hj
  · simp [hj.1]
  · have hne : id ≠ j := fun h => hj ⟨h, h ▸ hid⟩
    simp [hne]

theorem Sound.declare (hw : w.Sound) {id : ℕ} (hid : id < w.instances.size) {role : Role}
    {name path : String} {bus : Bus} {signals : Array Signal}
    (hm : Made w.field role (w.instanceAt id).path path w.signals bus.flat signals) :
    Sound (w.withDeclared id signals ⟨name, role, bus⟩) := by
  have hpath (j : ℕ) : (instanceAt (w.withDeclared id signals ⟨name, role, bus⟩) j).path =
      (w.instanceAt j).path := by
    rw [instanceAt_withDeclared]; split_ifs <;> rfl
  have hold {s : Signal} (hs : s ∈ w.signals) : s ∈ signals := hm.mem_iff.2 (Or.inl hs)
  exact
    { hw with
      first := hm.getElem? hw.first
      numbered := hm.numbered hw.numbered
      field := fun s hs => (hm.mem_iff.1 hs).elim (hw.field s) fun h => (hm.made s h).2.1
      own := fun s hs => (hm.mem_iff.1 hs).elim (hw.own s) (hm.own s)
      kind := by
        intro s hs hk
        refine (hm.mem_iff.1 hs).elim (fun h => hw.kind s h hk) fun h => ?_
        rw [(hm.made s h).1] at hk; cases hk
      main := by rw [hpath]; exact hw.main
      paths := fun j hj => by rw [hpath]; exact hw.paths j hj
      declared := by
        intro j d hd s hs
        rw [hpath]
        rcases (mem_declarations_append hid).1 hd with hd | ⟨rfl, rfl⟩
        · exact (hw.declared j d hd s hs).imp_left hold
        · obtain ⟨hk, -, hc⟩ := hm.made s hs
          exact ⟨hm.mem_iff.2 (Or.inr hs), hk, hc⟩
      covered := by
        intro s hs hk
        rcases hm.mem_iff.1 hs with hs | hs
        · obtain ⟨j, d, hd, hsd⟩ := hw.covered s hs hk
          exact ⟨j, d, (mem_declarations_append hid).2 (Or.inl hd), hsd⟩
        · exact ⟨id, _, (mem_declarations_append hid).2 (Or.inr ⟨rfl, rfl⟩), hs⟩ }

theorem keeps_attach (id : ℕ) (name : String) (child : ℕ) :
    Keeps w (w.updateInstance id fun c =>
      { c with children := Instance.attach name child c.children }) := by
  refine keeps_updateInstance id ?_ ?_ <;> exact fun _ => rfl

/-- A move keeps all that the invariant speaks of, or declares, or enters. -/
theorem Move.cases {here : ℕ} (h : Move here w w') : Keeps w w' ∨
    (∃ role name bus signals, here < w.instances.size ∧
      Made w.field role (w.instanceAt here).path s!"{(w.instanceAt here).path}.{name}" w.signals
        (Bus.flat bus) signals ∧ w' = w.withDeclared here signals ⟨name, role, bus⟩) ∨
    ∃ parent name application,
      w' = { w with instances := w.instances.push (w.freshChild parent name application) } := by
  cases h with
  | reserve name _ => refine Or.inl (keeps_updateInstance here ?_ ?_) <;> exact fun _ => rfl
  | declare hh role name _ dims mark hbus =>
    have hm := makeBus_spec w.field role (w.instanceAt here).path dims mark
      s!"{(w.instanceAt here).path}.{name}" w.signals
    rw [hbus] at hm
    exact Or.inr (Or.inl ⟨role, name, _, _, hh, hm, rfl⟩)
  | enter parent name application => exact Or.inr (Or.inr ⟨parent, name, application, rfl⟩)
  | record row => refine Or.inl (keeps_updateInstance here ?_ ?_) <;> exact fun _ => rfl
  | keep hf _ hs hd hi => exact Or.inl (keeps_of_instances hf hs hd hi)

theorem Move.sound {here : ℕ} (h : Move here w w') (hw : w.Sound) : w'.Sound := by
  rcases h.cases with hk | ⟨role, name, bus, signals, hh, hm, rfl⟩ |
    ⟨parent, name, application, rfl⟩
  · exact hk.sound hw
  · exact hw.declare hh hm
  · exact hw.enter parent name application

/-! ## Rules -/

/-- Neither the constant nor a main input may be computed. -/
theorem writable_eq_ok {c : Instance} {s : Signal} {u : Unit} (h : writable c s = .ok u) :
    s.kind ≠ .one ∧ Circuit.isMainInput s = false := by
  unfold writable at h
  split_ifs at h with hc hi
  · split at h
    · next hk => simp [hk, Circuit.isMainInput]
    · next hk => simp [hk, Circuit.isMainInput]
    · cases h
    · cases h
  · refine ⟨by simp [hi.1], ?_⟩
    obtain ⟨child, -, hchild⟩ := List.any_eq_true.1 hi.2
    have hne : s.component ≠ "main" := by
      rw [beq_iff_eq.1 hchild]; exact child_path_ne_main _ _
    simp [Circuit.isMainInput, hne]

theorem Sound.change (hw : w.Sound) {st : Statement} {draft : Draft} (h : st.Changes w draft) :
    Sound { w with draft } := by
  obtain ⟨hrules, hfresh⟩ := h.rules
  have htarget : ∀ s, st.target? = some s → s.kind ≠ .one ∧ Circuit.isMainInput s = false := by
    cases h with
    | assign _ hwr _ => rintro s ⟨⟩; exact writable_eq_ok hwr
    | constrain => rintro s ⟨⟩
    | hint _ hwr _ => rintro s ⟨⟩; exact writable_eq_ok hwr
  have hrule : ∀ r ∈ st.rule?.toList, st.target? = some r.target := by
    cases st <;> simp [Statement.rule?, Statement.target?]
  refine { hw with targets := ?_, single := ?_ }
  · intro r hr
    rw [hrules] at hr
    exact (List.mem_append.1 hr).elim (hw.targets r) fun hr => htarget _ (hrule r hr)
  · rw [hrules, List.map_append]
    refine List.nodup_append.2 ⟨hw.single, ?_, ?_⟩
    · cases st.rule? <;> simp
    · rintro _ hold _ hnew rfl
      obtain ⟨r, hr, hu⟩ := List.mem_map.1 hold
      obtain ⟨q, hq, hqu⟩ := List.mem_map.1 hnew
      exact Draft.ne_of_rule?_eq_none (hfresh _ (hrule q hq)) r hr (hu.trans hqu.symm)

/-- **The invariant is kept by every chain of moves and statements.** -/
theorem Run.sound {S A : Set ℕ} {sts : List Statement} (h : Run S A w sts w') (hw : w.Sound) :
    w'.Sound := by
  induction h with
  | done => exact hw
  | move _ hm _ ih => exact ih (hm.sound hw)
  | attach id name _ _ _ ih => exact ih ((keeps_attach id name _).sound hw)
  | state hc _ ih => exact ih (hw.change hc)

/-- The invariant holds when the main component is opened. -/
theorem opened_sound {σ : Type} (t : Template σ) (field : PrimeField) (policy : DanglingPolicy) :
    (t.opened field policy).Sound := by
  have hsignal (s : Signal) (hs : s ∈ (t.opened field policy).signals) : s = one field := by
    change s ∈ #[one field] at hs; simpa using hs
  have hat (id : ℕ) : (t.opened field policy).instanceAt (id + 1) = default := by
    rw [instanceAt, Array.getD_eq_getD_getElem?,
      Array.getElem?_eq_none (Nat.succ_le_succ id.zero_le)]
    rfl
  exact
    { first := rfl
      numbered := by
        intro i s hs
        obtain ⟨hi, -⟩ := Array.getElem?_eq_some_iff.1 hs
        have hi : i < 1 := hi
        rw [hsignal s (Array.mem_iff_getElem?.2 ⟨i, hs⟩), Nat.lt_one_iff.1 hi]; rfl
      field := fun s hs => by rw [hsignal s hs]; rfl
      own := fun s hs => by rw [hsignal s hs]; rfl
      kind := fun s hs _ => hsignal s hs
      main := rfl
      paths := by
        intro id hid
        obtain ⟨j, rfl⟩ := Nat.exists_eq_succ_of_ne_zero hid
        rw [hat]; decide
      declared := by
        intro id d hd
        rcases id with _ | id
        · cases hd
        · rw [hat] at hd; cases hd
      covered := fun s hs hk => absurd (by rw [hsignal s hs]; rfl) hk
      targets := fun r hr => by cases hr
      single := List.nodup_nil }

end

end Workspace

end RankOne
