/-
  RankOne — the declarations of a component.

  * `rowMajor`, `paths_makeBus`: the signals of an array are listed row by row;
  * `Instance.Listed`: a component declares every name once and has taken it, its
    signals are listed in the order of their numbers, and those of an array row by
    row;
  * `Run.listed`: it holds throughout.
-/
import RankOne.Proofs.Build.Sound

namespace RankOne

/-! ## Arrays -/

/-- The sizes of an array; a single signal has none. -/
def Bus.shape : Bus → List ℕ
  | .single _ => []
  | .array _ shape _ => shape

/-- The paths of the signals of an array with the given sizes, row by row. -/
def rowMajor : List ℕ → String → List String
  | [], path => [path]
  | d :: ds, path => (List.range d).flatMap fun i => rowMajor ds s!"{path}[{i}]"

namespace Workspace

section
variable (f : PrimeField) (role : Role) (component : String)

theorem shape_makeBus (dims : List ℕ) (mark : Mark) (path : String) (ss : Array Signal) :
    (makeBus f role component dims mark path ss).1.shape = dims := by
  cases dims with
  | nil => rfl
  | cons d ds => rw [makeBus_cons]; rfl

theorem paths_makeItems {ds : List ℕ}
    (hds : ∀ (mark : Mark) (path : String) (ss : Array Signal),
      (makeBus f role component ds mark path ss).1.flat.map (·.path) = rowMajor ds path)
    (mark : Mark) (path : String) : ∀ (is : List ℕ) (ss : Array Signal),
      (Bus.flatItems (makeItems f role component ds mark path is ss).1).map (·.path) =
        is.flatMap fun i => rowMajor ds s!"{path}[{i}]"
  | [], _ => rfl
  | i :: is, ss => by
    rw [makeItems, Bus.flatItems, List.map_append, List.flatMap_cons, hds,
      paths_makeItems hds mark path is]

/-- **The signals of a bus are made row by row.** -/
theorem paths_makeBus : ∀ (dims : List ℕ) (mark : Mark) (path : String) (ss : Array Signal),
    (makeBus f role component dims mark path ss).1.flat.map (·.path) = rowMajor dims path
  | [], _, _, _ => rfl
  | d :: ds, mark, path, ss => by
    rw [makeBus_cons, Bus.flat, rowMajor]
    exact paths_makeItems f role component (paths_makeBus ds) mark path (List.range d) ss

end

end Workspace

/-! ## The invariant -/

/-- What the declarations of a component are like: their names are taken and
    distinct, and their signals are listed by number and row by row. -/
structure Instance.Listed (c : Instance) : Prop where
  taken : ∀ d ∈ c.declarations, d.name ∈ c.names
  names : (c.declarations.map (·.name)).Nodup
  ascending : (c.declarations.flatMap (·.bus.flat)).Pairwise (·.uid < ·.uid)
  rows : ∀ d ∈ c.declarations,
    d.bus.flat.map (·.path) = rowMajor d.bus.shape s!"{c.path}.{d.name}"

namespace Instance.Listed

variable {c c' : Instance}

theorem of_nil (h : c.declarations = []) : c.Listed := by
  constructor <;> simp [h]

/-- Taking more names changes nothing. -/
theorem mono (hc : c.Listed) (hpath : c'.path = c.path) (hd : c'.declarations = c.declarations)
    (hn : c.names ⊆ c'.names) : c'.Listed where
  taken d hmem := hn (hc.taken d (hd ▸ hmem))
  names := hd ▸ hc.names
  ascending := hd ▸ hc.ascending
  rows := by rw [hpath, hd]; exact hc.rows

/-- One more declaration, under a new name and of later signals. -/
theorem declare (hc : c.Listed) {d : Declaration} (hname : d.name ∉ c.names)
    (hlater : ∀ s ∈ c.declarations.flatMap (·.bus.flat), ∀ u ∈ d.bus.flat, s.uid < u.uid)
    (hascending : d.bus.flat.Pairwise (·.uid < ·.uid))
    (hrows : d.bus.flat.map (·.path) = rowMajor d.bus.shape s!"{c.path}.{d.name}") :
    Listed { c with names := d.name :: c.names, declarations := c.declarations ++ [d] } where
  taken b hb := by
    rcases List.mem_append.1 hb with hb | hb
    · exact List.mem_cons_of_mem _ (hc.taken b hb)
    · rw [List.mem_singleton.1 hb]; exact List.mem_cons_self
  names := by
    rw [List.map_append, List.nodup_append]
    refine ⟨hc.names, List.nodup_singleton _, ?_⟩
    rintro n hold m hnew rfl
    obtain ⟨b, hb, hbn⟩ := List.mem_map.1 hold
    obtain rfl : n = d.name := List.mem_singleton.1 hnew
    exact hname (hbn ▸ hc.taken b hb)
  ascending := by
    rw [List.flatMap_append, List.flatMap_singleton]
    exact List.pairwise_append.2 ⟨hc.ascending, hascending, hlater⟩
  rows b hb := by
    rcases List.mem_append.1 hb with hb | hb
    · exact hc.rows b hb
    · rw [List.mem_singleton.1 hb]; exact hrows

end Instance.Listed

namespace Workspace

/-- The declarations of every component are listed. -/
def Listed (w : Workspace) : Prop := ∀ id, (w.instanceAt id).Listed

section
variable {w w' : Workspace}

theorem Listed.declare (hs : w.Sound) (hw : w.Listed) {here : ℕ} {role : Role} {name : String}
    (hname : name ∉ (w.instanceAt here).names) (dims : List ℕ) (mark : Mark) {bus : Bus}
    {signals : Array Signal}
    (hbus : makeBus w.field role (w.instanceAt here).path dims mark
      s!"{(w.instanceAt here).path}.{name}" w.signals = (bus, signals)) :
    Listed (w.withDeclared here signals ⟨name, role, bus⟩) := by
  intro id
  rw [instanceAt_withDeclared]
  split_ifs with hid
  · obtain ⟨rfl, -⟩ := hid
    have hm := makeBus_spec w.field role (w.instanceAt here).path dims mark
      s!"{(w.instanceAt here).path}.{name}" w.signals
    have hrows := paths_makeBus w.field role (w.instanceAt here).path dims mark
      s!"{(w.instanceAt here).path}.{name}" w.signals
    have hshape := shape_makeBus w.field role (w.instanceAt here).path dims mark
      s!"{(w.instanceAt here).path}.{name}" w.signals
    rw [hbus] at hm hrows hshape
    -- the numbers of the new signals go on after all others
    have hsorted := (hm.numbered hs.numbered).pairwise
    rw [hm.list, List.pairwise_append] at hsorted
    refine (hw here).declare hname (fun s hmem => ?_) hsorted.2.1 (by rw [hrows, hshape])
    obtain ⟨d, hd, hsd⟩ := List.mem_flatMap.1 hmem
    exact hsorted.2.2 s (Array.mem_toList_iff.2 (hs.declared here d hd s hsd).1)
  · exact hw id

theorem Move.listed {here : ℕ} (h : Move here w w') (hs : w.Sound) (hw : w.Listed) :
    w'.Listed := by
  cases h with
  | reserve name _ =>
    intro id
    rw [instanceAt_updateInstance]
    split_ifs
    · exact (hw id).mono rfl rfl (List.subset_cons_self _ _)
    · exact hw id
  | declare _ role name hname dims mark hbus => exact hw.declare hs hname dims mark hbus
  | enter parent name application =>
    intro id
    rw [instanceAt_push]
    split_ifs
    · exact .of_nil rfl
    · exact hw id
  | record row =>
    intro id
    rw [Workspace.record, instanceAt_updateInstance]
    split_ifs
    · exact (hw id).mono rfl rfl (List.Subset.refl _)
    · exact hw id
  | keep _ _ _ _ hi =>
    intro id
    rw [instanceAt, hi]
    exact hw id

/-- **Every chain of moves and statements keeps declarations listed.** -/
theorem Run.listed {S A : Set ℕ} {sts : List Statement} (h : Run S A w sts w') (hs : w.Sound)
    (hw : w.Listed) : w'.Listed := by
  induction h with
  | done => exact hw
  | move _ hm _ ih => exact ih (hm.sound hs) (hm.listed hs hw)
  | attach id name _ _ _ ih =>
    refine ih ((keeps_attach id name _).sound hs) fun j => ?_
    rw [instanceAt_updateInstance]
    split_ifs
    · exact (hw j).mono rfl rfl (List.Subset.refl _)
    · exact hw j
  | state hc _ ih => exact ih (hs.change hc) hw

theorem opened_listed {σ : Type} (t : Template σ) (field : PrimeField) (policy : DanglingPolicy) :
    (t.opened field policy).Listed := by
  intro id
  exact .of_nil (by rcases id with _ | id <;> rfl)

end

end Workspace

end RankOne
