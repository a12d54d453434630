/-
  RankOne — what a path names.

  The path of a signal is put together from the path of its component, its declared
  name and its indices.  It can be taken apart again where declared names hold
  neither a dot nor an opening bracket.

  * `rowMajor_indices`, `nodup_rowMajor`: what the indices of an array add to a path;
  * `path_inj`: a path tells component, name and indices;
  * `Workspace.eq_of_path`, `distinctPaths_of_plain`: distinct components with plain
    names have signals with distinct paths;
  * `Circuit.symbols_eq`: the table of symbols, where paths are distinct;
  * `names_resolve`: what follows for a compiled circuit.
-/
import RankOne.Proofs.Circuit.Instances
import RankOne.Proofs.Witness.Adversary

namespace RankOne

/-! ## Indices -/

/-- Two texts that are cut at the first occurrence of a character are cut alike. -/
theorem append_inj_of_not_mem {c : Char} {xs ys rest rest' : List Char} (hx : c ∉ xs) (hy : c ∉ ys)
    (hr : rest = [] ∨ rest.head? = some c) (hr' : rest' = [] ∨ rest'.head? = some c)
    (h : xs ++ rest = ys ++ rest') : xs = ys ∧ rest = rest' := by
  have hcut {zs r : List Char} (hz : c ∉ zs) (hr : r = [] ∨ r.head? = some c) :
      (zs ++ r).takeWhile (· ≠ c) = zs := by
    rw [List.takeWhile_append_of_pos fun x hxz => by simpa using fun he : x = c => hz (he ▸ hxz)]
    cases r with
    | nil => simp
    | cons x r =>
      obtain rfl : x = c := by simpa using hr
      simp
  obtain rfl : xs = ys := by rw [← hcut hx hr, h, hcut hy hr']
  exact ⟨rfl, List.append_cancel_left h⟩

theorem not_mem_repr {c : Char} (hc : c.isDigit = false) (i : ℕ) : c ∉ i.repr.toList := by
  intro hm
  rw [Nat.toList_repr] at hm
  rw [Nat.isDigit_of_mem_toDigits (by decide) (by decide) hm] at hc
  cases hc

theorem toList_index (path : String) (i : ℕ) :
    (s!"{path}[{i}]").toList = path.toList ++ '[' :: (i.repr.toList ++ [']']) := by
  change (path ++ "[" ++ i.repr ++ "]").toList = _
  simp

/-- An index does not depend on the beginning of a path. -/
theorem index_append (pre path : String) (i : ℕ) :
    s!"{pre ++ path}[{i}]" = pre ++ s!"{path}[{i}]" := by
  refine String.toList_injective ?_
  rw [toList_index, String.toList_append, String.toList_append, toList_index, List.append_assoc]

/-- What indices add to a path: nothing, or brackets, and no dot. -/
def Indices (rest : List Char) : Prop := '.' ∉ rest ∧ (rest = [] ∨ rest.head? = some '[')

/-- The signals of an array are named by the array and their indices. -/
theorem rowMajor_indices : ∀ (ds : List ℕ) (path x : String), x ∈ rowMajor ds path →
    ∃ rest, x.toList = path.toList ++ rest ∧ Indices rest
  | [], path, x, hx => ⟨[], by rw [List.mem_singleton.1 hx, List.append_nil], by simp [Indices]⟩
  | d :: ds, path, x, hx => by
    obtain ⟨i, -, hx⟩ := List.mem_flatMap.1 hx
    obtain ⟨rest, hr, hdot, -⟩ := rowMajor_indices ds _ x hx
    refine ⟨'[' :: (i.repr.toList ++ [']']) ++ rest, ?_, ?_, Or.inr rfl⟩
    · rw [hr, toList_index, List.append_assoc]
    · simpa [hdot] using not_mem_repr (c := '.') (by decide) i

/-- **No two signals of an array have the same path.** -/
theorem nodup_rowMajor : ∀ (ds : List ℕ) (path : String), (rowMajor ds path).Nodup
  | [], path => List.nodup_singleton path
  | d :: ds, path => by
    refine List.nodup_flatMap.2 ⟨fun i _ => nodup_rowMajor ds _, ?_⟩
    refine List.nodup_range.imp fun {i j} hne x hi hj => hne ?_
    obtain ⟨r, hr, -⟩ := rowMajor_indices ds _ x hi
    obtain ⟨r', hr', -⟩ := rowMajor_indices ds _ x hj
    -- the first index ends at the first closing bracket
    have h : i.repr.toList ++ ']' :: r = j.repr.toList ++ ']' :: r' := by
      rw [hr, toList_index, toList_index] at hr'
      simpa using hr'
    have hclose (k : ℕ) := not_mem_repr (c := ']') (by decide) k
    have hdigits := (append_inj_of_not_mem (hclose i) (hclose j) (.inr rfl) (.inr rfl) h).1
    rw [Nat.toList_repr, Nat.toList_repr] at hdigits
    rw [← @Nat.ofDigitChars_ten_toDigits i, hdigits, Nat.ofDigitChars_ten_toDigits]

/-! ## Taking a path apart -/

/-- A name without a dot or an opening bracket. -/
def PlainName (name : String) : Prop := '.' ∉ name.toList ∧ '[' ∉ name.toList

instance (name : String) : Decidable (PlainName name) := inferInstanceAs (Decidable (_ ∧ _))

theorem toList_child (path name : String) :
    (s!"{path}.{name}").toList = path.toList ++ '.' :: name.toList := by
  change (path ++ "." ++ name).toList = _
  simp

/-- **A path tells its parts**: what stands before the last dot, the name after it,
    and the indices. -/
theorem path_inj {path q name m : String} (hn : PlainName name) (hn' : PlainName m)
    {rest rest' : List Char} (hr : Indices rest) (hr' : Indices rest')
    (h : (s!"{path}.{name}").toList ++ rest = (s!"{q}.{m}").toList ++ rest') :
    path = q ∧ name = m ∧ rest = rest' := by
  have hrev : (name.toList ++ rest).reverse ++ '.' :: path.toList.reverse =
      (m.toList ++ rest').reverse ++ '.' :: q.toList.reverse := by
    rw [toList_child, toList_child] at h
    simpa using congrArg List.reverse h
  have hdot {n : String} {r : List Char} (hn : PlainName n) (hr : Indices r) :
      '.' ∉ (n.toList ++ r).reverse := by
    simpa using ⟨hr.1, hn.1⟩
  obtain ⟨hlast, hfirst⟩ :=
    append_inj_of_not_mem (hdot hn hr) (hdot hn' hr') (.inr rfl) (.inr rfl) hrev
  obtain ⟨hname, hrest⟩ :=
    append_inj_of_not_mem hn.2 hn'.2 hr.2 hr'.2 (List.reverse_injective hlast)
  refine ⟨String.toList_injective ?_, String.toList_injective hname, hrest⟩
  exact List.reverse_injective (List.cons_injective hfirst)

namespace Workspace

section
variable {w : Workspace} (hw : w.Sound) (hl : w.Listed)
include hl

/-- The path of a declared signal, in its parts. -/
theorem Listed.path {id : ℕ} {d : Declaration} (hd : d ∈ (w.instanceAt id).declarations)
    {s : Signal} (hs : s ∈ d.bus.flat) :
    ∃ rest, s.path.toList = (s!"{(w.instanceAt id).path}.{d.name}").toList ++ rest ∧
      Indices rest :=
  rowMajor_indices _ _ _ ((hl id).rows d hd ▸ List.mem_map_of_mem hs)

include hw

/-- Only the constant has a path without a dot. -/
theorem dot_mem_path {s : Signal} (hs : s ∈ w.signals) (hk : s.kind ≠ .one) :
    '.' ∈ s.path.toList := by
  obtain ⟨id, d, hd, hsd⟩ := hw.covered s hs hk
  obtain ⟨rest, hr, -⟩ := hl.path hd hsd
  rw [hr, toList_child]
  simp

/-- **Where components have distinct paths and declared names are plain, a signal is
    known by its path.** -/
theorem eq_of_path (hpaths : (w.instances.toList.map (·.path)).Nodup)
    (hplain : ∀ i ∈ w.instances, ∀ d ∈ i.declarations, PlainName d.name) {s u : Signal}
    (hs : s ∈ w.signals) (hu : u ∈ w.signals) (h : s.path = u.path) : s = u := by
  have hone {v : Signal} (hv : v ∈ w.signals) (hk : v.kind = .one) : '.' ∉ v.path.toList := by
    rw [hw.kind v hv hk]; simp [one]
  by_cases hsk : s.kind = .one <;> by_cases huk : u.kind = .one
  · rw [hw.kind s hs hsk, hw.kind u hu huk]
  · exact absurd (h ▸ dot_mem_path hw hl hu huk) (hone hs hsk)
  · exact absurd (h ▸ dot_mem_path hw hl hs hsk) (hone hu huk)
  obtain ⟨i, d, hd, hsd⟩ := hw.covered s hs hsk
  obtain ⟨j, e, he, hue⟩ := hw.covered u hu huk
  obtain ⟨rest, hr, hrest⟩ := hl.path hd hsd
  obtain ⟨rest', hr', hrest'⟩ := hl.path he hue
  have hi := lt_of_declared hd
  have hj := lt_of_declared he
  obtain ⟨hpath, hname, -⟩ := path_inj (hplain _ (instanceAt_mem hi) d hd)
    (hplain _ (instanceAt_mem hj) e he) hrest hrest' (by rw [← hr, ← hr', h])
  -- the same component, the same declaration of it, the same place in its array
  obtain rfl : i = j := eq_of_instance_eq hpaths hi hj hpath
  obtain rfl : d = e := List.inj_on_of_nodup_map (hl i).names hd he hname
  have hnodup : (d.bus.flat.map (·.path)).Nodup := by
    rw [(hl i).rows d hd]; exact nodup_rowMajor _ _
  exact List.inj_on_of_nodup_map hnodup hsd hue h

end

end Workspace

/-! ## Tables and look-ups -/

namespace Circuit

variable {c : Circuit}

theorem putSymbol_of_not_mem {path : String} {i : ℕ} : ∀ {table : List (String × ℕ)},
    path ∉ table.map (·.1) → putSymbol path i table = table ++ [(path, i)]
  | [], _ => rfl
  | (p, j) :: rest, h => by
    rw [List.map_cons, List.mem_cons, not_or] at h
    rw [putSymbol, if_neg (Ne.symm h.1), putSymbol_of_not_mem h.2, List.cons_append]

theorem foldl_putSymbol {ss : List Signal} : ∀ {table : List (String × ℕ)},
    (table.map (·.1) ++ ss.map (·.path)).Nodup →
    ss.foldl (fun acc s => putSymbol s.path (c.place s) acc) table =
      table ++ ss.map fun s => (s.path, c.place s) := by
  induction ss with
  | nil => intro table _; simp
  | cons s ss ih =>
    intro table h
    have hfresh : s.path ∉ table.map (·.1) := fun hm =>
      (List.nodup_append.1 h).2.2 _ hm _ List.mem_cons_self rfl
    rw [List.foldl_cons, putSymbol_of_not_mem hfresh, ih (by simpa using h)]
    simp

/-- **Where paths are distinct, the table of symbols has every signal at its
    place.** -/
theorem symbols_eq (h : Witness.DistinctPaths c) :
    c.symbols = c.signals.toList.map fun s => (s.path, c.place s) := by
  have hnodup : (([] : List (String × ℕ)).map (·.1) ++ c.signals.toList.map (·.path)).Nodup := h
  rw [symbols, foldl_putSymbol hnodup, List.nil_append]

theorem byPath?_eq_none {path : String} (h : ∀ s ∈ c.signals, s.path ≠ path) :
    c.byPath? path = none := by
  rw [byPath?, List.find?_eq_none]
  intro s hs
  simpa using h s (by simpa using hs)

end Circuit

/-! ## Compiled circuits -/

section
variable {σ : Type} {settings : Settings} {t : Template σ} {host : σ} {public_ : List String}
  {c : Circuit}

/-- **Components with distinct paths and plain names have signals with distinct
    paths.** -/
theorem distinctPaths_of_plain (h : (compile settings t host public_).result = .ok c)
    (hpaths : (c.instances.toList.map (·.path)).Nodup)
    (hplain : ∀ i ∈ c.instances, ∀ d ∈ i.declarations, PlainName d.name) :
    Witness.DistinctPaths c := by
  obtain ⟨field, w, -, hrun, hc⟩ := compile_spec h
  have hopen := Workspace.opened_sound t field settings.dangling
  have hw := hrun.sound hopen
  have hl := hrun.listed hopen (Workspace.opened_listed t field settings.dangling)
  obtain ⟨-, -, w', hb, -, -, -, -, -, hs, -, -, -⟩ := Circuit.ofWorkspace_eq_ok hc
  have hnodup := (Circuit.bindFrom_spec hb).1
  rw [Circuit.instances_of_workspace hc] at hpaths hplain
  rw [Witness.DistinctPaths, hs]
  exact hnodup.map_on fun s hs u hu => Workspace.eq_of_path hw hl hpaths hplain
    ((Circuit.mem_layout hw).1 hs) ((Circuit.mem_layout hw).1 hu)

/-- A signal of the main component, by its path without the main component. -/
theorem main_path (h : (compile settings t host public_).result = .ok c)
    (hplain : ∀ i ∈ c.instances, ∀ d ∈ i.declarations, PlainName d.name) {s : Signal}
    (hs : s ∈ c.mainInstance.declarations.flatMap (·.bus.flat)) :
    ∃ rel : String, s.path = "main." ++ rel ∧ '.' ∉ rel.toList := by
  obtain ⟨field, w, -, hrun, hc⟩ := compile_spec h
  have hopen := Workspace.opened_sound t field settings.dangling
  have hw := hrun.sound hopen
  have hl := hrun.listed hopen (Workspace.opened_listed t field settings.dangling)
  obtain ⟨-, hat, hmain, -⟩ := Circuit.of_workspace hw hc
  obtain ⟨d, hd, hsd⟩ := List.mem_flatMap.1 hs
  have hd : d ∈ (w.instanceAt 0).declarations := by rw [← hat 0, ← hmain]; exact hd
  have hname : PlainName d.name := by
    rw [Circuit.instances_of_workspace hc] at hplain
    exact hplain _ (Workspace.instanceAt_mem hw.size_pos) d hd
  obtain ⟨rest, hr, hrest⟩ := hl.path hd hsd
  refine ⟨String.ofList (d.name.toList ++ rest), String.toList_injective ?_, ?_⟩
  · rw [hr, toList_child, hw.main]
    simp
  · simpa using ⟨hname.1, hrest.1⟩

/-- **Names resolve.**  In a compiled circuit whose components have distinct paths
    and whose declared names are plain, no two signals share a path, every signal is
    found under its path, the table of symbols has one entry for each, and a signal of
    the main component is also found under its path without the main component,
    unless that is the path of the constant. -/
theorem names_resolve (h : (compile settings t host public_).result = .ok c)
    (hpaths : (c.instances.toList.map (·.path)).Nodup)
    (hplain : ∀ i ∈ c.instances, ∀ d ∈ i.declarations, PlainName d.name) :
    Witness.DistinctPaths c ∧
    (∀ s ∈ c.signals, c.signal s.path = .ok s) ∧
    c.symbols = c.signals.toList.map (fun s => (s.path, c.place s)) ∧
    c.symbols.length = c.system.signals ∧
    ∀ s ∈ c.mainInstance.declarations.flatMap (·.bus.flat), ∃ rel, s.path = "main." ++ rel ∧
      c.signal rel = .ok (if rel = "one" then Workspace.one c.field else s) := by
  have hc := compile_coherent h
  have hd := distinctPaths_of_plain h hpaths hplain
  have hfound {s : Signal} (hs : s ∈ c.signals) : c.signal s.path = .ok s := by
    rw [Circuit.signal, hd.signal? hs]
  have hsymbols := Circuit.symbols_eq hd
  refine ⟨hd, fun s hs => hfound hs, hsymbols, ?_, fun s hs => ?_⟩
  · rw [hsymbols, List.length_map, hc.size, Array.length_toList]
  obtain ⟨rel, hrel, hdot⟩ := main_path h hplain hs
  refine ⟨rel, hrel, ?_⟩
  split_ifs with hone
  · rw [hone]
    exact hfound (Array.mem_of_getElem? hc.first)
  · -- every signal but the constant has a dot in its path
    have hnone : c.byPath? rel = none := by
      refine Circuit.byPath?_eq_none fun u hu he => ?_
      by_cases hk : u.kind = .one
      · exact hone (by rw [← he, hc.kind u hu hk]; rfl)
      · obtain ⟨rest, hr⟩ := ((compile_placed h).1 u hu hk).2
        exact hdot (by rw [← he, hr]; simp)
    have hby := hd.byPath? (declared_mem_signals h c.main s hs)
    rw [hrel] at hby
    simp only [Circuit.signal, Circuit.signal?, hnone]
    rw [show c.byPath? (toString "main." ++ toString rel) = some s from hby]

end

open Build in
/-- An output that tells whether a row of two inputs sums to zero, asked of a child. -/
def askSum : Build Unit Unit := do
  let xs ← signals .input "x" (.int 2)
  let y ← signal .output "y"
  let zero ← component "zero" Gadget.isZeroTemplate
  assign (← terminalSignal zero "in") (Gadget.total (← field) xs)
  assign y (.ofSignal (← terminalSignal zero "out"))

/-- The template of this question. -/
def askSumTemplate : Template Unit := ⟨.of "AskSum" [], askSum⟩

/-- The seven signals of this question are found, an input of the row also under its
    path without the main component. -/
theorem askSum_names_resolve :
    ∃ c, (compile { prime := .int 7 } askSumTemplate () []).result = .ok c ∧
      c.symbols.length = 7 ∧ (∀ s ∈ c.signals, c.signal s.path = .ok s) ∧
      ∃ s ∈ c.signals, s.path = "main.x[1]" ∧ c.signal "x[1]" = .ok s := by
  obtain ⟨c, hc, hpaths, hplain, hsize, s, hs, hx⟩ := exists_ok
    (x := (compile { prime := .int 7 } askSumTemplate () []).result)
    (P := fun c => (c.instances.toList.map (·.path)).Nodup ∧
      (∀ i ∈ c.instances, ∀ d ∈ i.declarations, PlainName d.name) ∧ c.system.signals = 7 ∧
      ∃ s ∈ c.mainInstance.declarations.flatMap (·.bus.flat), s.path = "main.x[1]")
    (by decide +kernel)
  obtain ⟨-, hfound, -, hlength, hmain⟩ := names_resolve hc hpaths hplain
  obtain ⟨rel, hrel, hsignal⟩ := hmain s hs
  obtain rfl : rel = "x[1]" := by
    rw [← Witness.relative_main rel, ← hrel, hx]; decide +kernel
  exact ⟨c, hc, by rw [hlength, hsize], hfound, s, declared_mem_signals hc c.main s hs, hx, hsignal⟩

open Build in
/-- An input with a bracket in its name beside an array, and an output with the name
    of the constant. -/
def bracketed : Build Unit Unit := do
  let x ← signal .input "x[0]"
  let _ ← signals .input "x" (.int 1)
  let y ← signal .output "one"
  assign y (.ofSignal x)

/-- The template of these names. -/
def bracketedTemplate : Template Unit := ⟨.of "Bracketed" [], bracketed⟩

open Build in
/-- A child that is given up after it has computed its output. -/
def givenUp : Build Unit Unit := do
  assign (← signal .output "y") (← const 1)
  throw (.fault .type)

open Build in
/-- A child with one output. -/
def emitsOne : Build Unit Unit := do
  assign (← signal .output "y") (← const 1)

open Build in
/-- A place that is filled again after a child was given up. -/
def retried : Build Unit Unit := do
  let q ← slots "q" (.int 1)
  tryCatch (discard (fill q 0 ⟨.of "GivenUp" [], givenUp⟩)) fun _ => pure ()
  let _ ← fill q 0 ⟨.of "EmitsOne" [], emitsOne⟩

/-- The template of the place filled twice. -/
def retriedTemplate : Template Unit := ⟨.of "Retried" [], retried⟩

/-- **Names may clash.**  A name with a bracket is that of an array entry, the name of
    the constant hides a main signal, and a place filled again has two components of
    one path. -/
theorem clashing_names_hide_signals :
    (∃ c, (compile { prime := .int 97 } bracketedTemplate () []).result = .ok c ∧
      (c.instances.toList.map (·.path)).Nodup ∧
      c.system.signals = 4 ∧ c.symbols.length = 3 ∧
      (∃ s ∈ c.signals.toList, (c.signal? s.path).map (·.uid) ≠ some s.uid) ∧
      ∃ s ∈ c.mainInstance.declarations.flatMap (·.bus.flat),
        s.path = "main.one" ∧ (c.signal? "one").map (·.uid) ≠ some s.uid) ∧
    ∃ c, (compile { prime := .int 97 } retriedTemplate () []).result = .ok c ∧
      (∀ i ∈ c.instances, ∀ d ∈ i.declarations, PlainName d.name) ∧
      c.system.signals = 3 ∧ c.symbols.length = 2 ∧
      ∃ s ∈ c.signals.toList, (c.signal? s.path).map (·.uid) ≠ some s.uid :=
  ⟨exists_ok (by decide +kernel), exists_ok (by decide +kernel)⟩

end RankOne
