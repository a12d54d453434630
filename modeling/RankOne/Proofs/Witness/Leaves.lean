/-
  RankOne — what a mapping supplies.

  The values of a mapping are nested sequences.  Each leaf has a key: the name of its value,
  without the main component in front, and its indices.

  * `Within`: a leaf of a nested value, by its indices; `mem_flatten`: the entries of a
    value are its leaves;
  * `indexed_inj`: a key tells the indices, so that no value has two leaves of one key;
  * `Leaf`, `LastLeaf`: the leaves of a mapping, and the last one of a key, which is what
    `find?_entries` finds;
  * `Stands`, `Admits`: the integer that a leaf stands for, and its field element;
    `coerce_eq_ok`.
-/
import RankOne.Proofs.Witness.Names

namespace RankOne.Witness

/-! ## Nested values -/

/-- The items of a sequence. -/
def items? : Value → Option (List Value)
  | .list xs _ => some xs
  | .tuple xs => some xs
  | .grid xs _ => some xs
  | _ => none

/-- What holds of a value whenever it holds of its items holds of all values. -/
theorem items_induct {P : Value → Prop}
    (h : ∀ v, (∀ xs, items? v = some xs → ∀ x ∈ xs, P x) → P v) (v : Value) : P v := by
  refine flatten.induct (fun _ v => P v) (fun _ _ xs => ∀ x ∈ xs, P x) ?_ ?_ ?_ ?_ ?_ ?_ "" v
  · rintro _ xs mark hxs
    exact h _ fun ys hys => by cases hys; exact hxs
  · rintro _ xs hxs
    exact h _ fun ys hys => by cases hys; exact hxs
  · rintro _ xs mark hxs
    exact h _ fun ys hys => by cases hys; exact hxs
  · rintro _ v hlist htuple hgrid
    refine h v fun xs hxs => ?_
    unfold items? at hxs
    split at hxs
    · exact absurd rfl (hlist _ _)
    · exact absurd rfl (htuple _)
    · exact absurd rfl (hgrid _ _)
    · cases hxs
  · intro _ _ x hx
    cases hx
  · intro _ _ v vs hv hvs
    exact List.forall_mem_cons.2 ⟨hv, hvs⟩

theorem flatten_of_items {name : String} {v : Value} {xs : List Value} (h : items? v = some xs) :
    flatten name v = flattenItems name 0 xs := by
  cases v <;> cases h <;> rfl

theorem flatten_of_leaf {name : String} {v : Value} (h : items? v = none) :
    flatten name v = [(name, v)] := by
  cases v <;> first | rfl | cases h

/-- The entries of the items from the `i`-th on. -/
theorem mem_flattenItems {name : String} {e : String × Value} : ∀ {xs : List Value} {i : ℕ},
    e ∈ flattenItems name i xs ↔ ∃ j x, xs[j]? = some x ∧ e ∈ flatten s!"{name}[{i + j}]" x := by
  intro xs
  induction xs with
  | nil => simp [flattenItems]
  | cons x xs ih =>
    intro i
    rw [flattenItems, List.mem_append, ih]
    constructor
    · rintro (h | ⟨j, y, hy, h⟩)
      · exact ⟨0, x, rfl, h⟩
      · exact ⟨j + 1, y, hy, by rwa [← Nat.add_assoc, Nat.add_right_comm]⟩
    · rintro ⟨_ | j, y, hy, h⟩
      · cases hy
        exact Or.inl h
      · exact Or.inr ⟨j, y, hy, by rwa [← Nat.add_assoc, Nat.add_right_comm] at h⟩

/-- A leaf stands in a nested value at some indices. -/
inductive Within : Value → List ℕ → Value → Prop
  | leaf {v : Value} (h : items? v = none) : Within v [] v
  | item {v x leaf : Value} {xs : List Value} {i : ℕ} {is : List ℕ} (h : items? v = some xs)
      (hi : xs[i]? = some x) (hx : Within x is leaf) : Within v (i :: is) leaf

/-- A name with indices. -/
def indexed (name : String) : List ℕ → String
  | [] => name
  | i :: is => indexed s!"{name}[{i}]" is

/-- **The entries of a value are its leaves**, under the name with their indices. -/
theorem mem_flatten {key : String} {x : Value} (v : Value) : ∀ {name : String},
    (key, x) ∈ flatten name v ↔ ∃ is, Within v is x ∧ indexed name is = key := by
  induction v using items_induct with
  | h v ih =>
    intro name
    cases hv : items? v with
    | none =>
      rw [flatten_of_leaf hv, List.mem_singleton, Prod.mk.injEq]
      constructor
      · rintro ⟨rfl, rfl⟩
        exact ⟨[], .leaf hv, rfl⟩
      · rintro ⟨is, hw, rfl⟩
        cases hw with
        | leaf => exact ⟨rfl, rfl⟩
        | item h => rw [hv] at h; cases h
    | some xs =>
      rw [flatten_of_items hv, mem_flattenItems]
      constructor
      · rintro ⟨j, y, hy, h⟩
        obtain ⟨is, hw, hkey⟩ := (ih xs hv y (List.mem_of_getElem? hy)).1 h
        rw [Nat.zero_add] at hkey
        exact ⟨j :: is, .item hv hy hw, hkey⟩
      · rintro ⟨is, hw, rfl⟩
        cases hw with
        | leaf h => rw [hv] at h; cases h
        | @item _ y _ ys i is h hi hw =>
          cases hv.symm.trans h
          refine ⟨i, y, hi, (ih xs hv y (List.mem_of_getElem? hi)).2 ⟨is, hw, ?_⟩⟩
          rw [Nat.zero_add]
          rfl

/-- What indices add to a name. -/
def indexText (is : List ℕ) : List Char := is.flatMap fun i => '[' :: (i.repr.toList ++ [']'])

theorem toList_indexed : ∀ (is : List ℕ) (name : String),
    (indexed name is).toList = name.toList ++ indexText is := by
  intro is
  induction is with
  | nil => exact fun name => (List.append_nil _).symm
  | cons i is ih =>
    intro name
    rw [indexed, ih, toList_index, List.append_assoc]
    rfl

theorem indexText_inj : ∀ {is js : List ℕ}, indexText is = indexText js → is = js := by
  intro is
  induction is with
  | nil =>
    rintro (_ | ⟨j, js⟩) h
    · rfl
    · cases h
  | cons i is ih =>
    rintro (_ | ⟨j, js⟩) h
    · cases h
    · -- the first index ends at the first closing bracket
      have h : i.repr.toList ++ ']' :: indexText is = j.repr.toList ++ ']' :: indexText js := by
        simpa [indexText] using h
      have hclose (k : ℕ) := not_mem_repr (c := ']') (by decide) k
      obtain ⟨hdigits, hrest⟩ :=
        append_inj_of_not_mem (hclose i) (hclose j) (.inr rfl) (.inr rfl) h
      rw [Nat.toList_repr, Nat.toList_repr] at hdigits
      rw [← @Nat.ofDigitChars_ten_toDigits i, hdigits, Nat.ofDigitChars_ten_toDigits,
        ih (List.cons_injective hrest)]

/-- **A key tells the indices.** -/
theorem indexed_inj {name : String} {is js : List ℕ} (h : indexed name is = indexed name js) :
    is = js := by
  have htext := congrArg String.toList h
  rw [toList_indexed, toList_indexed] at htext
  exact indexText_inj (List.append_cancel_left htext)

/-- At some indices there is one leaf. -/
theorem Within.unique {v x y : Value} {is : List ℕ} (h : Within v is x) (h' : Within v is y) :
    x = y := by
  induction h with
  | leaf h =>
    cases h' with
    | leaf => rfl
  | item h hi _ ih =>
    cases h' with
    | item h' hi' hy =>
      cases h.symm.trans h'
      cases hi.symm.trans hi'
      exact ih hy

/-! ## Mappings -/

/-- An item of a mapping supplies a leaf under a key. -/
def Leaf (p : String × Value) (key : String) (x : Value) : Prop :=
  ∃ is, Within p.2 is x ∧ indexed (relative p.1) is = key

/-- The last leaf of a key. -/
def LastLeaf (inputs : Mapping) (key : String) (x : Value) : Prop :=
  ∃ pre p post, inputs = pre ++ p :: post ∧ Leaf p key x ∧ ∀ q ∈ post, ∀ y, ¬ Leaf q key y

theorem Leaf.unique {p : String × Value} {key : String} {x y : Value} (h : Leaf p key x)
    (h' : Leaf p key y) : x = y := by
  obtain ⟨is, hx, rfl⟩ := h
  obtain ⟨js, hy, hkey⟩ := h'
  obtain rfl := indexed_inj hkey
  exact hx.unique hy

theorem LastLeaf.exists_leaf {inputs : Mapping} {key : String} {x : Value}
    (h : LastLeaf inputs key x) : ∃ p ∈ inputs, Leaf p key x := by
  obtain ⟨pre, p, post, rfl, h, -⟩ := h
  exact ⟨p, by simp, h⟩

/-- A key with a leaf has a last one. -/
theorem exists_lastLeaf {key : String} : ∀ {inputs : Mapping}, (∃ p ∈ inputs, ∃ x, Leaf p key x) →
    ∃ x, LastLeaf inputs key x := by
  intro inputs
  induction inputs with
  | nil => simp
  | cons p inputs ih =>
    intro h
    by_cases hlater : ∃ q ∈ inputs, ∃ y, Leaf q key y
    · obtain ⟨x, pre, q, post, rfl, hq⟩ := ih hlater
      exact ⟨x, p :: pre, q, post, rfl, hq⟩
    · obtain ⟨q, hq, x, hx⟩ := h
      rcases List.mem_cons.1 hq with rfl | hq
      · exact ⟨x, [], q, inputs, rfl, hx, fun r hr y hy => hlater ⟨r, hr, y, hy⟩⟩
      · exact absurd ⟨q, hq, x, hx⟩ hlater

namespace Mapping

theorem find?_cons (n key : String) (u : Value) (m : Mapping) :
    Mapping.find? ((n, u) :: m) key = if n = key then some u else m.find? key := by
  by_cases h : n = key <;> simp [Mapping.find?, h]

theorem find?_put (name key : String) (v : Value) (m : Mapping) :
    (m.put name v).find? key = if name = key then some v else m.find? key := by
  induction m with
  | nil => exact find?_cons name key v []
  | cons p m ih =>
    obtain ⟨n, u⟩ := p
    rw [Mapping.put]
    by_cases hn : n = name
    · subst hn
      rw [if_pos rfl, find?_cons, find?_cons]
      split_ifs <;> rfl
    · rw [if_neg hn, find?_cons, find?_cons, ih]
      by_cases hkey : n = key
      · rw [if_pos hkey, if_pos hkey, if_neg fun h => hn (hkey.trans h.symm)]
      · rw [if_neg hkey, if_neg hkey]

/-- Pairs with other keys put nothing under a key. -/
theorem find?_foldl_of_not_mem {key : String} {pairs : List (String × Value)}
    (h : ∀ y, (key, y) ∉ pairs) : ∀ {m : Mapping},
    Mapping.find? (pairs.foldl (fun m p => Mapping.put p.1 p.2 m) m) key = m.find? key := by
  induction pairs with
  | nil => exact rfl
  | cons p pairs ih =>
    intro m
    have hne : p.1 ≠ key := fun hp => h p.2 (by rw [← hp]; exact List.mem_cons_self)
    rw [List.foldl_cons, ih fun y hy => h y (List.mem_cons_of_mem _ hy), find?_put, if_neg hne]

/-- Pairs that agree on a key put its value under it. -/
theorem find?_foldl_of_unique {key : String} {x : Value} {pairs : List (String × Value)}
    (hx : (key, x) ∈ pairs) (h : ∀ y, (key, y) ∈ pairs → y = x) : ∀ {m : Mapping},
    Mapping.find? (pairs.foldl (fun m p => Mapping.put p.1 p.2 m) m) key = some x := by
  induction pairs with
  | nil => cases hx
  | cons p pairs ih =>
    intro m
    by_cases hlater : (key, x) ∈ pairs
    · exact ih hlater fun y hy => h y (List.mem_cons_of_mem _ hy)
    · obtain rfl : (key, x) = p := (List.mem_cons.1 hx).resolve_right hlater
      rw [List.foldl_cons, find?_foldl_of_not_mem fun y hy => ?_, find?_put, if_pos rfl]
      exact hlater (h y (List.mem_cons_of_mem _ hy) ▸ hy)

end Mapping

/-- The pairs of a mapping are its leaves. -/
theorem mem_flatMap_flatten {inputs : Mapping} {key : String} {x : Value} :
    (key, x) ∈ inputs.flatMap (fun p => flatten (relative p.1) p.2) ↔
      ∃ p ∈ inputs, Leaf p key x := by
  rw [List.mem_flatMap]
  exact exists_congr fun p => and_congr_right fun _ => mem_flatten p.2

theorem LastLeaf.find? {inputs : Mapping} {key : String} {x : Value} (h : LastLeaf inputs key x) :
    (entries inputs).find? key = some x := by
  obtain ⟨pre, p, post, rfl, hx, hpost⟩ := h
  rw [entries, Mapping.ofPairs, List.flatMap_append, List.foldl_append]
  refine Mapping.find?_foldl_of_unique
    (mem_flatMap_flatten.2 ⟨p, List.mem_cons_self, hx⟩) fun y hmem => ?_
  obtain ⟨q, hq, hy⟩ := mem_flatMap_flatten.1 hmem
  rcases List.mem_cons.1 hq with rfl | hq
  · exact hy.unique hx
  · exact absurd hy (hpost q hq y)

/-- **Under a key the last leaf is found.** -/
theorem find?_entries {inputs : Mapping} {key : String} {x : Value} :
    (entries inputs).find? key = some x ↔ LastLeaf inputs key x := by
  refine ⟨fun h => ?_, LastLeaf.find?⟩
  have hleaf : ∃ p ∈ inputs, ∃ y, Leaf p key y := by
    by_contra hnone
    rw [entries, Mapping.ofPairs, Mapping.find?_foldl_of_not_mem fun y hy => ?_] at h
    · cases h
    · obtain ⟨p, hp, hy⟩ := mem_flatMap_flatten.1 hy
      exact hnone ⟨p, hp, y, hy⟩
  obtain ⟨y, hy⟩ := exists_lastLeaf hleaf
  cases hy.find?.symm.trans h
  exact hy

/-- A key is in the entries exactly if it has a leaf. -/
theorem mem_keys_entries {inputs : Mapping} {key : String} :
    key ∈ (entries inputs).map (·.1) ↔ ∃ p ∈ inputs, ∃ x, Leaf p key x := by
  have hsome : key ∈ (entries inputs).map (·.1) ↔ ∃ x, (entries inputs).find? key = some x := by
    rw [← Option.isSome_iff_exists, Mapping.find?, Option.isSome_map, List.find?_isSome]
    simp
  rw [hsome]
  constructor
  · rintro ⟨x, hx⟩
    obtain ⟨p, hp, hleaf⟩ := (find?_entries.1 hx).exists_leaf
    exact ⟨p, hp, x, hleaf⟩
  · intro h
    obtain ⟨x, hx⟩ := exists_lastLeaf h
    exact ⟨x, hx.find?⟩

/-! ## Field elements -/

/-- The integer that a leaf stands for.  Truth values stand for none, except inside a grid
    without dimensions. -/
inductive Stands : Value → Int → Prop
  | int (n : Int) : Stands (.int n) n
  | word (n : Int) : Stands (.word n) n
  | cell (n : Int) : Stands (.cell (.int n)) n
  | truth (b : Bool) : Stands (.cell (.bool b)) (Value.ofBool b)

/-- A leaf is taken for a field element: the residue of its integer, which the strict policy
    wants canonical. -/
def Admits (policy : InputPolicy) (f : PrimeField) (x : Value) (m : ℕ) : Prop :=
  ∃ n, Stands x n ∧ (policy = .reject → 0 ≤ n ∧ n < f.p) ∧ (m : Int) = n % f.p

theorem integer_eq_ok {path : String} {x : Value} {n : Int} :
    integer path x = .ok n ↔ Stands x n := by
  constructor
  · intro h
    unfold integer at h
    split at h
    case h_7 | h_8 =>
      obtain ⟨_, -, h⟩ := bind_eq_ok.1 h
      cases h
    all_goals
      cases h <;> constructor
  · intro h
    cases h <;> rfl

/-- **What is taken for a field element.** -/
theorem coerce_eq_ok {policy : InputPolicy} {f : PrimeField} {path : String} {x : Value} {m : ℕ} :
    coerce policy f path x = .ok m ↔ Admits policy f x m := by
  simp only [coerce, Admits, bind_eq_ok, integer_eq_ok]
  refine exists_congr fun n => and_congr_right fun _ => ?_
  have hp := f.p_pos
  cases policy with
  | reduce =>
    have hreduce : ((f.reduce n : ℕ) : Int) = n % f.p :=
      Int.toNat_of_nonneg (Int.emod_nonneg n (by omega))
    rw [← hreduce, Nat.cast_inj]
    constructor
    · intro h
      cases h
      exact ⟨fun hreject => absurd hreject (by decide), rfl⟩
    · rintro ⟨-, rfl⟩
      rfl
  | reject =>
    have hcanonical : f.isCanonical n = true ↔ 0 ≤ n ∧ n < f.p := by
      simp [PrimeField.isCanonical]
    by_cases hn : 0 ≤ n ∧ n < f.p
    · simp only [hcanonical.2 hn, if_pos]
      rw [Int.emod_eq_of_lt hn.1 hn.2]
      constructor
      · intro h
        cases h
        exact ⟨fun _ => hn, Int.toNat_of_nonneg hn.1⟩
      · rintro ⟨-, rfl⟩
        rfl
    · simp only [if_neg fun h => hn (hcanonical.1 h)]
      refine iff_of_false (fun h => ?_) fun h => hn (h.1 trivial)
      split_ifs at h

end RankOne.Witness
