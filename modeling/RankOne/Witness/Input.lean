/-
  RankOne — the boundary at which provers supply values.

  Inputs are given by name, whole arrays as nested sequences or entry by entry;
  overrides replace what a rule would compute.

  * `Mapping`: values by name, a repeated name keeping its first place and its
    last value;
  * `flatten`: the entries of nested sequences, named by their positions;
  * `coerce`: a supplied value as a field element;
  * `loadInputs`, `resolveOverrides`: the values of the main inputs, and of the
    overridden signals, by witness position.
-/
import RankOne.Circuit.Basic

namespace RankOne.Witness

/-- Values by name, in order of first mention. -/
abbrev Mapping := List (String × Value)

/-- Put a value under a name. -/
def Mapping.put (name : String) (v : Value) : Mapping → Mapping
  | [] => [(name, v)]
  | (n, u) :: rest => if n = name then (n, v) :: rest else (n, u) :: Mapping.put name v rest

/-- The mapping of a list of pairs. -/
def Mapping.ofPairs (pairs : List (String × Value)) : Mapping :=
  pairs.foldl (fun m p => Mapping.put p.1 p.2 m) []

/-- The value of a name. -/
def Mapping.find? (m : Mapping) (name : String) : Option Value :=
  (List.find? (fun p => p.1 == name) m).map (·.2)

/-- The mapping without a name. -/
def Mapping.erase (m : Mapping) (name : String) : Mapping := m.filter (·.1 ≠ name)

mutual

/-- The entries of a value under a name, however deep it is nested. -/
def flatten (name : String) : Value → List (String × Value)
  | .list xs _ => flattenItems name 0 xs
  | .tuple xs => flattenItems name 0 xs
  | .grid xs _ => flattenItems name 0 xs
  | v => [(name, v)]

/-- The entries of the items from the `i`-th on. -/
def flattenItems (name : String) : Nat → List Value → List (String × Value)
  | _, [] => []
  | i, v :: vs => flatten s!"{name}[{i}]" v ++ flattenItems name (i + 1) vs

end

/-- A name without the main component in front. -/
def relative (name : String) : String :=
  if name.startsWith "main." then (name.drop 5).toString else name

/-- All entries of a mapping. -/
def entries (inputs : Mapping) : Mapping :=
  .ofPairs (inputs.flatMap fun p => flatten (relative p.1) p.2)

/-- The integer of a supplied value; truth values are refused, except inside a
    grid without dimensions. -/
def integer (path : String) : Value → Except Error Int
  | .bool b => .error (.booleanInput path (Value.text (.bool b)))
  | .flag b => .error (.booleanInput path (Value.text (.flag b)))
  | .int n | .word n | .cell (.int n) => .ok n
  | .cell (.bool b) => .ok (Value.ofBool b)
  | .cell v => do .error (.notAnInteger path v.typeName (← v.spelled))
  | v => do .error (.notAnInteger path v.typeName (← v.spelled))

/-- A supplied value as a field element.  The report of one outside the field writes
    it, which fails on too many digits. -/
def coerce (policy : InputPolicy) (f : PrimeField) (path : String) (v : Value) :
    Except Error Nat := do
  let n ← integer path v
  match policy with
  | .reduce => return f.reduce n
  | .reject =>
    if f.isCanonical n then return n.toNat
    else if Value.isLong n then .error (.fault .value)
    else .error (.outsideField path n)

/-- Values by witness position, as far as they are known. -/
abbrev Known := Array (Option Nat)

/-- Load the values of the signals in order: the values so far, the names not
    supplied, and the entries not used. -/
def loadSignals (c : Circuit) : List Signal → Known → List String → Mapping →
    Except Error (Known × List String × Mapping)
  | [], values, missing, given => .ok (values, missing, given)
  | s :: ss, values, missing, given =>
    let name := (s.path.drop 5).toString
    match given.find? name with
    | none => loadSignals c ss values (missing ++ [name]) given
    | some v => do
      let n ← coerce c.settings.inputs c.field name v
      loadSignals c ss (values.setIfInBounds (c.place s) (some n)) missing (given.erase name)

/-- The main inputs. -/
def inputSignals (c : Circuit) : List Signal :=
  (c.mainInstance.withRole .input).flatMap (·.bus.flat)

/-- The values of the main inputs. -/
def loadInputs (c : Circuit) (inputs : Mapping) (values : Known) : Except Error Known := do
  let (values, missing, given) ← loadSignals c (inputSignals c) values [] (entries inputs)
  if !missing.isEmpty then .error (.missingInputs missing)
  else if !given.isEmpty then
    .error (.unknownInputs ((given.map (·.1)).foldr Component.insertName []))
  else return values

/-- Put a value under a position. -/
def force (i n : Nat) : List (Nat × Nat) → List (Nat × Nat)
  | [] => [(i, n)]
  | (j, m) :: rest => if j = i then (j, n) :: rest else (j, m) :: force i n rest

/-- The value that replaces what the rule of a signal would compute. -/
def resolveOverride (c : Circuit) (path : String) (v : Value) : Except Error (Nat × Nat) := do
  match c.signal? path with
  | none => .error (.overrideUnknown path c.title.text)
  | some s =>
    if (s.kind = .one ∨ s.kind = .declared .input) ∧ (s.component = "" ∨ s.component = "main") then
      .error (.overrideInput s.path)
    else return (c.place s, ← coerce c.settings.inputs c.field path v)

/-- The overridden values by witness position. -/
def resolveOverrides (c : Circuit) (overrides : Mapping) : Except Error (List (Nat × Nat)) :=
  overrides.foldlM (fun acc p => do
    let (i, n) ← resolveOverride c p.1 p.2
    return force i n acc) []

end RankOne.Witness
