/-
  RankOne — witness evaluation.

  The inputs are loaded, the rules run in their order, overridden signals take
  the supplied value instead, and the result is checked against every row.

  * `runRule`, `runRules`: the value of one rule, and of all;
  * `verify`: the check against the system;
  * `evaluate`, `evaluateAll`: the witness of inputs and overrides, and of a batch;
  * `Witness`: the values with the circuit they belong to, and ways to read them.
-/
import RankOne.Witness.Input
import RankOne.Witness.Trial

namespace RankOne

/-- The values of all signals of a circuit, by witness position. -/
structure Witness where
  circuit : Circuit
  values : Array Nat

namespace Witness

/-! ## Evaluation -/

/-- The value of a signal, if it is known. -/
def read (c : Circuit) (values : Known) (s : Signal) : Except Error Int := do
  match values[← c.index s]? with
  | some (some n) => .ok n
  | some none => .error (.fault .type)
  | none => .error (.fault .index)

/-- The value that a hint advises. -/
def runHint (f : PrimeField) (target : Signal) (h : Hint) (args : List Nat) : Except Error Nat :=
  match h.run f args with
  | .ok (.value n) => .ok (f.reduce n)
  | .ok (.refused text) => .error (.hintValue target.path text)
  | .ok (.unwritten e) => .error e
  | .error .zeroDivision => .error (.hintDivided target.path)
  | .error (.failed reason) => .error (.hintFailed target.path reason)
  | .error (.raised e _) => .error e

/-- The value that a rule computes. -/
def runRule (c : Circuit) (values : Known) (r : Rule) : Except Error Nat :=
  match r.action with
  | .assign e => e.evaluate (read c values)
  | .hint h deps => do
    let args ← deps.mapM fun d => d.evaluate (read c values)
    runHint c.field r.target h args

/-- The value of a rule, unless another is forced at its place. -/
def valueAt (c : Circuit) (forced : List (Nat × Nat)) (values : Known) (r : Rule) (i : Nat) :
    Except Error Nat :=
  match forced.find? (·.1 == i) with
  | some f => .ok f.2
  | none => runRule c values r

/-- The values after running rules in order. -/
def runRules (c : Circuit) (forced : List (Nat × Nat)) : List Rule → Known → Except Error Known
  | [], values => .ok values
  | r :: rs, values => do
    let i ← c.index r.target
    let n ← valueAt c forced values r i
    if i < values.size then runRules c forced rs (values.setIfInBounds i (some n))
    else .error (.fault .index)

/-- The signals of a row besides the constant, with their values. -/
def rowValues (c : Circuit) (values : Array Nat) (r : Constraint) : List (String × Int) :=
  (r.indices.filter (· ≠ 0)).filterMap fun i =>
    match c.signals[i.toNat]?, values[i.toNat]? with
    | some s, some n => some (s.path, c.field.toSigned n)
    | _, _ => none

/-- Check the values against every row. -/
def verify (c : Circuit) (values : Array Nat) : Except Error Unit := do
  match ← c.system.unsatisfiedRows (values.map Int.ofNat) with
  | [] => return ()
  | row :: rest => match c.system.constraints[row]? with
    | some r => .error (.unsatisfied row r.origin (rest.length + 1) (rowValues c values r))
    | none => return ()

/-- The values before any rule has run. -/
def initial (c : Circuit) : Known :=
  (Array.replicate c.system.signals none).setIfInBounds 0 (some 1)

/-- All values, once every rule has run. -/
def complete (values : Known) : Array Nat := values.map (·.getD 0)

/-- The values of all signals under inputs and overrides, before the check. -/
def compute (c : Circuit) (inputs overrides : Mapping) : Except Error (Array Nat) := do
  let values ← loadInputs c inputs (initial c)
  let forced ← resolveOverrides c overrides
  return complete (← runRules c forced c.rules values)

/-- The witness of inputs and overrides. -/
def evaluate (c : Circuit) (inputs overrides : Mapping) : Except Error Witness := do
  let values ← compute c inputs overrides
  verify c values
  return { circuit := c, values }

/-- The report of a finished evaluation. -/
def evaluatedText (w : Witness) : String :=
  s!"witness for {w.circuit.title.text}: {w.values.size} values"

/-- The report of a finished batch. -/
def batchText (c : Circuit) (count : Nat) : String :=
  s!"evaluated {count} witnesses for {c.title.text}"

/-- The witnesses of several inputs; the first failure in order counts, and the
    number of workers, if given, must be positive. -/
def evaluateAll (c : Circuit) (batch : List Mapping) (workers : Option Int) :
    Except Error (List Witness) :=
  if workers.any (· ≤ 0) then .error (.fault .value)
  else batch.mapM fun inputs => evaluate c inputs []

/-! ## Reading a witness -/

variable (w : Witness)

/-- The value of a signal. -/
def valueOf (s : Signal) : Nat := w.values.getD (w.circuit.place s) 0

/-- The value at a witness position. -/
def at_ (i : Int) : Except Error Nat := elementAt w.values i

/-- The value of the signal of a path. -/
def atPath (path : String) : Except Error Nat := do return w.valueOf (← w.circuit.signal path)

/-- Nested values, as a bus is nested. -/
inductive Nested where
  | value (n : Nat)
  | items (xs : List Nested)

mutual

/-- The values of a bus. -/
def collect : Bus → Nested
  | .single s => .value (w.valueOf s)
  | .array items _ _ => .items (collectItems items)

/-- The values of a list of buses. -/
def collectItems : List Bus → List Nested
  | [] => []
  | p :: ps => collect p :: collectItems ps

end

/-- The values of a declaration of the main component, or of any signal. -/
def value (name : String) : Except Error Nested :=
  match w.circuit.mainInstance.declarations.find? (·.name == name) with
  | some d => .ok (w.collect d.bus)
  | none => do return .value (← w.atPath name)

/-- The values of the main outputs by name. -/
def outputs : List (String × Nested) :=
  (w.circuit.mainInstance.withRole .output).map fun d => (d.name, w.collect d.bus)

/-- The values that a verifier sees: outputs, then public inputs. -/
def publicValues : List Nat := (w.values.toList.drop 1).take w.circuit.system.publicCount

/-- The rows violated after replacing the values of some signals. -/
def failingAfter (changes : List (String × Value)) : Except Error (List Nat) := do
  let values ← changes.foldlM (fun (values : List Value) change => do
    return values.set (w.circuit.place (← w.circuit.signal change.1)) change.2)
    (w.values.toList.map fun n : Nat => .int n)
  w.circuit.system.failingOn values

/-- A witness as it is written. -/
def text : String := s!"Witness({w.circuit.title.text}, n={w.values.size})"

end Witness

end RankOne
