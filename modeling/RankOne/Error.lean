/-
  RankOne — what can go wrong, by cause.

  * `Fault`: a failure of a plain host operation (an operand of the wrong type,
    an index out of range, …), which carries no text;
  * `Error`: every cause a circuit author or a prover can meet, with the texts
    that the report names;
  * `Error.Kind`, `Error.kind`: the classes of causes;
  * `Error.isCircuit`: the causes that are about circuits;
  * `Error.message`: the wording of each cause, absent for a fault.
-/
import RankOne.Text.Quoted

namespace RankOne

/-- A failed host operation. -/
inductive Fault where
  /-- an operand of a type the operation does not take -/
  | type
  /-- an operand outside the operation's domain -/
  | value
  /-- a position outside a sequence -/
  | index
  /-- an absent key -/
  | key
  /-- an absent attribute -/
  | attribute
  /-- a division by zero -/
  | zeroDivision
  /-- a result outside the range of its type -/
  | overflow
  /-- a result too large to hold -/
  | memory
  /-- a nesting too deep -/
  | recursion
deriving DecidableEq, Repr

/-- A cause of failure. -/
inductive Error where
  | fault (f : Fault)
  -- fields
  | primeTooSmall (got : String)
  | compositeModulus
  | inverseOfZero
  -- expressions
  | differentFields (p q : Nat)
  | bareConstant
  | notAnOperand (type : String)
  | productDegree (dl dr : Int) (l r : String)
  | manyProducts (e : String) (count : Nat)
  | symbolicDivisor (e : String)
  | zeroDivisor (e : String)
  | noOperand (op : String)
  | unknownOperation (op : String)
  | notConstant (e : String)
  | signalCompared (path : String)
  | hostOnSignal (op path : String)
  | hostOnSymbolic (op e : String) (degree : Int)
  | dependsOnSignal (what e : String)
  | notLinear (e : String)
  -- witness positions of signals
  | unplaced (path : String)
  | placedTwice (path index : String)
  -- rows and rules
  | alreadyAssigned (path rule origin how : String)
  | excessDegree (e : String) (degree : Int)
  | contradiction (l r : String)
  -- templates
  | signalParameter (path : String)
  | symbolicParameter (e : String)
  | unknownTemplate (name : String) (known : List String)
  | alreadyApplied (template : String)
  | declaredTwice (name path template : String)
  | negativeDimension (place : String) (dims : List Int)
  | noDimension
  | notATemplate (place got : String)
  | subArray (name : String) (index : Int)
  | slotFilled (slot : String)
  | slotEmpty (slot : String)
  | noTerminal (path template name : String) (known : List String)
  | noTerminalAttribute (path template name : String) (known : List String)
  | hiddenAttribute (name : String)
  | targetNotSignal (got : String)
  | ownInput (path component : String)
  | foreignTarget (component kind path : String)
  | lengthMismatch (values signals : Nat)
  | danglingOutput (report : String)
  -- the library
  | overlappingBranch (path l r : String)
  | comparatorWidth (path width : String) (p : Nat)
  | boundTooSmall (path : String) (least : Int) (got : String)
  -- compilation
  | notAnInput (name template : String)
  | unassigned (paths : List String)
  | cycle (paths : List String)
  | badInputPolicy (got : String)
  | badDanglingPolicy (got : String)
  -- systems and witnesses
  | witnessLength (got expected : Nat)
  | otherPrime (got expected : Int)
  | noSignal (path template : String)
  | booleanInput (path got : String)
  | notAnInteger (path type got : String)
  | outsideField (path : String) (got : Int)
  | missingInputs (names : List String)
  | unknownInputs (names : List String)
  | overrideUnknown (path template : String)
  | overrideInput (path : String)
  | refusedByHint
  | hintDivided (path : String)
  | hintFailed (path reason : String)
  | hintValue (path got : String)
  | unsatisfied (row : Nat) (origin : String) (failing : Nat) (values : List (String × Int))

/-- Classes of causes. -/
inductive Error.Kind where
  | fault (f : Fault)
  | badType | badValue | badKey | badAttribute | badState
  | compilation | evaluation
  | degree | division | divisionByZero | unsupported | staticity | duplicate | direction
  | unassigned | cyclic | overlap | dangling | reassigned | unsatisfiable
  | input | unsatisfied
deriving DecidableEq, Repr

namespace Error

/-- The class of a cause. -/
def kind : Error → Kind
  | fault f => .fault f
  | compositeModulus => .fault .value
  | refusedByHint => .input
  | bareConstant | notAnOperand _ | noOperand _ | alreadyApplied _ | notATemplate _ _
  | targetNotSignal _ => .badType
  | primeTooSmall _ | differentFields _ _ | unknownOperation _ | notLinear _
  | negativeDimension _ _ | noDimension | badInputPolicy _ | badDanglingPolicy _
  | witnessLength _ _ | otherPrime _ _ => .badValue
  | unknownTemplate _ _ | noTerminal _ _ _ _ | noSignal _ _ => .badKey
  | noTerminalAttribute _ _ _ _ | hiddenAttribute _ => .badAttribute
  | unplaced _ | placedTwice _ _ => .badState
  | subArray _ _ | slotEmpty _ | lengthMismatch _ _ | comparatorWidth _ _ _
  | boundTooSmall _ _ _ | notAnInput _ _ => .compilation
  | hintFailed _ _ | hintValue _ _ => .evaluation
  | productDegree _ _ _ _ | manyProducts _ _ | excessDegree _ _ => .degree
  | symbolicDivisor _ => .division
  | inverseOfZero | zeroDivisor _ | hintDivided _ => .divisionByZero
  | signalCompared _ | hostOnSignal _ _ | hostOnSymbolic _ _ _ => .unsupported
  | notConstant _ | dependsOnSignal _ _ | signalParameter _ | symbolicParameter _ => .staticity
  | declaredTwice _ _ _ | slotFilled _ => .duplicate
  | ownInput _ _ | foreignTarget _ _ _ => .direction
  | unassigned _ => .unassigned
  | cycle _ => .cyclic
  | overlappingBranch _ _ _ => .overlap
  | danglingOutput _ => .dangling
  | alreadyAssigned _ _ _ _ => .reassigned
  | contradiction _ _ => .unsatisfiable
  | booleanInput _ _ | notAnInteger _ _ _ | outsideField _ _ | missingInputs _
  | unknownInputs _ | overrideUnknown _ _ | overrideInput _ => .input
  | unsatisfied _ _ _ _ => .unsatisfied

/-- An error about circuits and witnesses, not one of the host. -/
def isCircuit (e : Error) : Bool :=
  match e.kind with
  | .fault _ | .badType | .badValue | .badKey | .badAttribute | .badState => false
  | _ => true

/-- How many paths a report of unassigned signals lists. -/
def listed : Nat := 10

/-- A field as messages name it. -/
def fieldText (p : Nat) : String := s!"PrimeField(p={p})"

/-- The main component stands for an empty origin. -/
def originText (origin : String) : String := if origin.isEmpty then "main" else origin

/-- The report of a name that is no terminal of a component. -/
def noTerminalText (path template name : String) (known : List String) : String :=
  s!"{path} ({template}) exposes no input or output '{name}'. Available: "
    ++ Text.brackets (known.map Text.quote)

/-- The report of a path that no signal has. -/
def noSignalText (path template : String) : String := s!"no signal '{path}' in {template}"

/-- Why a value depends on a signal where it must not. -/
def staticText (what e : String) : String :=
  s!"{what} of {e} depends on a signal; circuit structure must be " ++
    "decidable at compile time (use an indicator or QuinSelector)"

/-- The report of signals without a rule, cut after `listed` of them. -/
def unassignedText (paths : List String) : String :=
  let n := paths.length
  let more := if listed < n then s!" and {n - listed} more" else ""
  s!"{n} signal(s) have no computation rule: " ++ Text.commas (paths.take listed) ++ more

/-- The report of the first row a witness violates. -/
def unsatisfiedText (row : Nat) (origin : String) (failing : Nat)
    (values : List (String × Int)) : String :=
  s!"constraint {row} from {originText origin} is not satisfied ({failing} failing row(s)); "
    ++ Text.commas (values.map fun v => s!"{v.1}={v.2}")

/-- The wording of a cause; a fault has none. -/
def message : Error → Option String
  | fault _ | compositeModulus | refusedByHint => none
  | primeTooSmall got => s!"prime must be >= 2, got {got}"
  | inverseOfZero => "inverse of zero does not exist"
  | differentFields p q => s!"operands from different fields: {fieldText p} and {fieldText q}"
  | bareConstant => "a bare constant needs a field to become an Expression"
  | notAnOperand type => s!"cannot use {type} in a circuit expression"
  | productDegree dl dr l r =>
    s!"product of degree {dl} and degree {dr} expressions exceeds degree 2: ({l}) * ({r})"
  | manyProducts e count => s!"{e} has {count} independent products; " ++
      "an R1CS row holds one. Split it with intermediate signals"
  | symbolicDivisor e => s!"division by {e}, which references signals; " ++
      "compute the quotient with a hint and constrain q * divisor === dividend"
  | zeroDivisor e => s!"division of {e} by the constant zero"
  | noOperand op => s!"'{op}' needs at least one signal or expression operand"
  | unknownOperation op => s!"Invalid operation: {op}"
  | notConstant e => s!"{e} is not a compile-time constant"
  | signalCompared path => s!"'==' on signal {path}; use IsEqual for an in-circuit comparison"
  | hostOnSignal op path => s!"'{op}' on signal {path} is not an arithmetic operation"
  | hostOnSymbolic op e degree =>
    s!"'{op}' on symbolic value {e} (degree {degree}) is not an arithmetic operation"
  | dependsOnSignal what e => staticText what e
  | notLinear e => s!"{e} is not linear"
  | unplaced path => s!"Signal {path} has no witness index before compilation finishes"
  | placedTwice path index => s!"Signal {path} already bound to index {index}"
  | alreadyAssigned path rule origin how =>
    s!"signal {path} already has a {rule} rule (from {originText origin}); cannot {how} it again"
  | excessDegree e degree => s!"{e} has degree {degree} > 2"
  | contradiction l r => s!"constant equality {l} === {r} never holds"
  | signalParameter path => s!"template parameter {path} is a signal"
  | symbolicParameter e => s!"template parameter {e} depends on signals"
  | unknownTemplate name known =>
    s!"No template '{name}'. Available: " ++ Text.brackets (known.map Text.quote)
  | alreadyApplied template =>
    s!"{template} is already applied; pass params to the template class instead"
  | declaredTwice name path template => s!"'{name}' declared twice in {path} ({template})"
  | negativeDimension place dims =>
    s!"negative dimension in {place}" ++ Text.brackets (dims.map toString)
  | noDimension => "components() needs at least one dimension"
  | notATemplate place got => s!"component {place} needs an applied Template, got {got}"
  | subArray name index => s!"{name}[{index}] is a sub-array; index every dimension"
  | slotFilled slot => s!"component slot {slot} already filled"
  | slotEmpty slot => s!"component slot {slot} was never filled"
  | noTerminal path template name known => noTerminalText path template name known
  | noTerminalAttribute path template name known =>
    Text.quote (noTerminalText path template name known)
  | hiddenAttribute name => name
  | targetNotSignal got => s!"assignment target must be a signal, got {got}"
  | ownInput path component =>
    s!"{path} is an input of {component}; its instantiator assigns it"
  | foreignTarget component kind path => s!"{component} cannot assign {kind} signal {path}"
  | lengthMismatch values signals => s!"assigning {values} values to {signals} signals"
  | danglingOutput report => report
  | overlappingBranch path l r =>
    s!"{path}: branch conditions {l} and {r} are the same field " ++
      "element, so both indicators can fire at once"
  | comparatorWidth path width p =>
    s!"{path}: comparator width {width} out of range for {fieldText p}"
  | boundTooSmall path least got => s!"{path}: bound must be at least {least}, got {got}"
  | notAnInput name template => s!"public signal '{name}' is not an input of {template}"
  | unassigned paths => unassignedText paths
  | cycle paths => "computation rules form a cycle: " ++ " -> ".intercalate paths
  | badInputPolicy got => s!"input_policy must be one of ('reject', 'reduce'), got {got}"
  | badDanglingPolicy got => s!"dangling_outputs must be one of ('warn', 'error'), got {got}"
  | witnessLength got expected => s!"witness has {got} entries, expected {expected}"
  | otherPrime got expected => s!"field prime {got} does not match R1CS prime {expected}"
  | noSignal path template => noSignalText path template
  | booleanInput path got => s!"{path}: boolean {got} is not a field element"
  | notAnInteger path type got => s!"{path}: {type} {got} is not an integer"
  | outsideField path got => s!"{path}: {got} is outside the field [0, p)"
  | missingInputs names => "missing input value(s): " ++ Text.commas names
  | unknownInputs names => "unknown input(s): " ++ Text.commas names
  | overrideUnknown path template => Text.quote (noSignalText path template)
  | overrideInput path => s!"cannot override {path}; supply main inputs through inputs"
  | hintDivided path => s!"hint for {path} divided by zero"
  | hintFailed path reason => s!"hint for {path} failed: {reason}"
  | hintValue path got => s!"hint for {path} returned {got}, not a field element"
  | unsatisfied row origin failing values => unsatisfiedText row origin failing values

end Error

end RankOne
