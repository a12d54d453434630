/-
  RankOne — settings of a compilation.

  * `InputPolicy`: values outside the field are rejected or reduced;
  * `Settings`, `Settings.ofFields`: the settings and how they are given by name;
  * `Settings.field`: the field, refused when the prime is none.
-/
import RankOne.Build.Workspace
import RankOne.Value.Operators

namespace RankOne

/-- What happens to an input outside the field. -/
inductive InputPolicy where
  | reject | reduce
deriving DecidableEq, Repr

/-- The word for an input policy. -/
def InputPolicy.name : InputPolicy → String
  | reject => "reject"
  | reduce => "reduce"

/-- The word for a policy on dangling outputs. -/
def DanglingPolicy.name : DanglingPolicy → String
  | warn => "warn"
  | error => "error"

/-- Settings of a compilation. -/
structure Settings where
  prime : Value := .int PrimeField.bn254.p
  /-- a generator of the multiplicative group, on which nothing here depends -/
  generator : Value := .none
  inputs : InputPolicy := .reject
  dangling : DanglingPolicy := .warn

namespace Settings

/-- The input policy given by a value. -/
def readInputPolicy : Value → Except Error InputPolicy
  | .str "reject" => .ok .reject
  | .str "reduce" => .ok .reduce
  | v => do .error (.badInputPolicy (← v.spelled))

/-- The policy on dangling outputs given by a value. -/
def readDanglingPolicy : Value → Except Error DanglingPolicy
  | .str "warn" => .ok .warn
  | .str "error" => .ok .error
  | v => do .error (.badDanglingPolicy (← v.spelled))

/-- The names of the settings. -/
def names : List String := ["prime", "primitive_element", "input_policy", "dangling_outputs"]

/-- Settings given by name; the rest keep their defaults. -/
def ofFields (fields : List (String × Value)) : Except Error Settings := do
  let given (name : String) : Option Value := (fields.find? (·.1 == name)).map (·.2)
  let default : Settings := {}
  if fields.any fun f => !names.contains f.1 then .error (.fault .type)
  else
    let inputs ← (given "input_policy").elim (pure default.inputs) readInputPolicy
    let dangling ← (given "dangling_outputs").elim (pure default.dangling) readDanglingPolicy
    return { prime := (given "prime").getD default.prime
             generator := (given "primitive_element").getD .none
             inputs, dangling }

/-- The field of a modulus given as a value, which must be an integer of at least
    two. -/
def fieldOf (prime : Value) : Except Error PrimeField := do
  if ← (← Value.binary .lt prime (.int 2)).truth then
    .error (.primeTooSmall (← prime.shownText))
  else match prime with
    | .int n | .word n => PrimeField.ofInt n
    | _ => .error (.fault .type)

/-- The field of the settings. -/
def field (s : Settings) : Except Error PrimeField := fieldOf s.prime

end Settings

end RankOne
