/-
  RankOne — reading values and circuit objects in a script.

  * `itemOf`: the item of a value at an index or under a key;
  * `property`: the properties of signals, expressions, components and others;
  * `ask`: what expressions, signals, arrays and fields answer;
  * `combination`, `range`: expressions over witness positions, and ranges.
-/
import RankOne.Script.Routine
import RankOne.Script.Term

namespace RankOne.Script

/-! ## Items -/

/-- An index into a grid; whatever is no integer is out of place. -/
def gridIndex (i : Value) : Except Error Int :=
  match i with
  | .bool _ | .flag _ => .error (.fault .index)
  | i => match i.index with
    | .ok n => .ok n
    | .error _ => .error (.fault .index)

/-- The item of a grid under the integers of a tuple, one dimension each. -/
def gridAt : Value → List Value → Except Error Value
  | v, [] => .ok v
  | .grid xs _, i :: is => do gridAt (← itemAt xs (← gridIndex i)).scalar is
  | _, _ :: _ => .error (.fault .index)

/-- The part of a grid at an index: a tuple goes through the dimensions, a list
    picks items, and a condition or nothing adds a dimension. -/
def gridItem (xs : List Value) (i : Value) : Except Error Value :=
  match i with
  | .none | .bool true | .flag true => .ok (.grid [.grid xs])
  | .bool false | .flag false => .ok (.grid [])
  | .tuple is => gridAt (.grid xs) is
  | .list is _ | .grid is _ => do return .grid (← is.mapM fun i => do itemAt xs (← gridIndex i))
  | i => do return (← itemAt xs (← gridIndex i)).scalar

/-- The integer of a range at an index. -/
def rangeItem (start stop step i : Int) : Except Error Value :=
  match position? (Value.rangeLength start stop step) i with
  | some j => .ok (.int (start + step * j))
  | none => .error (.fault .index)

/-- The value under a key, which must be one that can be found again. -/
def entryUnder (es : List (Value × Value)) (key : Value) : Except Error Value := do
  if !key.isHashable then .error (.fault .type)
  else match ← Value.findEntry key es with
    | some v => return v
    | none => .error (.fault .key)

/-- The input or output of a component under a key; only a text can name one. -/
def terminalUnder (c : Component) (key : Value) : Except Error Value :=
  match key with
  | .str name => do return .ofBus (← c.terminal name)
  | key =>
    if !key.isHashable then .error (.fault .type)
    else do .error (.noTerminal c.path c.title.name (← key.shownText) c.terminalNames)

/-- The item of a value at an index or under a key. -/
def itemOf (v i : Value) : Routine Value :=
  match v with
  | .list xs _ | .tuple xs => do demand (itemAt xs (← demand i.index))
  | .str s => do
    return .str (String.singleton (← demand (itemAt s.toList (← demand i.index))))
  | .range a b s => do demand (rangeItem a b s (← demand i.index))
  | .array xs _ _ => do return .ofBus (← demand (itemAt xs (← demand i.index)))
  | .slots a => do
    let n ← demand i.index
    return Build.ofContent (← request (.slot a n (← demand i.shownText)))
  | .table es _ => demand (entryUnder es i)
  | .component c => do
    let s ← request (.inspect c.id)
    demand (terminalUnder s.component i)
  | .grid xs _ => do make (← demand (gridItem xs i))
  | .word _ | .flag _ | .double _ _ | .cell _ => refuse .index
  | _ => refuse .type

/-- The input or output of a component, or the item of another value. -/
def terminal (v : Value) (name : String) : Routine Value := itemOf v (.str name)

/-- The items of a value as it stands. -/
def items (v : Value) : Routine (List Value) := lift (Build.items v)

/-! ## Properties -/

/-- Declarations as a table. -/
def declarationTable (ds : List Declaration) : Value :=
  .table (ds.map fun d => (.str d.name, .ofBus d.bus))

/-- The position given to a signal. -/
def placeOf (s : Signal) : Routine Value := do
  match (← host).places.lookup s with
  | some v => return v
  | none => if s.source = .stray then refuse .attribute else demand (.error (.unplaced s.path))

/-- The properties of a signal. -/
def signalProperty (s : Signal) : Option Property → Routine Value
  | some .uid => return .int s.uid
  | some .path => return .str s.path
  | some .kind => return .kind s.kind
  | some .field => return .field s.field
  | some .component => return .str s.component
  | some .degree => return .int 1
  | some .index => placeOf s
  | _ => refuse .attribute

/-- The mark of a factor of a product inside an expression. -/
def factorMark (m : Mark) (i side : Nat) : Mark := if m.isEmpty then [] else m ++ [i, side]

/-- The products of an expression, as pairs of factors. -/
def productPairs (e : Expr) (m : Mark) : List Value :=
  e.products.zipIdx.map fun (p, i) =>
    .tuple [.expr p.1 (factorMark m i 0), .expr p.2 (factorMark m i 1)]

/-- The properties of an expression. -/
def exprProperty (e : Expr) (m : Mark) : Option Property → Except Error Value
  | some .field => .ok (.field e.field)
  | some .const => .ok (.int e.const)
  | some .linear =>
    if e.hasStray then .error (.fault .attribute)
    else .ok (.table (e.linear.map fun t => (.signal t.1, .int t.2)))
  | some .products => .ok (.tuple (productPairs e m))
  | some .degree => .ok (.int e.degree)
  | some .isConstant => .ok (.bool e.isConstant)
  | some .constantValue => do return .int (← e.constantValue)
  | some .signals => .ok (.signals e.signals)
  | _ => .error (.fault .attribute)

/-- The properties of a component; any other name is one of its terminals. -/
def componentProperty (s : Survey) (name : String) : Option Property → Except Error Value
  | some .path => .ok (.str s.component.path)
  | some .name => .ok (.str s.component.name)
  | some .template => .ok s.application.toValue
  | some .inputs => .ok (declarationTable (Declaration.withRole s.component.declarations .input))
  | some .outputs => .ok (declarationTable (Declaration.withRole s.component.declarations .output))
  | some .declarations => .ok (declarationTable s.component.declarations)
  | some .kinds =>
    .ok (.table (s.component.declarations.map fun d => (.str d.name, .kind (.declared d.role))))
  | some .parent => .ok (s.parent.elim .none .component)
  | some .children => .ok (.table (s.children.map fun c => (.str c.name, .component c)))
  | some .rows => .ok (.list (s.rows.map fun n : Nat => .int n))
  | some .referenced => .ok (.signals s.referenced)
  | _ => do return .ofBus (← s.component.terminalAttribute name)

/-- The terms of a combination, as pairs. -/
def combinationTerms (l : Combination) : Value :=
  .tuple (l.terms.map fun t => .tuple [.int t.1, .int t.2])

/-- A property of a value. -/
def property (v : Value) (name : String) (p : Option Property) : Routine Value :=
  match v, p with
  | .signal s, p => signalProperty s p
  | .expr e m, p => demand (exprProperty e m p)
  | .component c, p => do demand (componentProperty (← request (.inspect c.id)) name p)
  | .array _ shape _, some .shape => return .tuple (shape.map fun n : Nat => .int n)
  | .slots a, some .shape => return .tuple (a.shape.map .int)
  | .grid xs _, some .shape => return .tuple ((Value.gridShape xs).map fun n : Nat => .int n)
  | .cell _, some .shape => return .tuple []
  | .template title _ _, some .name => return .str title.name
  | .template _ args _, some .args => return .tuple args
  | .field f, some .prime => return .int f.p
  | .kind k, some .value => return .str k.name
  | .kind k, some .name => return .str k.name.toUpper
  | .combination l, some .terms => return combinationTerms l
  | .combination l, some .indices => return .tuple (l.indices.map .int)
  | _, _ => refuse .attribute

/-! ## Questions -/

/-- A coefficient times the value at a signal's position. -/
def weighted (values : Value) (t : Signal × Nat) : Routine Value := do
  let v ← itemOf values (← placeOf t.1)
  demand (Value.binary .mul (.int t.2) v)

/-- A sum of terms added to a value, from left to right. -/
def addTerms (values acc : Value) : Terms → Routine Value
  | [] => return acc
  | t :: ts => do addTerms values (← demand (Value.binary .add acc (← weighted values t))) ts

mutual

/-- The value of an expression on values by witness position, which may be any
    that can be multiplied and added. -/
def evaluateOn (values : Value) : Expr → Routine Value
  | ⟨field, const, linear, products, _⟩ => do
    let acc ← addTerms values (.int const) linear
    let acc ← addProducts values acc products
    demand (Value.binary .mod acc (.int field.p))

/-- Products added to a value, from left to right. -/
def addProducts (values acc : Value) : List (Expr × Expr) → Routine Value
  | [] => return acc
  | (a, b) :: ps => do
    let x ← evaluateOn values a
    let y ← evaluateOn values b
    let xy ← demand (Value.binary .mul x y)
    addProducts values (← demand (Value.binary .add acc xy)) ps

end

/-- The value of a combination on values by witness position, modulo another. -/
def combinationOn (l : Combination) (values p : Value) : Routine Value := do
  let total ← l.terms.foldlM (fun acc t => do
    let v ← itemOf values (.int t.1)
    demand do Value.binary .add acc (← Value.binary .mul (.int t.2) v)) (Value.int 0)
  demand (Value.binary .mod total p)

/-- The row of an expression; its factors are those of the expression. -/
def rowOf (e : Expr) (m : Mark) : Except Error Value := do
  let (a, b, c) ← e.toRow
  let place := e.products.findIdx fun p => !p.1.isZero && !p.2.isZero
  if place < e.products.length then
    return .tuple [.expr a (factorMark m place 0), .expr b (factorMark m place 1), .expr c]
  else return .tuple [.expr a, .expr b, .expr c]

/-- Give a signal its position, once; nothing gives none. -/
def bindPlace (s : Signal) (v : Value) : Routine Value := do
  match (← host).places.lookup s with
  | some w => demand (.error (.placedTwice s.path (← demand w.shownText)))
  | none => match v with
    | .none => return .none
    | v =>
      let i := match v.index with
        | .ok i => i
        | .error _ => 0
      request (.bind s ⟨i, v.shown⟩)
      updateHost fun h => { h with places := (s, v) :: h.places }
      return .none

/-- The answer of a value; a property cannot be asked. -/
def ask (v : Value) (name : String) (q : Option Query) (p : Option Property) (args : List Value) :
    Routine Value :=
  match v, q, args with
  | .expr e _, some .isZero, [] => return .bool e.isZero
  | .expr e _, some .linearPart, [] => return .expr e.linearPart
  | .expr e m, some .toRow, [] => demand (rowOf e m)
  | .expr e _, some .evaluate, [values] => evaluateOn values e
  | .combination l, some .evaluate, [values, p] => combinationOn l values p
  | .combination l, some .isEmpty, [] => return .bool l.isEmpty
  | .signal s, some .place, [i] => bindPlace s i
  | .array xs _ _, some .flat, [] => return .list ((Bus.flatItems xs).map .signal)
  | .field f, some (.operation op), args => demand (op.perform f args)
  | .expr _ _, some .isZero, _ | .expr _ _, some .linearPart, _ | .expr _ _, some .toRow, _
  | .expr _ _, some .evaluate, _ | .signal _, some .place, _ | .array _ _ _, some .flat, _
  | .combination _, some .evaluate, _ | .combination _, some .isEmpty, _ => refuse .type
  | v, _, _ => do
    let _ ← property v name p
    refuse .type

/-! ## Combinations and ranges -/

/-- The positions of signals. -/
def positions : Terms → Routine (List (Signal × Int))
  | [] => return []
  | (s, _) :: ts => do
    let i ← match ← placeOf s with
      | .int i | .word i => pure i
      | .bool b | .flag b => pure (Value.ofBool b)
      | _ => refuse .type
    return (s, i) :: (← positions ts)

/-- An expression over witness positions. -/
def combination : Value → Routine Value
  | .expr e _ => do
    let found ← if e.products.isEmpty then positions e.linear else pure []
    let index (s : Signal) : Except Error Int := match found.lookup s with
      | some i => .ok i
      | none => .error (.unplaced s.path)
    return .combination (← demand (Combination.ofExpr index e))
  | _ => refuse .attribute

/-- The integers that the arguments of a range describe. -/
def range (args : List Value) : Except Error Value := do
  if args.isEmpty || args.length > 3 then Value.refuse .type
  else match ← args.mapM Value.index with
    | [stop] => return .range 0 stop 1
    | [start, stop] => return .range start stop 1
    | [start, stop, step] => if step = 0 then Value.refuse .value else return .range start stop step
    | _ => Value.refuse .type

end RankOne.Script
