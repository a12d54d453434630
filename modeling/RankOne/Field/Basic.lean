/-
  RankOne — prime fields chosen at run time.

  Field elements are canonical naturals below the modulus.

  * `PrimeField`: a modulus of at least two;
  * `PrimeField.ofInt`: the field of a modulus, refused below two and when the
    primality test rejects it;
  * `reduce`, `add`, `sub`, `mul`, `neg`, `inverse`, `div`: arithmetic modulo `p`;
  * `toSigned`: the representative nearest to zero.
-/
import RankOne.Error
import RankOne.Field.Primality

namespace RankOne

/-- A modulus for field arithmetic. -/
structure PrimeField where
  p : Nat
  two_le : 2 ≤ p
deriving DecidableEq, Repr

namespace PrimeField

/-- The field of a modulus.  A power of a prime is refused like any other composite:
    there is a field of that size, but it is not this arithmetic. -/
def ofInt (n : Int) : Except Error PrimeField :=
  if h : 2 ≤ n.toNat then
    if Primality.isPrime n.toNat then .ok ⟨n.toNat, h⟩ else .error .compositeModulus
  else .error (.primeTooSmall (toString n))

/-- The scalar field of the BN254 curve. -/
def bn254 : PrimeField :=
  ⟨21888242871839275222246405745257275088548364400416034343698204186575808495617, by decide⟩

/-- The field of `2 ^ 64 - 2 ^ 32 + 1` elements. -/
def goldilocks : PrimeField := ⟨0xFFFFFFFF00000001, by decide⟩

instance : Inhabited PrimeField := ⟨bn254⟩

/-- A field as messages name it. -/
def text (f : PrimeField) : String := Error.fieldText f.p

variable (f : PrimeField)

/-- The canonical representative of an integer. -/
def reduce (x : Int) : Nat := (x % f.p).toNat

/-- An integer that is its own representative. -/
def isCanonical (x : Int) : Bool := 0 ≤ x && x < f.p

/-- Negation. -/
def neg (a : Int) : Nat := f.reduce (-a)

/-- Addition. -/
def add (a b : Int) : Nat := f.reduce (a + b)

/-- Subtraction. -/
def sub (a b : Int) : Nat := f.reduce (a - b)

/-- Multiplication. -/
def mul (a b : Int) : Nat := f.reduce (a * b)

/-- Powers with a natural exponent. -/
def pow (a : Int) (k : Nat) : Nat := Primality.powMod f.p (f.reduce a) k

/-- The inverse of a nonzero element, which is its power `p - 2`; zero is sent
    to a value of no meaning. -/
def inverse (a : Int) : Nat := f.pow a (f.p - 2)

/-- The inverse, refused for zero. -/
def inv (a : Int) : Except Error Nat :=
  if f.reduce a = 0 then .error .inverseOfZero else .ok (f.inverse a)

/-- The quotient, refused for a zero divisor. -/
def div (a b : Int) : Except Error Nat := do return f.mul a (← f.inv b)

/-- The representative in `(-p/2, p/2]`. -/
def toSigned (x : Int) : Int :=
  let r := f.reduce x
  if r > f.p / 2 then (r : Int) - f.p else r

end PrimeField

end RankOne
