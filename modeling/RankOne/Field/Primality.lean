/-
  RankOne — modular powers and the primality test.

  * `powMod`: powers modulo `n` by repeated squaring;
  * `squaresToOne`: the squaring chain of one base reaches `1` and meets no
    square root of `1` besides `1` and `n - 1`, as it must in a field;
  * `isPrime`: no small prime divides `n` and the chain of every small prime
    base is sound.  A prime is always accepted.
-/

namespace RankOne.Primality

/-- `acc * b ^ e` modulo `n`, for an exponent of at most `fuel` binary digits. -/
def powLoop (n : Nat) : Nat → Nat → Nat → Nat → Nat
  | 0, _, _, acc => acc
  | fuel + 1, b, e, acc =>
    if e = 0 then acc
    else powLoop n fuel (b * b % n) (e / 2) (if e % 2 = 1 then acc * b % n else acc)

/-- `b ^ e` modulo `n`. -/
def powMod (n b e : Nat) : Nat := powLoop n (e.log2 + 1) (b % n) e (1 % n)

/-- Squaring `x` at most `k` times reaches `1`, from `1` or `n - 1` only. -/
def squaresToOne (n : Nat) : Nat → Nat → Bool
  | 0, x => x == 1
  | k + 1, x =>
    let y := x * x % n
    if y == 1 then x == 1 || x == n - 1 else squaresToOne n k y

/-- Split `n` as `d * 2 ^ k`, taking out at most `fuel` factors of two. -/
def oddPart : Nat → Nat → Nat × Nat
  | 0, n => (n, 0)
  | fuel + 1, n => if n % 2 = 0 then let (d, k) := oddPart fuel (n / 2); (d, k + 1) else (n, 0)

/-- The primes below one hundred. -/
def smallPrimes : List Nat :=
  [2, 3, 5, 7, 11, 13, 17, 19, 23, 29, 31, 37, 41, 43, 47, 53, 59, 61, 67, 71, 73, 79, 83, 89, 97]

/-- One base does not refute that `n` is prime. -/
def accepts (n base : Nat) : Bool :=
  n == base || (n % base != 0 &&
    let (d, k) := oddPart n.log2 (n - 1)
    squaresToOne n k (powMod n base d))

/-- The primality test. -/
def isPrime (n : Nat) : Bool := 2 ≤ n && smallPrimes.all (accepts n)

end RankOne.Primality
