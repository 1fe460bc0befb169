import SshKeys.Arithmetic.Modular
import SshKeys.Hash
/-!
# Telling primes from composite numbers

Trial division by small primes, then the strong test of Miller and Rabin. Where a library draws its
bases at random, they follow here from the number itself.
-/
namespace SshKeys.Prime

def smallPrimes : List Nat :=
  [2, 3, 5, 7, 11, 13, 17, 19, 23, 29, 31, 37, 41, 43, 47, 53, 59, 61, 67, 71, 73, 79, 83, 89, 97,
   101, 103, 107, 109, 113, 127, 131, 137, 139, 149, 151, 157, 163, 167, 173, 179, 181, 191, 193,
   197, 199, 211, 223, 227, 229, 233, 239, 241, 251]

/-- How often two divides `n`, for at most `steps` times, and what is left. -/
def oddPart : Nat → Nat → Nat × Nat
  | 0, n => (0, n)
  | steps + 1, n =>
    if n % 2 = 0 then
      let (count, odd) := oddPart steps (n / 2)
      (count + 1, odd)
    else (0, n)

def reachesMinusOne (n : Nat) : Nat → Nat → Bool
  | 0, x => x == n - 1
  | count + 1, x => x == n - 1 || reachesMinusOne n count (x * x % n)

/-- Whether `n` passes the strong test to a base, where `n - 1 = 2 ^ count * odd`. -/
def passes (n count odd base : Nat) : Bool :=
  let x := Modular.power base odd n
  x == 1 || reachesMinusOne n (count - 1) x

/-- The bases of the strong test, between one and `n - 1`: small primes, and numbers that follow from
a digest of `n`. -/
def bases (n : Nat) : List Nat :=
  let digest := Bytes.toNat (Sha512.digest (Bytes.minimal n))
  smallPrimes.take 12 ++ (List.range 20).map fun i => 1 + (digest + i) % (n - 1)

/-- Whether `n` passes trial division and the strong test to each of its bases. All primes do, and a
product of primes may. -/
def isPrime (n : Nat) : Bool :=
  if n < 2 then false
  else if smallPrimes.contains n then true
  else if smallPrimes.any fun p => n % p == 0 then false
  else
    let (count, odd) := oddPart (Bytes.bitLength n) (n - 1)
    (bases n).all (passes n count odd)

def sieve : List Nat :=
  (List.range 2048).filter fun n => smallPrimes.all fun p => n = p || n % p ≠ 0 && 1 < n

/-- The first number that is accepted and prime, among `steps` numbers from `start` on at equal
distances. -/
def search (accept : Nat → Bool) (distance : Nat) : Nat → Nat → Option Nat
  | 0, _ => none
  | steps + 1, n =>
    if accept n && (sieve.all fun p => n % p ≠ 0) && isPrime n then some n
    else search accept distance steps (n + distance)

end SshKeys.Prime
