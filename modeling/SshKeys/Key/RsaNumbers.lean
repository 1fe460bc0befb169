import SshKeys.Key.Basic
import SshKeys.Arithmetic.Prime
/-!
# RSA numbers

The numbers with which a private RSA key is worked, and the conditions under which they make up a
key.
-/
namespace SshKeys

/-- The numbers that stand behind an RSA key in memory: the exponents for each prime are the private
exponent modulo one less than the prime. -/
structure RsaNumbers where
  n : Nat
  e : Nat
  d : Nat
  p : Nat
  q : Nat
  dmp1 : Nat
  dmq1 : Nat
  iqmp : Nat
  deriving DecidableEq, Repr

namespace RsaNumbers

/-- The cheap conditions, on numbers that are given one by one: sizes, parities, and that the primes
make the modulus. -/
def areInRange (r : RsaNumbers) : Bool :=
  3 ≤ r.n && r.p < r.n && r.q < r.n && r.dmp1 < r.n && r.dmq1 < r.n && r.iqmp < r.n && r.d < r.n &&
    3 ≤ r.e && r.e < r.n && r.e % 2 == 1 && r.dmp1 % 2 == 1 && r.dmq1 % 2 == 1 && r.p * r.q == r.n

/-- The full conditions on a key that is to work. They bound neither exponent by the modulus. -/
def areSound (r : RsaNumbers) : Bool :=
  r.p % 2 == 1 && r.q % 2 == 1 && r.p * r.q == r.n && r.e % 2 == 1 && r.e != 1 &&
    r.d * r.e % Nat.lcm (r.p - 1) (r.q - 1) == 1 &&
    r.dmp1 == r.d % (r.p - 1) && r.dmq1 == r.d % (r.q - 1) &&
    Modular.inverse? r.q r.p == some r.iqmp && Prime.isPrime r.p && Prime.isPrime r.q

def toKey (r : RsaNumbers) : RsaKey := ⟨r.n, r.e, some ⟨r.d, r.iqmp, r.p, r.q⟩⟩

end RsaNumbers

def RsaKey.numbers? (k : RsaKey) : Option RsaNumbers :=
  k.secret.map fun s =>
    { n := k.n, e := k.e, d := s.d, p := s.p, q := s.q, dmp1 := s.d % (s.p - 1),
      dmq1 := s.d % (s.q - 1), iqmp := s.iqmp }

end SshKeys
