import SshKeys.Bytes
/-!
# Arithmetic modulo a number

Powers by repeated squaring, and inverses by Euclid's algorithm.
-/
namespace SshKeys.Modular

/-- `acc * base ^ exponent` modulo `m`, for an exponent of at most `bits` bits. -/
def powerFrom (m : Nat) : Nat → Nat → Nat → Nat → Nat
  | 0, _, _, acc => acc
  | bits + 1, base, exponent, acc =>
    let acc := if exponent % 2 = 1 then acc * base % m else acc
    powerFrom m bits (base * base % m) (exponent / 2) acc

def power (base exponent m : Nat) : Nat :=
  powerFrom m (Bytes.bitLength exponent) (base % m) exponent (1 % m)

/-- Euclid's algorithm on `a` and `b`, with the multiples `x` and `y` of the number sought that
they stand for; gives the greatest common divisor with its multiple. -/
def euclid : Nat → Nat → Nat → Int → Int → Nat × Int
  | 0, a, _, x, _ => (a, x)
  | steps + 1, a, b, x, y =>
    if b = 0 then (a, x) else euclid steps b (a % b) y (x - Int.ofNat (a / b) * y)

def inverse? (a m : Nat) : Option Nat :=
  let (divisor, x) := euclid (2 * Bytes.bitLength m + 2) (a % m) m 1 0
  if divisor = 1 then some (x % Int.ofNat m).toNat else none

def inverse (a m : Nat) : Nat := (inverse? a m).getD 0

def sub (a b m : Nat) : Nat := (a + (m - b)) % m

end SshKeys.Modular
