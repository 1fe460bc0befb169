import SshKeys.Arithmetic.Prime
/-!
# Square roots modulo an odd prime

The method of Tonelli and Shanks.
-/
namespace SshKeys.Modular

/-- The least number from `start` on, within `steps` steps, that is no square modulo `p`. -/
def nonResidue (p : Nat) : Nat → Nat → Nat
  | 0, start => start
  | steps + 1, start =>
    if power start ((p - 1) / 2) p = p - 1 then start else nonResidue p steps (start + 1)

def squaringsToOne (p : Nat) : Nat → Nat → Nat
  | 0, _ => 0
  | steps + 1, t => if t = 1 then 0 else squaringsToOne p steps (t * t % p) + 1

def squared (p : Nat) : Nat → Nat → Nat
  | 0, x => x
  | count + 1, x => squared p count (x * x % p)

/-- Corrects the root `r` of `n * t`, where the order of `t` divides `2 ^ (order - 1)` and `c` has
order `2 ^ order`, until `t` is one. -/
def refineRoot (p : Nat) : Nat → Nat → Nat → Nat → Nat → Nat
  | 0, _, _, _, r => r
  | steps + 1, order, c, t, r =>
    if t = 1 then r
    else
      let i := squaringsToOne p order t
      let b := squared p (order - i - 1) c
      refineRoot p steps i (b * b % p) (t * (b * b % p) % p) (r * b % p)

def squareRoot? (n p : Nat) : Option Nat :=
  let (order, odd) := Prime.oddPart (Bytes.bitLength p) (p - 1)
  let c := power (nonResidue p 200 2) odd p
  let r := refineRoot p (order + 1) order c (power n odd p) (power n ((odd + 1) / 2) p)
  if r * r % p = n % p then some r else none

end SshKeys.Modular
