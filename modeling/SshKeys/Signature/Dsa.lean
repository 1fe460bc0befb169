import SshKeys.Arithmetic.Modular
import SshKeys.Signature.Nonce
/-!
# DSA signatures

Signing and verifying over a SHA-1 digest.
-/
namespace SshKeys.Dsa

structure Domain where
  p : Nat
  q : Nat
  g : Nat
  deriving DecidableEq, Repr

structure Signature where
  r : Nat
  s : Nat
  deriving DecidableEq, Repr

/-- The digest of a message, cut to the bits of the subgroup order. -/
def digestNumber (q : Nat) (message : Bytes) : Nat :=
  let bs := Sha1.digest message
  Nonce.leftmost (min (Bytes.bitLength q) (8 * bs.length)) bs

/-- A signature with the secret number `k`, unless one of its numbers comes out as zero. -/
def signWith (domain : Domain) (x digest k : Nat) : Option Signature :=
  let r := Modular.power domain.g k domain.p % domain.q
  let s := Modular.inverse k domain.q * (digest + x * r) % domain.q
  if r = 0 ∨ s = 0 then none else some ⟨r, s⟩

def sign? (domain : Domain) (x : Nat) (message : Bytes) : Option Signature :=
  let secret := Bytes.ofNat (Bytes.byteLength domain.q) x
  Nonce.search .sha256 domain.q (signWith domain x (digestNumber domain.q message)) 1000
    (Nonce.start .sha256 secret (Sha1.digest message))

def verify (domain : Domain) (y : Nat) (message : Bytes) (sig : Signature) : Bool :=
  if sig.r = 0 ∨ domain.q ≤ sig.r ∨ sig.s = 0 ∨ domain.q ≤ sig.s ∨ domain.p % 2 = 0 then false
  else
    match Modular.inverse? sig.s domain.q with
    | none => false
    | some w =>
      let u := digestNumber domain.q message * w % domain.q
      let v := sig.r * w % domain.q
      Modular.power domain.g u domain.p * Modular.power y v domain.p % domain.p % domain.q == sig.r

end SshKeys.Dsa
