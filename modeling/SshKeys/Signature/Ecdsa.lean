import SshKeys.Curve.Named
import SshKeys.Signature.Nonce
/-!
# ECDSA signatures

Signing and verifying over a digest of any size.
-/
namespace SshKeys.Ecdsa

structure Signature where
  r : Nat
  s : Nat
  deriving DecidableEq, Repr

def digestNumber (c : Curve) (hash : Hash) (message : Bytes) : Nat :=
  let bs := hash.digest message
  Nonce.leftmost (min (Bytes.bitLength c.order) (8 * bs.length)) bs

/-- A signature with the secret number `k`, unless one of its numbers comes out as zero. -/
def signWith (c : Curve) (scalar digest k : Nat) : Option Signature :=
  match c.baseMultiple? k with
  | none => none
  | some q =>
    let r := q.x % c.order
    let s := Modular.inverse k c.order * (digest + scalar * r) % c.order
    if r = 0 ∨ s = 0 then none else some ⟨r, s⟩

def sign? (c : Curve) (hash : Hash) (scalar : Nat) (message : Bytes) : Option Signature :=
  let secret := Bytes.ofNat (Bytes.byteLength c.order) scalar
  Nonce.search .sha256 c.order (signWith c scalar (digestNumber c hash message)) 1000
    (Nonce.start .sha256 secret (hash.digest message))

def verify (c : Curve) (hash : Hash) (q : Point) (message : Bytes) (sig : Signature) : Bool :=
  if sig.r = 0 ∨ c.order ≤ sig.r ∨ sig.s = 0 ∨ c.order ≤ sig.s then false
  else
    let w := Modular.inverse sig.s c.order
    let u := digestNumber c hash message * w % c.order
    let v := sig.r * w % c.order
    match c.affine? (c.add (c.multiply u c.base) (c.multiply v q)) with
    | none => false
    | some t => t.x % c.order == sig.r

end SshKeys.Ecdsa
