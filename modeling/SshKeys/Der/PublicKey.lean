import SshKeys.Der.Algorithm
import SshKeys.Key.Signing
/-!
# Public keys in DER

The form for keys of any algorithm, and the bare pair of RSA numbers.
-/
namespace SshKeys.Der

inductive PublicKey
  | rsa (n e : Nat)
  | dsa (domain : Dsa.Domain) (y : Nat)
  | elliptic (curve : Curve) (point : Point)
  | ed25519 (key : Bytes)
  | foreign (kind : ForeignKind)
  deriving DecidableEq, Repr

namespace PublicKey

def rsaElement (n e : Nat) : Element := .sequence [.natural n, .natural e]

def readRsa (bs : Bytes) : Reading PublicKey := do
  let e ← Reading.expect (Element.ofBytes? bs)
  let [n, e] ← Reading.expect e.sequence? | .error .malformed
  let n ← Reading.expect n.natural?
  let e ← Reading.expect e.natural?
  Reading.require (KeyBody.isRsaPublic n e)
  return rsa n e

def readNatural (bs : Bytes) : Reading Nat :=
  Reading.expect ((Element.ofBytes? bs).bind Element.natural?)

def readOctets (bs : Bytes) : KeyAlgorithm → Reading PublicKey
  | .rsa => readRsa bs
  | .dsa domain => return dsa domain (← readNatural bs)
  | .elliptic parameters => do
    let curve ← Domain.curve parameters
    return elliptic curve (← Reading.expect (curve.readPoint? bs))
  | .ed25519 => do
    Reading.require (bs.length == 32)
    return ed25519 bs
  | .foreign .diffieHellman => do
    discard (readNatural bs)
    return foreign .diffieHellman
  | .foreign kind => do
    Reading.require (kind.admits bs)
    return foreign kind
  | .unknown => .error .unsupported

def readAny (bs : Bytes) : Reading PublicKey := do
  let e ← Reading.expect (Element.ofBytes? bs)
  let [algorithm, key] ← Reading.expect e.sequence? | .error .malformed
  let algorithm ← Reading.expect (KeyAlgorithm.ofElement? algorithm)
  readOctets (← Reading.expect key.bits?) algorithm

def read (bs : Bytes) : Reading PublicKey := Reading.orTry (readAny bs) (readRsa bs)

def toBody : PublicKey → Except Error KeyBody
  | rsa n e => do
    KeyBody.checkRsaSize n
    return .rsa ⟨n, e, none⟩
  | dsa domain y => KeyBody.ofDsaNumbers domain.p domain.q domain.g y
  | elliptic curve point =>
    match NistCurve.ofCurve? curve with
    | some curve => .ok (.ecdsa ⟨curve, point, none⟩)
    | none => .error (.unknownKeyType (some curve.name) 0)
  | ed25519 key => .ok (.ed25519 ⟨key, none⟩)
  | foreign kind => .error (.unknownKeyType (some (kind.name ++ "PublicKey")) 0)

def wrap (arcs : List Nat) (parameters : List Element) (key : Bytes) : Element :=
  .sequence [.algorithm arcs parameters, .bits key]

def element : KeyBody → Except Error Element
  | .rsa k => .ok (wrap Identifier.rsa [.null] (rsaElement k.n k.e).toBytes)
  | .dsa k => do
    let domain ← k.domain
    let y := Element.natural k.y.toNat
    return wrap Identifier.dsa [KeyAlgorithm.domainElement domain] y.toBytes
  | .ecdsa k =>
    .ok (wrap Identifier.ellipticCurve [.identifier k.curve.curve.arcs] k.pointBytes)
  | .ed25519 k => .ok (wrap Identifier.ed25519 [] k.publicKey)

end PublicKey
end SshKeys.Der
