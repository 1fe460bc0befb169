import SshKeys.Curve.Named
import SshKeys.Hash
/-!
# Classes of keys

The four classes of keys, the type names each of them answers to, and the curves and hash functions
that go with those names.
-/
namespace SshKeys

inductive NistCurve
  | p256
  | p384
  | p521
  deriving DecidableEq, Repr

namespace NistCurve

def all : List NistCurve := [p256, p384, p521]

def name : NistCurve → String
  | p256 => "nistp256"
  | p384 => "nistp384"
  | p521 => "nistp521"

def bits : NistCurve → Nat
  | p256 => 256
  | p384 => 384
  | p521 => 521

def keyType (c : NistCurve) : String := "ecdsa-sha2-" ++ c.name

def curve : NistCurve → Curve
  | p256 => Curve.secp256r1
  | p384 => Curve.secp384r1
  | p521 => Curve.secp521r1

def hash : NistCurve → Hash
  | p256 => .sha256
  | p384 => .sha384
  | p521 => .sha512

def width (c : NistCurve) : Nat := (c.bits + 7) / 8

def pointSize (c : NistCurve) : Nat := 1 + 2 * c.width

def ofKeyType? (s : String) : Option NistCurve := all.find? (·.keyType == s)

def ofBits? (bits : Int) : Option NistCurve := all.find? (Int.ofNat ·.bits == bits)

def ofCurve? (c : Curve) : Option NistCurve := all.find? (·.curve.arcs == c.arcs)

end NistCurve

inductive KeyClass
  | dsa
  | rsa
  | ed25519
  | ecdsa
  deriving DecidableEq, Repr

namespace KeyClass

/-- The classes in the order in which a type name is looked up. -/
def all : List KeyClass := [dsa, rsa, ed25519, ecdsa]

def name : KeyClass → String
  | dsa => "DSSKey"
  | rsa => "RSAKey"
  | ed25519 => "Ed25519Key"
  | ecdsa => "ECDSAKey"

def identifiers : KeyClass → List String
  | dsa => ["ssh-dss"]
  | rsa => ["ssh-rsa", "rsa-sha2-256", "rsa-sha2-512"]
  | ed25519 => ["ssh-ed25519"]
  | ecdsa => NistCurve.all.map NistCurve.keyType

def publicTypes : KeyClass → List String
  | dsa => ["ssh-dss"]
  | rsa => ["ssh-rsa"]
  | ed25519 => ["ssh-ed25519"]
  | ecdsa => NistCurve.all.map NistCurve.keyType

def ofIdentifier? (keyType : String) : Option KeyClass :=
  all.find? (·.identifiers.contains keyType)

end KeyClass
end SshKeys
