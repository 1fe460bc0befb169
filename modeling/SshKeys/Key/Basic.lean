import SshKeys.Key.Class
import SshKeys.Packet
/-!
# Keys

A key has public numbers, possibly private ones, and a comment. The comment plays no part in
equality; `Key.identical` compares everything.
-/
namespace SshKeys

structure RsaSecret where
  d : Nat
  iqmp : Nat
  p : Nat
  q : Nat
  deriving DecidableEq, Repr

structure RsaKey where
  n : Nat
  e : Nat
  secret : Option RsaSecret
  deriving DecidableEq, Repr

structure DsaKey where
  p : Int
  q : Int
  g : Int
  y : Int
  x : Option Int
  deriving DecidableEq, Repr

structure EcdsaKey where
  curve : NistCurve
  point : Point
  scalar : Option Nat
  deriving DecidableEq, Repr

structure Ed25519Key where
  publicKey : Bytes
  seed : Option Bytes
  deriving DecidableEq, Repr

inductive KeyBody
  | rsa (k : RsaKey)
  | dsa (k : DsaKey)
  | ecdsa (k : EcdsaKey)
  | ed25519 (k : Ed25519Key)
  deriving DecidableEq, Repr

structure Key where
  body : KeyBody
  comment : Option String := some ""
  deriving DecidableEq, Repr

namespace EcdsaKey

def pointBytes (k : EcdsaKey) : Bytes := k.curve.curve.uncompressed k.point

end EcdsaKey

namespace Ed25519Key

def secret (k : Ed25519Key) : Option Bytes := k.seed.map (· ++ k.publicKey)

end Ed25519Key

namespace KeyBody

def keyClass : KeyBody → KeyClass
  | rsa _ => .rsa
  | dsa _ => .dsa
  | ecdsa _ => .ecdsa
  | ed25519 _ => .ed25519

def name : KeyBody → String
  | rsa _ => "ssh-rsa"
  | dsa _ => "ssh-dss"
  | ecdsa k => k.curve.keyType
  | ed25519 _ => "ssh-ed25519"

def bits : KeyBody → Nat
  | rsa k => Bytes.bitLength k.n
  | dsa k => TwosComplement.bitLength k.p
  | ecdsa k => k.curve.bits
  | ed25519 _ => 256

def canSign : KeyBody → Bool
  | rsa k => k.secret.isSome
  | dsa k => k.x.isSome
  | ecdsa k => k.scalar.isSome
  | ed25519 k => k.seed.isSome

def publicHalf : KeyBody → KeyBody
  | rsa k => rsa { k with secret := none }
  | dsa k => dsa { k with x := none }
  | ecdsa k => ecdsa { k with scalar := none }
  | ed25519 k => ed25519 { k with seed := none }

def publicFields : KeyBody → Bytes
  | rsa k => Wire.integer k.e ++ Wire.integer k.n
  | dsa k => Wire.integer k.p ++ Wire.integer k.q ++ Wire.integer k.g ++ Wire.integer k.y
  | ecdsa k => Wire.text k.curve.name ++ Wire.string k.pointBytes
  | ed25519 k => Wire.string k.publicKey

def blob (b : KeyBody) : Bytes := Wire.text b.name ++ b.publicFields

def samePublic (a b : KeyBody) : Bool := a.publicHalf == b.publicHalf

end KeyBody

namespace Key

def keyClass (k : Key) : KeyClass := k.body.keyClass

def name (k : Key) : String := k.body.name

def bits (k : Key) : Nat := k.body.bits

def canSign (k : Key) : Bool := k.body.canSign

def blob (k : Key) : Bytes := k.body.blob

def sameKey (a b : Key) : Bool := a.body.samePublic b.body

def identical (a b : Key) : Bool := a.sameKey b && a.comment == b.comment && a.body == b.body

def commentText (k : Key) : String := k.comment.getD ""

/-- What a key has to have for an action, or the error that names the action. -/
def requirePrivate (k : Key) (action : String) : Except Error Unit :=
  if k.canSign then .ok () else .error (.noPrivatePart k.name action)

end Key
end SshKeys
