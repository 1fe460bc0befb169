import SshKeys.Curve.Edwards
import SshKeys.Signature.Dsa
import SshKeys.Signature.Ecdsa
import SshKeys.Signature.Rsa
/-!
# Primitives of signatures

Signing and verifying in each of the four schemes. The wire format is independent of them; `own` are
those of the library.
-/
namespace SshKeys

/-- Signing and verifying in each scheme. Where numbers are drawn for a signature, the draw is part
of the function, and it may come to nothing. -/
structure SignaturePrimitives where
  rsaSign : Hash → (n d : Nat) → (message : Bytes) → Bytes
  rsaVerify : Hash → (n e : Nat) → (message signature : Bytes) → Bool
  dsaSign? : Dsa.Domain → (x : Nat) → (message : Bytes) → Option Dsa.Signature
  dsaVerify : Dsa.Domain → (y : Nat) → (message : Bytes) → Dsa.Signature → Bool
  ecdsaSign? : Curve → Hash → (scalar : Nat) → (message : Bytes) → Option Ecdsa.Signature
  ecdsaVerify : Curve → Hash → Point → (message : Bytes) → Ecdsa.Signature → Bool
  edwardsSign : (seed message : Bytes) → Bytes
  edwardsVerify : (publicKey message signature : Bytes) → Bool

namespace SignaturePrimitives

def own : SignaturePrimitives where
  rsaSign := Rsa.sign
  rsaVerify := Rsa.verify
  dsaSign? := Dsa.sign?
  dsaVerify := Dsa.verify
  ecdsaSign? := Ecdsa.sign?
  ecdsaVerify := Ecdsa.verify
  edwardsSign := Edwards.sign
  edwardsVerify := Edwards.verify

end SignaturePrimitives
end SshKeys
