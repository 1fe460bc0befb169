import SshKeys.Key.Private
import SshKeys.Signature.Primitives
/-!
# Signatures in the wire format

A signature is the name of the algorithm, then a string with the signature proper. RSA signatures
are padded with zeros on the left before they are checked; DSA signatures are two numbers of twenty
bytes; ECDSA signatures are two integers in a packet of their own. `signBy` and `verifyBy` take the
primitives as a parameter, `sign` and `verify` use the library's own.
-/
namespace SshKeys

def RsaKey.hash? : String → Option Hash
  | "ssh-rsa" => some .sha1
  | "rsa-sha2-256" => some .sha256
  | "rsa-sha2-512" => some .sha512
  | _ => none

def RsaKey.defaultAlgorithm : String := "rsa-sha2-512"

/-- A signature string brought to at least the length of the modulus. -/
def RsaKey.padSignature (n : Nat) (signature : Bytes) : Bytes :=
  Bytes.zeros ((Bytes.bitLength n - 8 * signature.length + 7) / 8) ++ signature

def DsaKey.domain (k : DsaKey) : Except Error Dsa.Domain := do
  unless KeyBody.dsaModulusSizes.contains (TwosComplement.bitLength k.p) do throw (.misuse .value)
  if k.q < 0 then throw (.misuse .magnitude)
  return ⟨k.p.toNat, k.q.toNat, k.g.toNat⟩

def DsaKey.privateNumber (k : DsaKey) (x : Int) : Except Error (Dsa.Domain × Nat) := do
  unless KeyBody.dsaModulusSizes.contains (TwosComplement.bitLength k.p) do throw (.misuse .value)
  unless 0 < x ∧ x < k.q do throw (.misuse .value)
  if Int.ofNat (Modular.power k.g.toNat x.toNat k.p.toNat) ≠ k.y then throw (.misuse .value)
  return (← k.domain, x.toNat)

/-- A number of a DSA signature, filled up with zeros on the left to twenty bytes. -/
def DsaKey.signatureField (n : Nat) : Bytes :=
  let bs := TwosComplement.encodeUnsigned n
  Bytes.zeros (20 - bs.length) ++ bs

def DsaKey.signatureBytes (sig : Dsa.Signature) : Bytes :=
  signatureField sig.r ++ signatureField sig.s

def DsaKey.signatureNumbers (bs : Bytes) : Dsa.Signature :=
  ⟨Bytes.toNat (bs.take 20), Bytes.toNat (bs.drop 20)⟩

def EcdsaKey.signatureBytes (r s : Int) : Bytes := Wire.integer r ++ Wire.integer s

def EcdsaKey.readSignature : Reader (Int × Int) :=
  return (← Packet.readInteger, ← Packet.readInteger)

namespace Key

def signatureMessage (algorithm : String) (signature : Bytes) : Bytes :=
  Wire.text algorithm ++ Wire.string signature

/-- The algorithm name and the signature proper in a signature message, and how many bytes follow
them. -/
def readSignature : Reader (String × Bytes × Nat) := do
  let algorithm ← Packet.readText
  let signature ← Packet.readString
  return (algorithm, signature, (← get).remaining)

/-- Signs `data`; an algorithm name makes a difference for RSA keys alone. -/
def signBy (P : SignaturePrimitives) (k : Key) (data : Bytes) (algorithm : Option String) :
    Except Error Bytes := do
  k.requirePrivate "sign with"
  match k.body with
  | .rsa key =>
    let name := algorithm.getD RsaKey.defaultAlgorithm
    match RsaKey.hash? name, key.secret with
    | none, _ => throw (.rsaHashUnknown name)
    | some _, none => throw (.noPrivatePart k.name "sign with")
    | some hash, some secret => return signatureMessage name (P.rsaSign hash key.n secret.d data)
  | .dsa key =>
    let (domain, x) ← key.privateNumber (key.x.getD 0)
    match P.dsaSign? domain x data with
    | some sig => return signatureMessage k.name (DsaKey.signatureBytes sig)
    | none => throw (.misuse .value)
  | .ecdsa key =>
    match P.ecdsaSign? key.curve.curve key.curve.hash (key.scalar.getD 0) data with
    | some sig => return signatureMessage k.name (EcdsaKey.signatureBytes sig.r sig.s)
    | none => throw (.misuse .value)
  | .ed25519 key => return signatureMessage k.name (P.edwardsSign (key.seed.getD []) data)

def sign : Key → (data : Bytes) → (algorithm : Option String) → Except Error Bytes := signBy .own

def verifyRsa (P : SignaturePrimitives) (key : RsaKey) (data : Bytes) : Reader Bool := do
  match RsaKey.hash? (← Packet.readText) with
  | none => return false
  | some hash =>
    let signature ← Packet.readString
    return P.rsaVerify hash key.n key.e data (RsaKey.padSignature key.n signature)

def verifyDsa (P : SignaturePrimitives) (key : DsaKey) (data : Bytes) : Reader Bool := do
  if (← Packet.readText) ≠ "ssh-dss" then return false
  let signature ← Packet.readString
  if signature.length ≠ 40 then return false
  let domain ← KeyBody.lift key.domain
  return P.dsaVerify domain key.y.toNat data (DsaKey.signatureNumbers signature)

def verifyEcdsa (P : SignaturePrimitives) (key : EcdsaKey) (data : Bytes) : Reader Bool := do
  if (← Packet.readText) ≠ key.curve.keyType then return false
  let (r, s) ← KeyBody.lift (Packet.parse EcdsaKey.readSignature (← Packet.readString))
  if r < 0 ∨ s < 0 then throw (.misuse .value)
  return P.ecdsaVerify key.curve.curve key.curve.hash key.point data ⟨r.toNat, s.toNat⟩

def verifyEd25519 (P : SignaturePrimitives) (key : Ed25519Key) (data : Bytes) : Reader Bool := do
  if (← Packet.readText) ≠ "ssh-ed25519" then return false
  return P.edwardsVerify key.publicKey data (← Packet.readString)

def readVerdict (P : SignaturePrimitives) (k : Key) (data : Bytes) : Reader Bool :=
  match k.body with
  | .rsa key => verifyRsa P key data
  | .dsa key => verifyDsa P key data
  | .ecdsa key => verifyEcdsa P key data
  | .ed25519 key => verifyEd25519 P key data

def verifyBy (P : SignaturePrimitives) (k : Key) (data message : Bytes) : Except Error Bool :=
  Packet.parse (k.readVerdict P data) message

def verify : Key → (data message : Bytes) → Except Error Bool := verifyBy .own

end Key
end SshKeys
