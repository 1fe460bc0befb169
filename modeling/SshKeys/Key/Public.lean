import SshKeys.Key.Basic
/-!
# Public keys in the wire format

Each class checks the sizes and ranges of its own numbers; nothing may follow the last field of a
whole blob.
-/
namespace SshKeys.KeyBody

def minModulusBits : Nat := 1024

def checkRsaSize (n : Int) : Except Error Unit :=
  let bits := TwosComplement.bitLength n
  if bits < minModulusBits then .error (.rsaModulusSmall bits) else .ok ()

def isRsaPublic (n e : Nat) : Bool := 3 ≤ n && 3 ≤ e && e < n && e % 2 == 1

def ofRsaNumbers (e n : Int) : Except Error KeyBody := do
  checkRsaSize n
  if e < 0 ∨ n < 0 then throw (.misuse .magnitude)
  unless isRsaPublic n.toNat e.toNat do throw .rsaPublicInvalid
  return .rsa ⟨n.toNat, e.toNat, none⟩

/-- Parameters whose signatures fit the fixed fields of the wire format, with generator and public
number in range. -/
def checkDsa (p q g y : Int) : Except Error Unit := do
  let subgroupBits := TwosComplement.bitLength q
  if subgroupBits ≠ 160 then throw (.dsaSubgroupSize subgroupBits)
  let bits := TwosComplement.bitLength p
  if bits < minModulusBits then throw (.dsaModulusSmall bits)
  unless 1 < g ∧ g < p ∧ 1 < y ∧ y < p do throw .dsaPublicInvalid

def ofDsaNumbers (p q g y : Int) : Except Error KeyBody := do
  checkDsa p q g y
  return .dsa ⟨p, q, g, y, none⟩

def lift {α : Type} : Except Error α → Reader α
  | .ok a => pure a
  | .error e => throw e

def readRsaPublic : Reader KeyBody := do
  let e ← Packet.readInteger
  let n ← Packet.readInteger
  lift (ofRsaNumbers e n)

def readDsaPublic : Reader KeyBody := do
  let p ← Packet.readInteger
  let q ← Packet.readInteger
  let g ← Packet.readInteger
  let y ← Packet.readInteger
  lift (ofDsaNumbers p q g y)

/-- Reads the curve name, which has to fit the type name, and an uncompressed point. -/
def readPoint (keyType : String) (curve : NistCurve) : Reader Point := do
  let name ← Packet.readText
  if name ≠ curve.name then throw (.curveMismatch name keyType)
  let bs ← Packet.readString
  if bs.head? ≠ some 4 then throw .pointCompressed
  if bs.length ≠ curve.pointSize then throw (.pointSize curve.name curve.pointSize bs.length)
  match curve.curve.readUncompressed? bs with
  | some q => return q
  | none => throw .pointOffCurve

def readEcdsaPublic (keyType : String) : Reader KeyBody := do
  match NistCurve.ofKeyType? keyType with
  | some curve => return .ecdsa ⟨curve, ← readPoint keyType curve, none⟩
  | none => throw (.wrongKeyType KeyClass.ecdsa.name keyType)

def readEd25519Bytes : Reader Bytes := do
  let bs ← Packet.readString
  if bs.length ≠ 32 then throw (.ed25519PublicSize bs.length)
  return bs

def readEd25519Public : Reader KeyBody := return .ed25519 ⟨← readEd25519Bytes, none⟩

def readPublic (keyClass : KeyClass) : Reader KeyBody := do
  modify Packet.rewind
  let keyType ← Packet.readText
  unless keyClass.publicTypes.contains keyType do throw (.wrongKeyType keyClass.name keyType)
  match keyClass with
  | .rsa => readRsaPublic
  | .dsa => readDsaPublic
  | .ecdsa => readEcdsaPublic keyType
  | .ed25519 => readEd25519Public

def readWholePublic (keyClass : KeyClass) (keyType : String) : Reader KeyBody := do
  let body ← readPublic keyClass
  let left := (← get).remaining
  if left ≠ 0 then throw (.keyTrailing left keyType)
  return body

end SshKeys.KeyBody

namespace SshKeys.Key

def ofTypedBlob (keyType : String) (blob : Bytes) : Except Error Key :=
  match KeyClass.ofIdentifier? keyType with
  | some keyClass => do
    return { body := ← Packet.parse (KeyBody.readWholePublic keyClass keyType) blob }
  | none => .error (.unknownKeyType (some keyType) blob.length)

def ofBlob (blob : Bytes) : Except Error Key := do
  ofTypedBlob (← Packet.parse Packet.readText blob) blob

end SshKeys.Key
