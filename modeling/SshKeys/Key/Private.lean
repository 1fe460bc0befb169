import SshKeys.Key.Public
import SshKeys.Key.RsaNumbers
import SshKeys.Curve.Edwards
/-!
# Private key entries

An entry has the type name and all fields of a key, in the order of key files. Reading checks that
private and public numbers belong together.
-/
namespace SshKeys.KeyBody

def ofRsaEntry (n e d iqmp p q : Int) : Except Error KeyBody := do
  checkRsaSize n
  if p ≤ 1 ∨ q ≤ 1 ∨ d ≤ 0 then throw .rsaNumbersInvalid
  if p * q ≠ n then throw .rsaModulusMismatch
  if d ≤ 1 then throw .rsaPrivateInvalid
  if e < 0 then throw .rsaPrivateInvalid
  let numbers : RsaNumbers :=
    { n := n.toNat, e := e.toNat, d := d.toNat, p := p.toNat, q := q.toNat,
      dmp1 := d.toNat % (p.toNat - 1), dmq1 := d.toNat % (q.toNat - 1), iqmp := iqmp.toNat }
  unless numbers.areInRange do throw .rsaPrivateInvalid
  if iqmp < 0 then throw (.misuse .magnitude)
  unless numbers.areSound do throw .rsaPrivateInvalid
  return .rsa numbers.toKey

/-- Modulus sizes with which DSA is carried out. -/
def dsaModulusSizes : List Nat := [1024, 2048, 3072, 4096]

def ofDsaEntry (p q g y x : Int) : Except Error KeyBody := do
  checkDsa p q g y
  unless 0 < x ∧ x < q do throw .dsaPrivateRange
  if Int.ofNat (Modular.power g.toNat x.toNat p.toNat) ≠ y then throw .dsaMismatch
  unless dsaModulusSizes.contains (TwosComplement.bitLength p) do throw .dsaPrivateInvalid
  return .dsa ⟨p, q, g, y, some x⟩

def ofEcdsaEntry (curve : NistCurve) (point : Point) (scalar : Int) : Except Error KeyBody := do
  if scalar ≤ 0 ∨ curve.bits < TwosComplement.bitLength scalar then throw (.scalarRange curve.name)
  match curve.curve.baseMultiple? scalar.toNat with
  | none => throw .ecdsaPrivateInvalid
  | some derived =>
    if derived ≠ point then throw .ecdsaMismatch
    return .ecdsa ⟨curve, point, some scalar.toNat⟩

/-- An Ed25519 key from the public key and the secret of an entry, which repeats the public key. -/
def ofEd25519Entry (publicKey secret : Bytes) : Except Error KeyBody := do
  if secret.length ≠ 64 then throw (.ed25519SecretSize secret.length)
  if secret.drop 32 ≠ publicKey then throw .ed25519PublicNotEmbedded
  if Edwards.publicKey (secret.take 32) ≠ publicKey then throw .ed25519PublicNotDerived
  return .ed25519 ⟨publicKey, some (secret.take 32)⟩

def readPrivateFields (keyType : String) : KeyClass → Reader KeyBody
  | .rsa => do
    let n ← Packet.readInteger
    let e ← Packet.readInteger
    let d ← Packet.readInteger
    let iqmp ← Packet.readInteger
    let p ← Packet.readInteger
    let q ← Packet.readInteger
    lift (ofRsaEntry n e d iqmp p q)
  | .dsa => do
    let p ← Packet.readInteger
    let q ← Packet.readInteger
    let g ← Packet.readInteger
    let y ← Packet.readInteger
    let x ← Packet.readInteger
    lift (ofDsaEntry p q g y x)
  | .ecdsa => do
    match NistCurve.ofKeyType? keyType with
    | none => throw (.unknownKeyType (some keyType) 0)
    | some curve =>
      let point ← readPoint keyType curve
      let scalar ← Packet.readInteger
      lift (ofEcdsaEntry curve point scalar)
  | .ed25519 => do
    let publicKey ← readEd25519Bytes
    let secret ← Packet.readString
    lift (ofEd25519Entry publicKey secret)

/-- Reads one entry and leaves the position just behind its last field. -/
def readEntry : Reader KeyBody := do
  let keyType ← Packet.readText
  match KeyClass.ofIdentifier? keyType with
  | some keyClass => readPrivateFields keyType keyClass
  | none => throw (.unknownKeyType (some keyType) 0)

/-- The contents of the string fields of an entry behind the type name, if there is a private
part. -/
def privateFields? : KeyBody → Option (List Bytes)
  | .rsa k => k.secret.map fun s => [(k.n : Int), k.e, s.d, s.iqmp, s.p, s.q].map Wire.integerBytes
  | .dsa k => k.x.map fun x => [k.p, k.q, k.g, k.y, x].map Wire.integerBytes
  | .ecdsa k => k.scalar.map fun scalar =>
    [Utf8.encode k.curve.name, k.pointBytes, Wire.integerBytes scalar]
  | .ed25519 k => k.secret.map fun secret => [k.publicKey, secret]

end SshKeys.KeyBody

namespace SshKeys.Key

def entry (k : Key) : Except Error Bytes :=
  match k.body.privateFields? with
  | some fields => Wire.strings (Utf8.encode k.name :: fields)
  | none => .error (.noPrivatePart k.name "write")

def readEntry : Reader Key := return { body := ← KeyBody.readEntry }

end SshKeys.Key
