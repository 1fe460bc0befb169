import SshKeys.Der.Protection
import SshKeys.Pem.Kind
import SshKeys.Pem.Traditional
/-!
# Private keys in PEM blocks

Encryption is either told by headers or part of the data; the label of a block tells which class of
keys it may hold.
-/
namespace SshKeys

namespace Der.Refusal

def inPlain (label : String) : Refusal → Error
  | malformed => .pemDataInvalid label
  | unsupported => .algorithmUnsupported
  | passwordMissing => .passphraseRequired
  | passwordUnused => .misuse .type

def inEncrypted : Refusal → Error
  | malformed | passwordMissing | passwordUnused => .badPassword
  | unsupported => .algorithmUnsupported

/-- The error for data that has been decrypted by the headers of its block. -/
def inDecrypted : Refusal → Error
  | malformed => .badPassword
  | unsupported => .algorithmUnsupported
  | passwordMissing | passwordUnused => .misuse .type

end Der.Refusal

namespace PemBlock

def readPrivate (b : PemBlock) (kind : PemKind) (passphrase : Datum) : Action Der.PrivateKey := do
  if kind = .encryptedPrivate then
    if passphrase.isEmpty then throw .passphraseRequired
    match passphrase.toBytes with
    | .error _ => throw .badPassword
    | .ok password =>
      Action.ofExcept ((Der.PrivateKey.read (some password) b.body).mapError
        Der.Refusal.inEncrypted)
  else
    match b.header "proc-type" with
    | some procType =>
      let plain ← b.decrypt procType passphrase
      Action.ofExcept ((Der.PrivateKey.read none plain).mapError Der.Refusal.inDecrypted)
    | none =>
      Action.ofExcept ((Der.PrivateKey.read none b.body).mapError (Der.Refusal.inPlain b.label))

def kindOf (b : PemBlock) (wantPublic : Bool) : Except Error PemKind :=
  match (PemKind.ofLabel? b.label).filter (·.isPublic == wantPublic) with
  | some kind => .ok kind
  | none => .error (.unknownPemLabel b.label)

def checkKind (kind : PemKind) (key : Key) : Except Error Key :=
  if kind.admits key.keyClass then .ok key else .error (.pemKeyMismatch kind.label key.name)

def loadPrivate (data passphrase : Datum) : Action Key := do
  let b ← Action.ofExcept (ofDatum data)
  let kind ← Action.ofExcept (b.kindOf false)
  Journal.log .debug .pem s!"Reading {b.label} PEM block"
  let key ← b.readPrivate kind passphrase
  Action.ofExcept (do checkKind kind { body := ← key.toBody })

/-- The longest password under which a key is written. -/
def passwordLimit : Nat := 1023

def writeAny (key : Key) (passphrase : Datum) : Action String := do
  let element ← Action.ofExcept (Der.PrivateKey.element key.body)
  if passphrase.isEmpty then return render PemKind.anyPrivate.label [] element.toBytes
  let password ← Action.ofExcept passphrase.toBytes
  if passwordLimit < password.length then throw (.misuse .value)
  let encrypted ← Der.PrivateKey.encrypted password element
  return render PemKind.encryptedPrivate.label [] encrypted.toBytes

def writeOwn (key : Key) (passphrase : Datum) (cipherName : Option String) : Action String := do
  match PemKind.ofClass? key.keyClass with
  | none => throw (.noTraditionalForm key.name)
  | some kind =>
    let element ← Action.ofExcept (Der.PrivateKey.ownElement key.body)
    if passphrase.isEmpty then return render kind.label [] element.toBytes
    renderEncrypted kind.label element.toBytes passphrase cipherName

def defaultCipher : String := "AES-128-CBC"

/-- The PEM formats for private keys: the form that keys of a class have of their own, that form for
RSA keys or for elliptic keys alone, and the form for any class. -/
inductive PrivateFormat
  | own
  | pkcs1
  | sec1
  | pkcs8
  deriving DecidableEq, Repr

namespace PrivateFormat

def all : List PrivateFormat := [own, pkcs1, sec1, pkcs8]

def name : PrivateFormat → String
  | own => "pem"
  | pkcs1 => "pkcs1"
  | sec1 => "sec1"
  | pkcs8 => "pkcs8"

def ofName (name : Option String) : Except Error PrivateFormat :=
  match name.bind fun s => all.find? (·.name == s) with
  | some format => .ok format
  | none => .error (.unknownPemFormat name)

def admits (format : PrivateFormat) (keyClass : KeyClass) : Bool :=
  match format with
  | own | pkcs8 => true
  | pkcs1 => keyClass == .rsa
  | sec1 => keyClass == .ecdsa

end PrivateFormat

def writePrivateAs (format : PrivateFormat) (key : Key) (passphrase : Datum)
    (cipherName : Option String) : Action String := do
  unless format.admits key.keyClass do throw (.unwritableAs key.name format.name)
  if format = .pkcs8 then writeAny key passphrase else writeOwn key passphrase cipherName

def writePrivate (key : Key) (formatName : Option String) (passphrase : Datum)
    (cipherName : Option String) : Action String := do
  writePrivateAs (← Action.ofExcept (PrivateFormat.ofName formatName)) key passphrase cipherName

end PemBlock
end SshKeys
