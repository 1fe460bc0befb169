import SshKeys.Container
import SshKeys.Key.Fingerprint
import SshKeys.Pem.Public
/-!
# Reading and writing keys in any container

The container is told from the data on reading, and named by the caller on writing.
-/
namespace SshKeys.KeyFile

def parsePublicKey (data : Datum) : Except Error Key := do
  let label ← PemBlock.labelOf data
  if (label.bind PemKind.ofLabel?).any PemKind.isPublic then PemBlock.loadPublic data (some "")
  else
    match ← Container.firstKeyLine data with
    | some line => Key.ofLine (.text line)
    | none => throw .noPublicLine

def loadFrom (container : Container) (data passphrase : Datum) : Action (List Key) := do
  if container.isPublic then throw .publicOnlyData
  let keys ← if container = .openssh then Envelope.decodeKeys data passphrase
    else (fun key => [key]) <$> PemBlock.loadPrivate data passphrase
  Journal.log .debug .file
    s!"Loaded {keys.length} private key(s) from {container.name} data"
  return keys

/-- Reads every private key; only one container holds more than one. -/
def loadPrivateKeys (data passphrase : Datum) : Action (List Key) := do
  let (container, _) ← Container.identify data
  loadFrom container data passphrase

def parsePrivateKey (data passphrase : Datum) : Action Key := do
  match ← loadPrivateKeys data passphrase with
  | [] => throw (.misuse .position)
  | [key] => return key
  | key :: others =>
    Journal.log .warning .file
      s!"Key file holds {others.length + 1} keys; returning only the first"
    return key

def parse (data passphrase : Datum) : Action Key := do
  let (container, _) ← Container.identify data
  if container.isPublic then Action.ofExcept (parsePublicKey data)
  else parsePrivateKey data passphrase

inductive Format
  | openssh
  | publicLine
  | pem
  | pkcs1
  | sec1
  | pkcs8
  | pemPublic
  | pkcs1Public
  deriving DecidableEq, Repr

namespace Format

def all : List Format := [openssh, publicLine, pem, pkcs1, sec1, pkcs8, pemPublic, pkcs1Public]

def name : Format → String
  | openssh => "openssh"
  | publicLine => "public"
  | pem => "pem"
  | pkcs1 => "pkcs1"
  | sec1 => "sec1"
  | pkcs8 => "pkcs8"
  | pemPublic => "pem-public"
  | pkcs1Public => "pkcs1-public"

def isPrivate : Format → Bool
  | openssh | pem | pkcs1 | sec1 | pkcs8 => true
  | publicLine | pemPublic | pkcs1Public => false

def ofName (name : Option String) : Except Error Format :=
  match name.bind fun s => all.find? (·.name == s) with
  | some format => .ok format
  | none => .error (.unknownFormat name)

end Format

def serializePrivateKey (key : Key) (passphrase : Datum) (cipherName : Option String)
    (rounds : Option Int) : Action String :=
  Envelope.encodeKeys [key] passphrase cipherName rounds

/-- Writes a key in a given format; the private formats need the private part. -/
def serializeAs (format : Format) (key : Key) (passphrase : Datum) (cipherName : Option String)
    (rounds : Option Int) : Action String := do
  let pem (pemFormat : PemBlock.PrivateFormat) : Action String :=
    let cipher := (cipherName.filter (· ≠ "")).getD PemBlock.defaultCipher
    PemBlock.writePrivateAs pemFormat key passphrase (some cipher)
  if format.isPrivate ∧ !key.canSign then throw (.publicOnlyKey key.name format.name)
  match format with
  | .publicLine => return key.publicLine
  | .pemPublic => Action.ofExcept (PemBlock.writePublicAs .any key)
  | .pkcs1Public => Action.ofExcept (PemBlock.writePublicAs .pkcs1 key)
  | .openssh => serializePrivateKey key passphrase cipherName rounds
  | .pem => pem .own
  | .pkcs1 => pem .pkcs1
  | .sec1 => pem .sec1
  | .pkcs8 => pem .pkcs8

def serialize (key : Key) (formatName : Option String) (passphrase : Datum)
    (cipherName : Option String) (rounds : Option Int) : Action String := do
  serializeAs (← Action.ofExcept (Format.ofName formatName)) key passphrase cipherName rounds

end SshKeys.KeyFile
