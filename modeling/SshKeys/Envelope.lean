import SshKeys.Envelope.Suite
import SshKeys.Envelope.Section
import SshKeys.Envelope.Armour
/-!
# Key files

A magic text, the names of cipher and stretching method with its options, the public keys, and the
private section, encrypted or not. All but the private section can be read without a passphrase.
-/
namespace SshKeys

structure Envelope where
  cipherName : String
  stretching : Stretching
  publicBlobs : List Bytes
  payload : Bytes
  deriving DecidableEq, Repr

namespace Envelope

def magic : Bytes := Utf8.encode "openssh-key-v1" ++ [0]

def defaultCipher : String := "aes256-ctr"

/-- Reads a given number of strings, behind those read so far, last one first. -/
def readStrings (done : List Bytes) : Nat → Reader (List Bytes)
  | 0 => return done.reverse
  | count + 1 => do readStrings ((← Packet.readString) :: done) count

def readFields : Reader Envelope := do
  let cipherName ← Packet.readText
  let stretchingName ← Packet.readText
  let options ← Packet.readString
  let suite ← KeyBody.lift (CipherSuite.ofName (some cipherName))
  let stretching ← KeyBody.lift (Stretching.ofOptions stretchingName options)
  if stretching.name = "none" ∧ !suite.isNone then throw (.cipherWithoutStretching cipherName)
  let count ← Packet.readUInt32
  if count = 0 then throw .noKeys
  if (← get).remaining / 4 < count then throw (.keyCount count)
  let publicBlobs ← readStrings [] count
  let payload ← Packet.readString
  let left := (← get).remaining
  if left ≠ 0 then throw (.sectionTrailing left)
  if payload.isEmpty ∨ payload.length % suite.blockSize ≠ 0 then
    throw (.sectionSize payload.length suite.blockSize)
  return ⟨cipherName, stretching, publicBlobs, payload⟩

def ofBytes (data : Bytes) : Except Error Envelope :=
  if magic.isPrefixOf data then
    Packet.parse (do discard (Packet.read magic.length); readFields) data
  else .error .magicMissing

def toBytes (e : Envelope) : Except Error Bytes := do
  let options ← e.stretching.options
  let header ← Wire.strings [Utf8.encode e.cipherName, Utf8.encode e.stretching.name, options]
  unless Wire.fits e.publicBlobs.length do throw (.misuse .width)
  let body ← Wire.strings (e.publicBlobs ++ [e.payload])
  return magic ++ header ++ Wire.uint32 e.publicBlobs.length ++ body

def load (data : Bytes) : Action Envelope := do
  let e ← Action.ofExcept (ofBytes data)
  let keys := e.publicBlobs.length
  Journal.log .debug .envelope
    s!"Read openssh-key-v1 envelope: cipher={e.cipherName}, kdf={e.stretching.name}, keys={keys}"
  return e

/-- As `load`, for a datum of any form; only bytes can be an envelope. -/
def loadDatum : Datum → Action Envelope
  | .bytes data => load data
  | .text _ => throw (.misuse .type)
  | .foreign _ => throw (.misuse .type)

def isEncrypted (e : Envelope) : Bool := e.cipherName != "none"

def shown (e : Envelope) : String :=
  let keys := e.publicBlobs.length
  s!"PrivateKeyEnvelope(cipher={e.cipherName}, kdf={e.stretching.name}, keys={keys})"

def publicKeys (e : Envelope) : Except Error (List Key) := e.publicBlobs.mapM Key.ofBlob

def decrypt (e : Envelope) (passphrase : Datum) : Action PrivateSection := do
  let suite ← Action.ofExcept (CipherSuite.ofName (some e.cipherName))
  let plain ← suite.decrypt e.stretching passphrase e.payload
  Action.ofExcept (PrivateSection.ofBytes plain e.publicBlobs)

/-- Cipher name and stretching for a passphrase, which has to be there exactly if the cipher
encrypts. -/
def protection (passphrase : Datum) (cipherName : Option String) (rounds : Option Int) :
    Action (String × Stretching) := do
  if passphrase.isEmpty then
    match cipherName with
    | none => return ("none", Stretching.none)
    | some name =>
      if name ≠ "none" then throw (.passphraseNeeded name)
      return ("none", Stretching.none)
  else
    let name := cipherName.getD defaultCipher
    if name = "none" then throw .passphraseUnused
    return (name, ← Stretching.fresh (rounds.getD Stretching.defaultRounds))

def build (keys : List Key) (passphrase : Datum) (cipherName : Option String)
    (rounds check : Option Int) : Action Envelope := do
  if keys.isEmpty then throw .nothingToWrite
  let (name, stretching) ← protection passphrase cipherName rounds
  let suite ← Action.ofExcept (CipherSuite.ofName (some name))
  let plain ← PrivateSection.buildFresh keys suite.blockSize check
  let payload ← suite.encrypt stretching passphrase plain
  return ⟨name, stretching, keys.map Key.blob, payload⟩

def decodeKeys (data passphrase : Datum) : Action (List Key) := do
  let raw ← match data with
    | .text s => Action.ofExcept (Armour.decodeText s)
    | other => do
      if ← Action.ofExcept (Armour.isMarked other) then Action.ofExcept (Armour.decode other)
      else Action.ofExcept other.toBytes
  let e ← load raw
  return (← e.decrypt passphrase).entries

def encodeKeys (keys : List Key) (passphrase : Datum) (cipherName : Option String)
    (rounds : Option Int) : Action String := do
  let e ← build keys passphrase cipherName rounds none
  return Armour.encode (← Action.ofExcept e.toBytes)

end Envelope
end SshKeys
