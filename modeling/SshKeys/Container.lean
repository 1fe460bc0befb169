import SshKeys.Envelope
import SshKeys.Pem.Block
import SshKeys.Pem.Kind
/-!
# Telling containers apart

Which container some data is in, told without decrypting anything, and the class of its key as far
as that can be told.
-/
namespace SshKeys

inductive Container
  | openssh
  | rsa
  | dsa
  | ec
  | pkcs8
  | pemPublic
  | publicLine
  deriving DecidableEq, Repr

namespace Container

def name : Container → String
  | openssh => "OPENSSH"
  | rsa => "RSA"
  | dsa => "DSA"
  | ec => "EC"
  | pkcs8 => "PKCS8"
  | pemPublic => "PEM_PUBLIC"
  | publicLine => "PUBLIC"

def ofKind : PemKind → Container
  | .rsaPrivate => rsa
  | .dsaPrivate => dsa
  | .ecPrivate => ec
  | .anyPrivate | .encryptedPrivate => pkcs8
  | .anyPublic | .rsaPublic => pemPublic

def isPublic : Container → Bool
  | pemPublic | publicLine => true
  | _ => false

/-- Lines that are blank or open with a number sign hold no key. -/
def isKeyLine (line : List Char) : Bool :=
  match line with
  | [] => false
  | c :: _ => c ≠ '#'

def firstKeyLineOfText (s : String) : Option String :=
  (((Text.lines s.toList).map Text.trim).find? isKeyLine).map String.ofList

def firstKeyLine (data : Datum) : Except Error (Option String) := do
  return firstKeyLineOfText (← data.toText)

def isTypeName (cs : List Char) : Bool :=
  let isFirst (c : Char) : Bool := c.isLower || c.isDigit
  match cs with
  | [] => false
  | c :: rest => isFirst c && rest.all fun c => isFirst c || c == '@' || c == '.' || c == '-'

def classOfEnvelope (data : Bytes) : Action (Option KeyClass) := do
  let e ← Envelope.load data
  let first := e.publicBlobs.headD []
  return KeyClass.ofIdentifier? (← Action.ofExcept (Packet.parse Packet.readText first))

/-- The container of a text without PEM blocks: a public key line, if anything. -/
def ofLine (s : String) : Except Error (Container × Option KeyClass) :=
  match (firstKeyLineOfText s).map fun line => Text.fields 2 line.toList with
  | some (first :: _ :: _) =>
    if isTypeName first then .ok (publicLine, KeyClass.ofIdentifier? (String.ofList first))
    else .error .formatUndetermined
  | _ => .error .formatUndetermined

def ofText (s : String) : Action (Container × Option KeyClass) :=
  match PemBlock.labelOfText? s with
  | none => Action.ofExcept (ofLine s)
  | some label =>
    if label = Armour.label then do
      return (openssh, ← classOfEnvelope (← Action.ofExcept (Armour.decodeText s)))
    else
      match PemKind.ofLabel? label with
      | some kind => return (ofKind kind, kind.keyClass?)
      | none => throw (.pemBlockUnsupported label)

def identify (data : Datum) : Action (Container × Option KeyClass) := do
  let raw ← Action.ofExcept data.toBytes
  if Envelope.magic.isPrefixOf raw then return (openssh, ← classOfEnvelope raw)
  match Utf8.decode? raw with
  | some s => ofText s
  | none => throw .formatUndetermined

end Container
end SshKeys
