import SshKeys.Curve.Edwards
import SshKeys.Key.Public
/-!
# Making keys of a known class

The caller names the class; what is read has to be of it.
-/
namespace SshKeys

namespace Key

/-- The public key in some data that is announced to have the given type. -/
def ofTypedData (keyType : Option String) (data : Datum) : Except Error Key := do
  match keyType with
  | some name =>
    if (KeyClass.ofIdentifier? name).isSome then ofTypedBlob name (← Packet.contentOf data)
    else throw (.unknownKeyType keyType (← data.size))
  | none => throw (.unknownKeyType none (← data.size))

def construct (keyClass : KeyClass) (data : Option Bytes) : Except Error Key :=
  match data with
  | some bs => do return { body := ← Packet.parse (KeyBody.readPublic keyClass) bs }
  | none => .error .keyEmpty

/-- As `construct`, out of a packet from which some bytes have been read already; gives how many
bytes follow the key. -/
def constructFrom (keyClass : KeyClass) (read : Int) : Reader (Key × Nat) := do
  discard (Packet.readCount read)
  let body ← KeyBody.readPublic keyClass
  return ({ body }, (← get).remaining)

end Key

/-- The seed of an Ed25519 key if it is wanted, and its public key if that is wanted; keys of other
classes have neither to give. -/
def Key.ed25519Parts (k : Key) (wantSeed wantPublic : Bool) :
    Except Error (Option Bytes × Option Bytes) :=
  match k.body with
  | .ed25519 parts =>
    .ok (if wantSeed then parts.seed else none, if wantPublic then some parts.publicKey else none)
  | _ => if wantSeed || wantPublic then .error (.misuse .attribute) else .ok (none, none)

def Ed25519Key.ofParts (seed publicKey : Option Bytes) : Except Error Ed25519Key :=
  match seed, publicKey with
  | _, some publicKey => .ok ⟨publicKey, seed⟩
  | some seed, none => .ok ⟨Edwards.publicKey seed, some seed⟩
  | none, none => .error .ed25519NoKey

end SshKeys
