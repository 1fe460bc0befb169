import SshKeys.Datum
import SshKeys.Wire
import SshKeys.Text.Line
/-!
# Packets

A packet is a byte string with a reading position, split at that position, so that the position can
never leave the packet. Readers move the position and never change the contents; a reader that fails
keeps the position reached so far. Writers append and never move the position.
-/
namespace SshKeys

/-- The bytes already read, last one first, the bytes still to be read, and the longest string that
readers accept. -/
structure Packet where
  consumed : Bytes
  pending : Bytes
  limit : Int
  deriving DecidableEq, Repr

/-- A computation that reads from a packet; a failure keeps the packet. -/
abbrev Reader := EStateM Error Packet

namespace Packet

def ofBytes (content : Bytes) : Packet := ⟨[], content, Wire.fieldLimit⟩

def content (p : Packet) : Bytes := p.consumed.reverse ++ p.pending

def position (p : Packet) : Nat := p.consumed.length

def remaining (p : Packet) : Nat := p.pending.length

def size (p : Packet) : Nat := p.position + p.remaining

def soFar (p : Packet) : Bytes := p.consumed.reverse

def rewind (p : Packet) : Packet := { p with consumed := [], pending := p.content }

def append (p : Packet) (data : Bytes) : Packet := { p with pending := p.pending ++ data }

def read (count : Nat) : Reader Bytes := fun p =>
  let taken := p.pending.take count
  if taken.length < count then .error (.truncated count p.remaining) p
  else .ok taken
    { p with consumed := taken.reverse ++ p.consumed, pending := p.pending.drop count }

def readCount : Int → Reader Bytes
  | .ofNat count => read count
  | .negSucc n => throw (.negativeLength (.negSucc n))

def readBoolean : Reader Bool := return (← read 1) != [0]

def readUInt32 : Reader Nat := return Bytes.toNat (← read 4)

def readUInt64 : Reader Nat := return Bytes.toNat (← read 8)

/-- Reads a string; its length is checked against the limit before its contents are looked for. -/
def readString : Reader Bytes := do
  let length ← readUInt32
  let limit := (← get).limit
  if limit < length then throw (.lengthOverflow length limit)
  read length

def readText : Reader String := do
  match Utf8.decode? (← readString) with
  | some s => return s
  | none => throw .fieldNotUtf8

def readInteger : Reader Int := return TwosComplement.decode (← readString)

def readNameList : Reader (List String) := do
  let s ← readText
  if s.isEmpty then return []
  return (Text.splitOn ',' s.toList).map String.ofList

def rest : Reader Bytes := return (← get).pending

def parse {α : Type} (reader : Reader α) (content : Bytes) : Except Error α :=
  match reader (ofBytes content) with
  | .ok a _ => .ok a
  | .error e _ => .error e

/-- The bytes that a packet is made from: nothing gives none, and from text not even a length can
be read. -/
def contentOf : Datum → Except Error Bytes
  | .bytes bs => .ok bs
  | .foreign .nothing => .ok []
  | .text s => if s.length < 4 then .error (.truncated 4 s.length) else .error (.misuse .type)
  | .foreign (.brokenText broken) =>
    let size := broken.codes.length
    if size < 4 then .error (.truncated 4 size) else .error (.misuse .type)
  | .foreign _ => .error (.misuse .type)

def shown (p : Packet) : String := "sshkeyfile.Message(" ++ Quoted.bytes p.content ++ ")"

end Packet
end SshKeys
