import SshKeys.Packet
/-!
# Calls on a packet

Single calls are data, so that a whole run of reads, writes and settings is a list. `Packet.perform`
answers one call and gives the packet after it, whether or not the call succeeds. A writer may be
given the very buffer that the packet is kept in. A packet over fixed bytes has none before its first
write, and what it holds until then is given like any other value.
-/
namespace SshKeys.Packet

/-- What a writer is given: a value, or the very buffer that it appends to. -/
inductive Source (α : Type)
  | given (value : α)
  | itself
  deriving DecidableEq, Repr

namespace Source

variable {α β : Type}

instance : Coe α (Source α) := ⟨given⟩

def convert (f : α → Except Error β) : Source α → Except Error (Source β)
  | given value => given <$> f value
  | itself => .ok itself

end Source

inductive Call
  | readBytes (count : Int)
  | readByte
  | readBoolean
  | readUInt32
  | readUInt64
  | readString
  | readText
  | readInteger
  | readNameList
  | remainder
  | soFar
  | content
  | remaining
  | rewind
  | shown
  | limitStrings (limit : Int)
  | writeBytes (data : Source Datum)
  | writeBoolean (value : Bool)
  | writeUInt32 (value : Int)
  | writeUInt64 (value : Int)
  | writeInteger (value : Int)
  | writeString (data : Source Datum)
  | writeNameList (names : Option (List String))
  deriving DecidableEq, Repr

inductive Reply
  | bytes (bs : Bytes)
  | text (s : String)
  | texts (items : List String)
  | boolean (value : Bool)
  | count (n : Nat)
  | integer (z : Int)
  | done
  | itself
  deriving DecidableEq, Repr

def write (data : Bytes) : Reader Reply := fun p => .ok .itself (p.append data)

/-- Appends all bytes of a source. A buffer does not grow while it is read. -/
def extend : Source Bytes → Reader Reply
  | .given data => write data
  | .itself => do
    if (← get).size ≠ 0 then throw .bufferInUse
    return .itself

def writeUnsigned (width : Nat) (value : Int) : Reader Reply :=
  if 0 ≤ value ∧ value < Int.ofNat (Nat.pow 256 width) then write (Bytes.ofNat width value.toNat)
  else throw (.misuse .width)

def sizeOf (p : Packet) : Source Bytes → Nat
  | .given data => data.length
  | .itself => p.size

/-- Writes a string field, first its length, which has to fit four bytes, and then its contents. -/
def writeString (source : Source Bytes) : Reader Reply := do
  let size := (← get).sizeOf source
  let _ ← writeUnsigned 4 size
  extend source

def perform : Call → Reader Reply
  | .readBytes count => .bytes <$> readCount count
  | .readByte => .bytes <$> read 1
  | .readBoolean => .boolean <$> readBoolean
  | .readUInt32 => .count <$> readUInt32
  | .readUInt64 => (fun n => .integer (Int.ofNat n)) <$> readUInt64
  | .readString => .bytes <$> readString
  | .readText => .text <$> readText
  | .readInteger => .integer <$> readInteger
  | .readNameList => .texts <$> readNameList
  | .remainder => .bytes <$> rest
  | .soFar => return .bytes (← get).soFar
  | .content => return .bytes (← get).content
  | .remaining => return .count (← get).remaining
  | .rewind => do modify Packet.rewind; return .done
  | .shown => return .text (← get).shown
  | .limitStrings limit => do modify ({ · with limit := limit }); return .done
  | .writeBytes data =>
    match data.convert Datum.onlyBytes with
    | .ok source => extend source
    | .error e => throw e
  | .writeBoolean value => write (Wire.boolean value)
  | .writeUInt32 value => writeUnsigned 4 value
  | .writeUInt64 value => writeUnsigned 8 value
  | .writeInteger value => writeString (Wire.integerBytes value)
  | .writeString data =>
    match data.convert Datum.toBytes with
    | .ok source => writeString source
    | .error e => throw e
  | .writeNameList (some names) => writeString (Utf8.encode (",".intercalate names))
  | .writeNameList none => throw (.misuse .type)

/-- The answers of a run of calls, each with the packet after it; a failed call does not stop the
run. -/
def run : List Call → Packet → List (Except Error Reply × Packet)
  | [], _ => []
  | call :: calls, p =>
    match perform call p with
    | .ok reply p' => (.ok reply, p') :: run calls p'
    | .error e p' => (.error e, p') :: run calls p'

end SshKeys.Packet
