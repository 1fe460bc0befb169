import SshKeys.Key.Private
import SshKeys.Journal
/-!
# Private sections

A check number twice, then each key's entry and comment, then padding by the bytes 1, 2, 3, … up to
whole blocks.
-/
namespace SshKeys

structure PrivateSection where
  check1 : Nat
  check2 : Nat
  entries : List Key
  padding : Bytes
  deriving DecidableEq, Repr

namespace PrivateSection

def readKey (index : Nat) (blob : Bytes) : Reader Key := do
  let key ← Key.readEntry
  let key := { key with comment := some (← Packet.readText) }
  unless Datum.agree (key.blob.map UInt8.toNat) (blob.map UInt8.toNat) do
    throw (.entryMismatch index)
  return key

/-- Reads an entry for each further public key, behind the keys read so far, last one first. -/
def readKeys (done : List Key) : List Bytes → Reader (List Key)
  | [] => return done.reverse
  | blob :: blobs => do readKeys ((← readKey done.length blob) :: done) blobs

def checkPadding (start : Nat) : Bytes → Except Error Unit
  | [] => .ok ()
  | b :: rest =>
    if b = UInt8.ofNat (start + 1) then checkPadding (start + 1) rest
    else .error (.paddingByte b.toNat start)

def read (blobs : List Bytes) : Reader PrivateSection := do
  let check1 ← Packet.readUInt32
  let check2 ← Packet.readUInt32
  if check1 ≠ check2 then throw .checkMismatch
  let entries ← readKeys [] blobs
  let padding ← Packet.rest
  KeyBody.lift (checkPadding 0 padding)
  return ⟨check1, check2, entries, padding⟩

def ofBytes (plain : Bytes) (blobs : List Bytes) : Except Error PrivateSection :=
  Packet.parse (read blobs) plain

def keyBytes (k : Key) : Except Error Bytes := do
  return (← k.entry) ++ (← Wire.strings [Utf8.encode k.commentText])

def keysBytes : List Key → Except Error Bytes
  | [] => .ok []
  | k :: keys => do return (← keyBytes k) ++ (← keysBytes keys)

/-- How many bytes are missing to whole blocks. -/
def paddingSize (blockSize size : Nat) : Nat := (blockSize - size % blockSize) % blockSize

theorem paddingSize_eq_succ {blockSize size : Nat} (hBlock : 0 < blockSize)
    (hOpen : size % blockSize ≠ 0) :
    paddingSize blockSize size = paddingSize blockSize (size + 1) + 1 := by
  have hBelow := Nat.mod_lt size hBlock
  have hNow : paddingSize blockSize size = blockSize - size % blockSize :=
    Nat.mod_eq_of_lt (by omega)
  rw [hNow, paddingSize, ← Nat.mod_add_mod]
  rcases Nat.lt_or_ge (size % blockSize + 1) blockSize with hInside | hLast
  · have hMore : blockSize - (size % blockSize + 1) < blockSize := by omega
    rw [Nat.mod_eq_of_lt hInside, Nat.mod_eq_of_lt hMore]
    omega
  · have hWhole : size % blockSize + 1 = blockSize := by omega
    rw [hWhole, Nat.mod_self, Nat.sub_zero, Nat.mod_self]
    omega

/-- Appends a byte, one more than the last one each time, until there are whole blocks. -/
def pad (blockSize count : Nat) (bytes : Bytes) : Bytes :=
  if 0 < blockSize ∧ bytes.length % blockSize ≠ 0 then
    pad blockSize (count + 1) (bytes ++ [UInt8.ofNat (count + 1)])
  else bytes
termination_by paddingSize blockSize bytes.length
decreasing_by
  rename_i hOpen
  rw [List.length_append, List.length_singleton, paddingSize_eq_succ hOpen.1 hOpen.2]
  exact Nat.lt_succ_self _

def build (keys : List Key) (blockSize : Nat) (check : Int) : Except Error Bytes := do
  unless 0 ≤ check ∧ check < 4294967296 do throw (.misuse .width)
  let number := Wire.uint32 check.toNat
  return pad blockSize 0 (number ++ number ++ (← keysBytes keys))

/-- As `build`, with a random check number unless one is given. -/
def buildFresh (keys : List Key) (blockSize : Nat) (check : Option Int) : Action Bytes := do
  let number ← match check with
    | some number => pure number
    | none => (fun bs => Int.ofNat (Bytes.toNat bs)) <$> Journal.draw 4
  Action.ofExcept (build keys blockSize number)

end PrivateSection
end SshKeys
