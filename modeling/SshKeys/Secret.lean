import SshKeys.Datum
/-!
# Storage for secrets

It is overwritten with zeros when it is no longer needed. Buffers are known by their address: the
storage is a buffer of its own that starts with a copy of some bytes or with zeros, or it is the
very buffer of the caller, who then sees it change and in the end wiped.
-/
namespace SshKeys

abbrev Memory := Nat → Bytes

namespace Memory

def holding (buffer : Bytes) : Memory := fun address => if address = 0 then buffer else []

def write (m : Memory) (place : Nat) (contents : Bytes) : Memory :=
  fun address => if address = place then contents else m address

@[simp] theorem write_same (m : Memory) (place : Nat) (contents : Bytes) :
    m.write place contents place = contents := if_pos rfl

theorem write_other (m : Memory) {address place : Nat} (contents : Bytes) (h : address ≠ place) :
    m.write place contents address = m address := if_neg h

end Memory

/-- A secret in memory: the address of its storage, and that of the buffer the caller made it from,
if there was one. -/
structure Secret where
  memory : Memory
  place : Nat
  given : Option Nat

namespace Secret

def storage (s : Secret) : Bytes := s.memory s.place

def source? (s : Secret) : Option Bytes := s.given.map s.memory

def overwrite (s : Secret) (contents : Bytes) : Secret :=
  { s with memory := s.memory.write s.place contents }

@[simp] theorem storage_overwrite (s : Secret) (contents : Bytes) :
    (s.overwrite contents).storage = contents := s.memory.write_same s.place contents

def copy (source : Bytes) : Secret where
  memory := (Memory.holding source).write 1 source
  place := 1
  given := some 0

def adopt (buffer : Bytes) : Secret where
  memory := Memory.holding buffer
  place := 0
  given := some 0

def fresh (size : Nat) : Secret where
  memory := (Memory.holding []).write 1 (Bytes.zeros size)
  place := 1
  given := none

def isIndex (n : Int) : Bool := -9223372036854775808 ≤ n && n < 9223372036854775808

def ofSize (size : Int) : Except Error Secret := do
  unless isIndex size do throw (.misuse .magnitude)
  if size < 0 then throw (.misuse .value)
  return fresh size.toNat

def wipe (s : Secret) : Secret := s.overwrite (Bytes.zeros s.storage.length)

def isWiped (s : Secret) : Bool := !s.storage.any (· != 0)

/-- What happens when the secret itself goes away; a storage without bytes is left alone. -/
def release (s : Secret) : Secret := if s.storage.isEmpty then s else s.wipe

/-- A position counted from the end when negative, if it lies inside. -/
def position? (size : Nat) (i : Int) : Option Nat :=
  let place := if i < 0 then i + size else i
  if 0 ≤ place ∧ place < size then some place.toNat else none

/-- Sets one byte; a number that is no byte is refused before a position outside. -/
def assign (s : Secret) (i v : Int) : Except Error Secret := do
  unless isIndex i do throw (.misuse .position)
  unless 0 ≤ v ∧ v < 256 do throw (.misuse .value)
  match position? s.storage.length i with
  | none => throw (.misuse .position)
  | some place => return s.overwrite (s.storage.set place (UInt8.ofNat v.toNat))

def byteAt (s : Secret) (i : Int) : Except Error UInt8 :=
  match (position? s.storage.length i).bind (s.storage[·]?) with
  | none => .error (.misuse .position)
  | some b => .ok b

/-- An end of a slice: counted from the end when negative, and moved inside, or just before the
first place when the slice goes backwards. -/
def bound (size stride i : Int) : Int :=
  let place := if i < 0 then i + size else i
  if 0 < stride then max 0 (min place size) else max (-1) (min place (size - 1))

/-- Every place from `first` on in strides, up to `last` but not including it. -/
def slice (bs : Bytes) (first last stride : Option Int) : Except Error Bytes := do
  let stride := stride.getD 1
  if stride = 0 then throw (.misuse .value)
  let size : Int := bs.length
  let start : Int := first.elim (if 0 < stride then 0 else size - 1) (bound size stride)
  let stop : Int := last.elim (if 0 < stride then size else -1) (bound size stride)
  let gap := if 0 < stride then stop - start else start - stop
  let count := (gap + stride.natAbs - 1) / stride.natAbs
  return (List.range count.toNat).filterMap fun (k : Nat) => bs[(start + k * stride).toNat]?

/-- A context is entered by one step and left by another, normally or through a failure, with any
steps in between; a scope is a context that is left at once. -/
inductive Step
  | wipe
  | enter
  | leave (failing : Bool)
  | scope
  | failingScope
  | set (i v : Int)
  | get (i : Int)
  | slice (first last : Option Int) (stride : Option Int := none)
  | size
  | shown
  deriving DecidableEq, Repr

inductive Answer
  | done
  | inside (storage : Bytes)
  | escaped
  | byte (b : UInt8)
  | bytes (bs : Bytes)
  | size (n : Nat)
  | text (s : String)
  deriving DecidableEq, Repr

def shown (s : Secret) : String := s!"<SecretBuffer len={s.storage.length}>"

/-- Performs one step; a failed one leaves the secret as it was. -/
def perform : Step → Secret → Except Error Answer × Secret
  | .wipe, s => (.ok .done, s.wipe)
  | .enter, s => (.ok (.inside s.storage), s)
  | .leave failing, s => (.ok (if failing then .escaped else .done), s.wipe)
  | .scope, s => (.ok (.inside s.storage), s.wipe)
  | .failingScope, s => (.ok .escaped, s.wipe)
  | .set i v, s =>
    match s.assign i v with
    | .ok s' => (.ok .done, s')
    | .error e => (.error e, s)
  | .get i, s => ((s.byteAt i).map .byte, s)
  | .slice first last stride, s => ((slice s.storage first last stride).map .bytes, s)
  | .size, s => (.ok (.size s.storage.length), s)
  | .shown, s => (.ok (.text s.shown), s)

def run : List Step → Secret → List (Except Error Answer × Secret)
  | [], _ => []
  | step :: steps, s =>
    let (answer, after) := perform step s
    (answer, after) :: run steps after

end Secret
end SshKeys
