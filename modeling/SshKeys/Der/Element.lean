import SshKeys.Bytes
/-!
# Elements of DER

DER writes every value as a tag, a length and the contents. Lengths have one writing only: a single
octet below 128, and otherwise the count of the shortest big-endian octets in front of these.
Contents of a composite value are elements again; they are taken apart when somebody asks.
-/
namespace SshKeys.Der

structure Element where
  tag : UInt8
  contents : Bytes
  deriving DecidableEq, Repr

namespace Element

def lengthOctets (n : Nat) : Bytes :=
  if n < 128 then [UInt8.ofNat n]
  else UInt8.ofNat (128 + Bytes.byteLength n) :: Bytes.minimal n

/-- Reads a length in its only writing, and gives what follows it. -/
def readLength? : Bytes → Option (Nat × Bytes)
  | [] => none
  | first :: rest =>
    if first < 128 then some (first.toNat, rest)
    else
      let count := first.toNat - 128
      let n := Bytes.toNat (rest.take count)
      if count ≤ rest.length ∧ 128 ≤ n ∧ Bytes.byteLength n = count then some (n, rest.drop count)
      else none

def toBytes (e : Element) : Bytes := e.tag :: (lengthOctets e.contents.length ++ e.contents)

def read? : Bytes → Option (Element × Bytes)
  | [] => none
  | tag :: rest =>
    match readLength? rest with
    | none => none
    | some (size, rest) =>
      if size ≤ rest.length then some (⟨tag, rest.take size⟩, rest.drop size) else none

/-- The elements of a byte string of at most `steps` elements, behind those read so far, last one
first. -/
def listFrom : Nat → List Element → Bytes → Option (List Element)
  | _, done, [] => some done.reverse
  | 0, _, _ => none
  | steps + 1, done, bs =>
    match read? bs with
    | none => none
    | some (e, rest) => listFrom steps (e :: done) rest

def listOf? (bs : Bytes) : Option (List Element) := listFrom bs.length [] bs

def ofBytes? (bs : Bytes) : Option Element :=
  match read? bs with
  | some (e, []) => some e
  | _ => none

def ofItems (tag : UInt8) (items : List Element) : Element := ⟨tag, items.flatMap toBytes⟩

def items? (tag : UInt8) (e : Element) : Option (List Element) :=
  if e.tag = tag then listOf? e.contents else none

end Element
end SshKeys.Der
