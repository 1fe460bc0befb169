import SshKeys.Der.Element
import SshKeys.TwosComplement
/-!
# Values as DER elements

The values that keys are made of: natural numbers, octet and bit strings, object identifiers, the
null value, sequences, values marked by their place, and algorithms with their parameters. Each has
one writing, and its reader takes no other.
-/
namespace SshKeys.Der.Element

def sequence (items : List Element) : Element := ofItems 0x30 items

def sequence? (e : Element) : Option (List Element) := e.items? 0x30

def marked (place : UInt8) (e : Element) : Element := ofItems (0xA0 + place) [e]

def marked? (place : UInt8) (e : Element) : Option Element :=
  match e.items? (0xA0 + place) with
  | some [inner] => some inner
  | _ => none

def null : Element := ⟨0x05, []⟩

def isNull (e : Element) : Bool := e == null

def natural (n : Nat) : Element := ⟨0x02, TwosComplement.encode n⟩

/-- Whether contents are the shortest writing of a natural number with a sign bit. -/
def isNatural : Bytes → Bool
  | [] => false
  | [b] => b < 128
  | b :: next :: _ => b < 128 && (b != 0 || 128 ≤ next)

def natural? (e : Element) : Option Nat :=
  if e.tag = 0x02 ∧ isNatural e.contents then some (Bytes.toNat e.contents) else none

def octets (bs : Bytes) : Element := ⟨0x04, bs⟩

def octets? (e : Element) : Option Bytes := if e.tag = 0x04 then some e.contents else none

def bits (bs : Bytes) : Element := ⟨0x03, 0 :: bs⟩

def bits? (e : Element) : Option Bytes :=
  match e.contents with
  | 0 :: bs => if e.tag = 0x03 then some bs else none
  | _ => none

/-- The digits of `n` to base 128, in front of `acc`, for at most `steps` digits; all but the last
digit of an arc carry a high bit. -/
def pushArc : Nat → Nat → Bytes → Bytes
  | 0, _, acc => acc
  | steps + 1, n, acc =>
    if n = 0 then acc else pushArc steps (n / 128) (UInt8.ofNat (128 + n % 128) :: acc)

def arcOctets (n : Nat) : Bytes := pushArc n (n / 128) [UInt8.ofNat (n % 128)]

/-- The numbers of an identifier in the order of writing; the first two share one place. -/
def foldArcs : List Nat → List Nat
  | first :: second :: rest => (40 * first + second) :: rest
  | few => few

def identifier (arcs : List Nat) : Element := ⟨0x06, (foldArcs arcs).flatMap arcOctets⟩

/-- Reads numbers to base 128 to the end; `acc` holds the digits of the present one so far, if there
are any, and `done` the numbers before it, last one first. -/
def readArcs? (acc : Option Nat) (done : List Nat) : Bytes → Option (List Nat)
  | [] => if acc.isNone then some done.reverse else none
  | b :: rest =>
    let n := acc.getD 0 * 128 + b.toNat % 128
    if 128 ≤ b then
      if acc.isNone ∧ b = 128 then none else readArcs? (some n) done rest
    else readArcs? none (n :: done) rest

def unfoldArcs? : List Nat → Option (List Nat)
  | [] => none
  | n :: rest =>
    if n < 40 then some (0 :: n :: rest)
    else if n < 80 then some (1 :: (n - 40) :: rest)
    else some (2 :: (n - 80) :: rest)

def identifier? (e : Element) : Option (List Nat) :=
  if e.tag = 0x06 then (readArcs? none [] e.contents).bind unfoldArcs? else none

def algorithm (arcs : List Nat) (parameters : List Element) : Element :=
  sequence (identifier arcs :: parameters)

def algorithm? (e : Element) : Option (List Nat × Option Element) := do
  match ← e.sequence? with
  | [arcs] => return (← arcs.identifier?, none)
  | [arcs, parameters] => return (← arcs.identifier?, some parameters)
  | _ => none

end SshKeys.Der.Element
