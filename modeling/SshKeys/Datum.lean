import SshKeys.Error
import SshKeys.Text.Utf8
/-!
# Text or bytes

What a caller hands over where text or bytes are expected. Either of the two will do nearly
everywhere; anything else is foreign, and is refused with the name of its type.
-/
namespace SshKeys

/-- A text with half a surrogate pair in it, which no bytes can spell. -/
structure BrokenText where
  codes : List Nat
  broken : (codes.any fun code => 0xD800 ≤ code && code < 0xE000) = true
  deriving DecidableEq, Repr

/-- A value that is neither bytes nor a text that bytes can spell. -/
inductive Foreign
  | nothing
  | boolean (value : Bool)
  | integer (value : Int)
  | decimal (digits : String)
  | list (size : Nat)
  | table (size : Nat)
  | brokenText (value : BrokenText)
  deriving DecidableEq, Repr

namespace Foreign

def typeName : Foreign → String
  | nothing => "NoneType"
  | boolean _ => "bool"
  | integer _ => "int"
  | decimal _ => "float"
  | list _ => "list"
  | table _ => "dict"
  | brokenText _ => "str"

/-- Nothing, false, zero, and what holds no element. -/
def isEmpty : Foreign → Bool
  | nothing => true
  | boolean value => !value
  | integer value => value == 0
  | decimal digits => digits.toList.all fun c => c == '0' || c == '.' || c == '-'
  | list size => size == 0
  | table size => size == 0
  | brokenText _ => false

def refusal : Foreign → Error
  | brokenText _ => .notEncodable
  | value => .notTextual value.typeName

def shown : Foreign → String
  | nothing => "None"
  | boolean value => if value then "True" else "False"
  | integer value => toString value
  | decimal digits => digits
  | list _ => "[]"
  | table _ => "\x7b\x7d"
  | brokenText broken => String.ofList (broken.codes.map Char.ofNat)

end Foreign

inductive Datum
  | text (s : String)
  | bytes (bs : Bytes)
  | foreign (value : Foreign)
  deriving DecidableEq, Repr

namespace Datum

def typeName : Datum → String
  | text _ => "str"
  | bytes _ => "bytes"
  | foreign value => value.typeName

def isEmpty : Datum → Bool
  | text s => s.isEmpty
  | bytes bs => bs.isEmpty
  | foreign value => value.isEmpty

def toBytes : Datum → Except Error Bytes
  | text s => .ok (Utf8.encode s)
  | bytes bs => .ok bs
  | foreign value => .error value.refusal

def onlyBytes : Datum → Except Error Bytes
  | bytes bs => .ok bs
  | _ => .error (.misuse .type)

/-- How many units a datum has, where nothing has none. -/
def size : Datum → Except Error Nat
  | text s => .ok s.length
  | bytes bs => .ok bs.length
  | foreign .nothing => .ok 0
  | foreign (.list size) => .ok size
  | foreign (.table size) => .ok size
  | foreign (.brokenText broken) => .ok broken.codes.length
  | foreign _ => .error (.misuse .type)

def toText : Datum → Except Error String
  | text s => .ok s
  | bytes bs =>
    match Utf8.decode? bs with
    | some s => .ok s
    | none => .error (.misuse .undecodable)
  | foreign value => .error value.refusal

/-- As `toText`, with `cause` for bytes that spell no text. -/
def toTextOr (cause : Error) (d : Datum) : Except Error String :=
  match d with
  | bytes bs =>
    match Utf8.decode? bs with
    | some s => .ok s
    | none => .error cause
  | other => other.toText

theorem toTextOr_encode (cause : Error) (s : String) :
    (bytes (Utf8.encode s)).toTextOr cause = .ok s := by
  rw [toTextOr, Utf8.decode?_encode]

theorem toTextOr_undecodable (cause : Error) {bs : Bytes} (h : Utf8.decode? bs = none) :
    (bytes bs).toTextOr cause = .error cause := by
  rw [toTextOr, h]

/-- The units that a comparison walks over: the characters of a text, or the bytes. -/
def units : Datum → Except Error (List Nat)
  | text s => .ok (s.toList.map Char.toNat)
  | bytes bs => .ok (bs.map UInt8.toNat)
  | foreign (.brokenText broken) => .ok broken.codes
  | foreign _ => .error (.misuse .type)

/-- The bits in which two sequences differ, collected over all positions whatever the earlier ones
show. -/
def differences (a b : List Nat) : Nat := (List.zipWith (· ^^^ ·) a b).foldl (· ||| ·) 0

def agree (a b : List Nat) : Bool := a.length == b.length && differences a b == 0

def equalThroughout (a b : Datum) : Except Error Bool := do
  return agree (← a.units) (← b.units)

def shown : Datum → String
  | text s => s
  | bytes bs => Quoted.bytes bs
  | foreign value => value.shown

def quoted : Datum → String
  | text s => Quoted.text s
  | other => other.shown

/-- The number of a single unit: a number itself, or the code of a text of one character. -/
def unit : Datum → Except Error Int
  | foreign (.integer n) => .ok n
  | text s =>
    match s.toList with
    | [c] => .ok c.toNat
    | _ => .error (.misuse .type)
  | bytes [b] => .ok b.toNat
  | foreign (.brokenText ⟨[code], _⟩) => .ok code
  | _ => .error (.misuse .type)

def byteOf (n : Int) : Except Error Bytes :=
  if 0 ≤ n ∧ n < 256 then .ok [UInt8.ofNat n.toNat] else .error (.misuse .value)

end Datum
end SshKeys
