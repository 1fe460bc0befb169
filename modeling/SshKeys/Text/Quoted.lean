import SshKeys.Bytes
import SshKeys.Text.Hex
/-!
# Quoted values

Values inside messages are quoted so that every character is visible. A text stands between single
quotes, or between double quotes if it holds a single quote and no double one; controls, blanks
other than the space, and format characters are written as numbers.
-/
namespace SshKeys.Quoted

/-- Characters beyond ASCII that leave no mark of their own on the page. -/
def hiddenRanges : List (UInt32 × UInt32) :=
  [(0x80, 0xA0), (0xAD, 0xAD), (0x600, 0x605), (0x61C, 0x61C), (0x6DD, 0x6DD), (0x70F, 0x70F),
   (0x890, 0x891), (0x8E2, 0x8E2), (0x1680, 0x1680), (0x180E, 0x180E), (0x2000, 0x200F),
   (0x2028, 0x202F), (0x205F, 0x2064), (0x2066, 0x206F), (0x3000, 0x3000), (0xE000, 0xF8FF),
   (0xFEFF, 0xFEFF), (0xFFF9, 0xFFFB), (0x110BD, 0x110BD), (0x110CD, 0x110CD),
   (0x13430, 0x1343F), (0x1BCA0, 0x1BCA3), (0x1D173, 0x1D17A), (0xE0001, 0xE0001),
   (0xE0020, 0xE007F), (0xF0000, 0xFFFFD), (0x100000, 0x10FFFD)]

def isHidden (c : Char) : Bool :=
  hiddenRanges.any fun range => range.1 ≤ c.val && c.val ≤ range.2

def hexDigits (width n : Nat) : List Char :=
  (List.range width).map fun i => Hex.digit (UInt8.ofNat (n / Nat.pow 16 (width - 1 - i) % 16))

def numbered (c : Char) : List Char :=
  let n := c.toNat
  if n < 0x100 then '\\' :: 'x' :: hexDigits 2 n
  else if n < 0x10000 then '\\' :: 'u' :: hexDigits 4 n
  else '\\' :: 'U' :: hexDigits 8 n

def escape (quote c : Char) : List Char :=
  if c = quote ∨ c = '\\' then ['\\', c]
  else if c = '\n' then ['\\', 'n']
  else if c = '\r' then ['\\', 'r']
  else if c = '\t' then ['\\', 't']
  else if c.toNat < 0x20 ∨ c.toNat = 0x7F ∨ isHidden c then numbered c
  else [c]

def mark (cs : List Char) : Char :=
  if cs.contains '\x27' ∧ !cs.contains '"' then '"' else '\x27'

def encode (cs : List Char) : List Char :=
  let quote := mark cs
  quote :: cs.flatMap (escape quote) ++ [quote]

def text (s : String) : String := String.ofList (encode s.toList)

def optional : Option String → String
  | some s => text s
  | none => "None"

def texts (items : List String) : String :=
  "[" ++ ", ".intercalate (items.map text) ++ "]"

/-- Each byte counts as the character of its number, and beyond ASCII none is visible. -/
def bytes (bs : Bytes) : String :=
  let cs := bs.map fun b => Char.ofNat b.toNat
  let quote := mark cs
  let shown := cs.flatMap fun c => if c.toNat < 0x80 then escape quote c else numbered c
  String.ofList ('b' :: quote :: shown ++ [quote])

end SshKeys.Quoted
