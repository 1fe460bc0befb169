import SshKeys.Bytes
/-!
# Base 64

Writing groups three bytes into four characters, with padding behind the last group. Reading is
strict: only the alphabet, then exactly the padding that a broken group asks for, then nothing;
whole groups may be followed by padding marks of any number. The unused low bits of the last
character may have any value.
-/
namespace SshKeys.Base64

def symbol (n : UInt8) : Char :=
  if n < 26 then Char.ofNat (65 + n.toNat)
  else if n < 52 then Char.ofNat (71 + n.toNat)
  else if n < 62 then Char.ofNat (n.toNat - 4)
  else if n = 62 then '+' else '/'

def value? (c : Char) : Option UInt8 :=
  if 'A' ≤ c ∧ c ≤ 'Z' then some (UInt8.ofNat (c.toNat - 65))
  else if 'a' ≤ c ∧ c ≤ 'z' then some (UInt8.ofNat (c.toNat - 71))
  else if '0' ≤ c ∧ c ≤ '9' then some (UInt8.ofNat (c.toNat + 4))
  else if c = '+' then some 62
  else if c = '/' then some 63
  else none

/-- Characters of the remaining bytes, behind `acc`, which is last first. -/
def encodeFrom (acc : List Char) : Bytes → List Char
  | [] => acc.reverse
  | [a] => ('=' :: '=' :: symbol ((a &&& 3) <<< 4) :: symbol (a >>> 2) :: acc).reverse
  | [a, b] =>
    ('=' :: symbol ((b &&& 15) <<< 2) :: symbol ((a &&& 3) <<< 4 ||| b >>> 4) ::
      symbol (a >>> 2) :: acc).reverse
  | a :: b :: c :: rest =>
    encodeFrom (symbol (c &&& 63) :: symbol ((b &&& 15) <<< 2 ||| c >>> 6) ::
      symbol ((a &&& 3) <<< 4 ||| b >>> 4) :: symbol (a >>> 2) :: acc) rest

def encode (bs : Bytes) : List Char := encodeFrom [] bs

/-- The encodings of 57 bytes each, which take 76 characters, each with a line end. -/
def encodeLines (bs : Bytes) : List Char := (Bytes.chunks 57 bs).flatMap (encode · ++ ['\n'])

def decodeFrom (acc : Bytes) : List Char → Option Bytes
  | [] => some acc.reverse
  | '=' :: rest => if acc ≠ [] ∧ rest.all (· == '=') then some acc.reverse else none
  | a :: b :: c :: d :: rest =>
    match value? a, value? b, value? c, value? d with
    | some w, some x, some y, some z =>
      decodeFrom ((y <<< 6 ||| z) :: (x <<< 4 ||| y >>> 2) :: (w <<< 2 ||| x >>> 4) :: acc) rest
    | some w, some x, some y, none =>
      if d = '=' ∧ rest = [] then
        some ((x <<< 4 ||| y >>> 2) :: (w <<< 2 ||| x >>> 4) :: acc).reverse
      else none
    | some w, some x, none, none =>
      if c = '=' ∧ d = '=' ∧ rest = [] then some ((w <<< 2 ||| x >>> 4) :: acc).reverse else none
    | _, _, _, _ => none
  | _ => none

def decode? (cs : List Char) : Option Bytes := decodeFrom [] cs

end SshKeys.Base64
