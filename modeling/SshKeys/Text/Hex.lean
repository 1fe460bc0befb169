import SshKeys.Bytes
/-!
# Hexadecimal digits

Two digits stand for each byte. Writing uses lower case; reading takes both cases and refuses an odd
number of digits.
-/
namespace SshKeys.Hex

def digit (n : UInt8) : Char :=
  if n < 10 then Char.ofNat (48 + n.toNat) else Char.ofNat (87 + n.toNat)

def value? (c : Char) : Option UInt8 :=
  if '0' ≤ c ∧ c ≤ '9' then some (UInt8.ofNat (c.toNat - 48))
  else if 'a' ≤ c ∧ c ≤ 'f' then some (UInt8.ofNat (c.toNat - 87))
  else if 'A' ≤ c ∧ c ≤ 'F' then some (UInt8.ofNat (c.toNat - 55))
  else none

def encode (bs : Bytes) : String :=
  bs.foldl (fun (s : String) (b : UInt8) => (s.push (digit (b >>> 4))).push (digit (b &&& 15))) ""

def decodeFrom (acc : Bytes) : List Char → Option Bytes
  | [] => some acc.reverse
  | [_] => none
  | a :: b :: rest =>
    match value? a, value? b with
    | some high, some low => decodeFrom ((high <<< 4 ||| low) :: acc) rest
    | _, _ => none

def decode? (cs : List Char) : Option Bytes := decodeFrom [] cs

def encodeUpper (bs : Bytes) : String := (encode bs).toUpper

end SshKeys.Hex
