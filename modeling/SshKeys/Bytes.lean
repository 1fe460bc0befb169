/-!
# Byte strings

Byte strings are lists of octets, with the unsigned big-endian reading of a byte string, the
fixed-width writing of a natural number, and the shortest unsigned writing.
-/
namespace SshKeys

abbrev Bytes := List UInt8

namespace Bytes

def toNat (bs : Bytes) : Nat := bs.foldl (fun n b => n * 256 + b.toNat) 0

/-- The last `width` bytes of `n` in base 256, in front of `acc`. -/
def pushNat : Nat → Nat → Bytes → Bytes
  | 0, _, acc => acc
  | width + 1, n, acc => pushNat width (n / 256) (UInt8.ofNat n :: acc)

def ofNat (width n : Nat) : Bytes := pushNat width n []

def ofNatLittle : Nat → Nat → Bytes
  | 0, _ => []
  | width + 1, n => UInt8.ofNat n :: ofNatLittle width (n / 256)

def toNatLittle (bs : Bytes) : Nat := toNat bs.reverse

/-- Position of the highest set bit, counted from one; zero has none. -/
def bitLength (n : Nat) : Nat := if n = 0 then 0 else n.log2 + 1

def byteLength (n : Nat) : Nat := (bitLength n + 7) / 8

def minimal (n : Nat) : Bytes := ofNat (byteLength n) n

def zeros (count : Nat) : Bytes := List.replicate count 0

def xor (a b : Bytes) : Bytes := List.zipWith (· ^^^ ·) a b

/-- Consecutive pieces of `size` elements, the last one perhaps shorter. -/
def chunks {α : Type} (size : Nat) (xs : List α) : List (List α) :=
  go xs.length xs []
where
  go : Nat → List α → List (List α) → List (List α)
    | 0, _, acc => acc.reverse
    | fuel + 1, rest, acc =>
      if rest.isEmpty then acc.reverse
      else go fuel (rest.drop size) (rest.take size :: acc)

end Bytes
end SshKeys
