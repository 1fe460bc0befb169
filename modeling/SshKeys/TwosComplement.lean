import SshKeys.Bytes
/-!
# The shortest two's complement writing

The most significant byte comes first, as in the multiple precision integers of the wire format.
`decode` reads any byte string, `encode` writes the shortest non-empty one, and `encodeUnsigned`
drops the sign byte of a positive number.
-/
namespace SshKeys.TwosComplement

def decode (bs : Bytes) : Int :=
  match bs with
  | [] => 0
  | b :: _ =>
    if b < 128 then Int.ofNat (Bytes.toNat bs)
    else Int.ofNat (Bytes.toNat bs) - Int.ofNat (Nat.pow 256 bs.length)

def bitLength (z : Int) : Nat := Bytes.bitLength z.natAbs

/-- Bytes needed for the value bits together with one sign bit. -/
def width : Int → Nat
  | .ofNat n => Bytes.bitLength n / 8 + 1
  | .negSucc n => Bytes.bitLength n / 8 + 1

def encode (z : Int) : Bytes :=
  Bytes.ofNat (width z) (z % Int.ofNat (Nat.pow 256 (width z))).toNat

def encodeUnsigned (z : Int) : Bytes :=
  if 0 < z then Bytes.minimal z.toNat else encode z

end SshKeys.TwosComplement
