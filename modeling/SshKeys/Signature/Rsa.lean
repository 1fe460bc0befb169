import SshKeys.Arithmetic.Modular
import SshKeys.Hash
/-!
# RSA signatures

The first padding of PKCS #1: the digest, marked with the name of its hash function, fills the
modulus from the right behind a run of ones.
-/
namespace SshKeys.Rsa

def digestMark : Hash → Bytes
  | .md5 => [0x30, 0x20, 0x30, 0x0C, 0x06, 0x08, 0x2A, 0x86, 0x48, 0x86, 0xF7, 0x0D, 0x02, 0x05,
      0x05, 0x00, 0x04, 0x10]
  | .sha1 => [0x30, 0x21, 0x30, 0x09, 0x06, 0x05, 0x2B, 0x0E, 0x03, 0x02, 0x1A, 0x05, 0x00, 0x04,
      0x14]
  | .sha256 => [0x30, 0x31, 0x30, 0x0D, 0x06, 0x09, 0x60, 0x86, 0x48, 0x01, 0x65, 0x03, 0x04, 0x02,
      0x01, 0x05, 0x00, 0x04, 0x20]
  | .sha384 => [0x30, 0x41, 0x30, 0x0D, 0x06, 0x09, 0x60, 0x86, 0x48, 0x01, 0x65, 0x03, 0x04, 0x02,
      0x02, 0x05, 0x00, 0x04, 0x30]
  | .sha512 => [0x30, 0x51, 0x30, 0x0D, 0x06, 0x09, 0x60, 0x86, 0x48, 0x01, 0x65, 0x03, 0x04, 0x02,
      0x03, 0x05, 0x00, 0x04, 0x40]

def padded (hash : Hash) (size : Nat) (message : Bytes) : Bytes :=
  let tail := digestMark hash ++ hash.digest message
  0 :: 1 :: (List.replicate (size - tail.length - 3) 0xFF ++ 0 :: tail)

def sign (hash : Hash) (n d : Nat) (message : Bytes) : Bytes :=
  let size := Bytes.byteLength n
  Bytes.ofNat size (Modular.power (Bytes.toNat (padded hash size message)) d n)

/-- Moduli beyond 16384 bits, and exponents beyond 64 bits with moduli beyond 3072, are too costly
to work with; even moduli are no products of odd primes, and exponents stay below the modulus. -/
def isWorkable (n e : Nat) : Bool :=
  e < n && n % 2 == 1 && Bytes.bitLength n ≤ 16384 &&
    (Bytes.bitLength n ≤ 3072 || Bytes.bitLength e ≤ 64)

/-- Whether a signature as long as the modulus, and below it, opens to the padded digest. -/
def verify (hash : Hash) (n e : Nat) (message signature : Bytes) : Bool :=
  let size := Bytes.byteLength n
  let s := Bytes.toNat signature
  if signature.length ≠ size ∨ n ≤ s ∨ !isWorkable n e then false
  else Bytes.ofNat size (Modular.power s e n) == padded hash size message

end SshKeys.Rsa
