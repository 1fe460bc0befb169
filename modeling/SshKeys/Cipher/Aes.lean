import SshKeys.Bytes
/-!
# AES

Blocks are four columns of four bytes. Encryption is a first key addition followed by rounds of
substitution, row shift, column mixing and key addition, the last round without mixing. Decryption
undoes the same steps from the inside out.
-/
namespace SshKeys.Aes

structure Column where
  a : UInt8
  b : UInt8
  c : UInt8
  d : UInt8
  deriving DecidableEq, Repr

structure Block where
  w : Column
  x : Column
  y : Column
  z : Column
  deriving DecidableEq, Repr

/-- The inverse in the field of 256 elements, followed by an affine map over bits. -/
def substitution : Array UInt8 :=
  #[0x63, 0x7C, 0x77, 0x7B, 0xF2, 0x6B, 0x6F, 0xC5, 0x30, 0x01, 0x67, 0x2B, 0xFE, 0xD7, 0xAB, 0x76,
    0xCA, 0x82, 0xC9, 0x7D, 0xFA, 0x59, 0x47, 0xF0, 0xAD, 0xD4, 0xA2, 0xAF, 0x9C, 0xA4, 0x72, 0xC0,
    0xB7, 0xFD, 0x93, 0x26, 0x36, 0x3F, 0xF7, 0xCC, 0x34, 0xA5, 0xE5, 0xF1, 0x71, 0xD8, 0x31, 0x15,
    0x04, 0xC7, 0x23, 0xC3, 0x18, 0x96, 0x05, 0x9A, 0x07, 0x12, 0x80, 0xE2, 0xEB, 0x27, 0xB2, 0x75,
    0x09, 0x83, 0x2C, 0x1A, 0x1B, 0x6E, 0x5A, 0xA0, 0x52, 0x3B, 0xD6, 0xB3, 0x29, 0xE3, 0x2F, 0x84,
    0x53, 0xD1, 0x00, 0xED, 0x20, 0xFC, 0xB1, 0x5B, 0x6A, 0xCB, 0xBE, 0x39, 0x4A, 0x4C, 0x58, 0xCF,
    0xD0, 0xEF, 0xAA, 0xFB, 0x43, 0x4D, 0x33, 0x85, 0x45, 0xF9, 0x02, 0x7F, 0x50, 0x3C, 0x9F, 0xA8,
    0x51, 0xA3, 0x40, 0x8F, 0x92, 0x9D, 0x38, 0xF5, 0xBC, 0xB6, 0xDA, 0x21, 0x10, 0xFF, 0xF3, 0xD2,
    0xCD, 0x0C, 0x13, 0xEC, 0x5F, 0x97, 0x44, 0x17, 0xC4, 0xA7, 0x7E, 0x3D, 0x64, 0x5D, 0x19, 0x73,
    0x60, 0x81, 0x4F, 0xDC, 0x22, 0x2A, 0x90, 0x88, 0x46, 0xEE, 0xB8, 0x14, 0xDE, 0x5E, 0x0B, 0xDB,
    0xE0, 0x32, 0x3A, 0x0A, 0x49, 0x06, 0x24, 0x5C, 0xC2, 0xD3, 0xAC, 0x62, 0x91, 0x95, 0xE4, 0x79,
    0xE7, 0xC8, 0x37, 0x6D, 0x8D, 0xD5, 0x4E, 0xA9, 0x6C, 0x56, 0xF4, 0xEA, 0x65, 0x7A, 0xAE, 0x08,
    0xBA, 0x78, 0x25, 0x2E, 0x1C, 0xA6, 0xB4, 0xC6, 0xE8, 0xDD, 0x74, 0x1F, 0x4B, 0xBD, 0x8B, 0x8A,
    0x70, 0x3E, 0xB5, 0x66, 0x48, 0x03, 0xF6, 0x0E, 0x61, 0x35, 0x57, 0xB9, 0x86, 0xC1, 0x1D, 0x9E,
    0xE1, 0xF8, 0x98, 0x11, 0x69, 0xD9, 0x8E, 0x94, 0x9B, 0x1E, 0x87, 0xE9, 0xCE, 0x55, 0x28, 0xDF,
    0x8C, 0xA1, 0x89, 0x0D, 0xBF, 0xE6, 0x42, 0x68, 0x41, 0x99, 0x2D, 0x0F, 0xB0, 0x54, 0xBB, 0x16]

def inverseSubstitution : Array UInt8 :=
  #[0x52, 0x09, 0x6A, 0xD5, 0x30, 0x36, 0xA5, 0x38, 0xBF, 0x40, 0xA3, 0x9E, 0x81, 0xF3, 0xD7, 0xFB,
    0x7C, 0xE3, 0x39, 0x82, 0x9B, 0x2F, 0xFF, 0x87, 0x34, 0x8E, 0x43, 0x44, 0xC4, 0xDE, 0xE9, 0xCB,
    0x54, 0x7B, 0x94, 0x32, 0xA6, 0xC2, 0x23, 0x3D, 0xEE, 0x4C, 0x95, 0x0B, 0x42, 0xFA, 0xC3, 0x4E,
    0x08, 0x2E, 0xA1, 0x66, 0x28, 0xD9, 0x24, 0xB2, 0x76, 0x5B, 0xA2, 0x49, 0x6D, 0x8B, 0xD1, 0x25,
    0x72, 0xF8, 0xF6, 0x64, 0x86, 0x68, 0x98, 0x16, 0xD4, 0xA4, 0x5C, 0xCC, 0x5D, 0x65, 0xB6, 0x92,
    0x6C, 0x70, 0x48, 0x50, 0xFD, 0xED, 0xB9, 0xDA, 0x5E, 0x15, 0x46, 0x57, 0xA7, 0x8D, 0x9D, 0x84,
    0x90, 0xD8, 0xAB, 0x00, 0x8C, 0xBC, 0xD3, 0x0A, 0xF7, 0xE4, 0x58, 0x05, 0xB8, 0xB3, 0x45, 0x06,
    0xD0, 0x2C, 0x1E, 0x8F, 0xCA, 0x3F, 0x0F, 0x02, 0xC1, 0xAF, 0xBD, 0x03, 0x01, 0x13, 0x8A, 0x6B,
    0x3A, 0x91, 0x11, 0x41, 0x4F, 0x67, 0xDC, 0xEA, 0x97, 0xF2, 0xCF, 0xCE, 0xF0, 0xB4, 0xE6, 0x73,
    0x96, 0xAC, 0x74, 0x22, 0xE7, 0xAD, 0x35, 0x85, 0xE2, 0xF9, 0x37, 0xE8, 0x1C, 0x75, 0xDF, 0x6E,
    0x47, 0xF1, 0x1A, 0x71, 0x1D, 0x29, 0xC5, 0x89, 0x6F, 0xB7, 0x62, 0x0E, 0xAA, 0x18, 0xBE, 0x1B,
    0xFC, 0x56, 0x3E, 0x4B, 0xC6, 0xD2, 0x79, 0x20, 0x9A, 0xDB, 0xC0, 0xFE, 0x78, 0xCD, 0x5A, 0xF4,
    0x1F, 0xDD, 0xA8, 0x33, 0x88, 0x07, 0xC7, 0x31, 0xB1, 0x12, 0x10, 0x59, 0x27, 0x80, 0xEC, 0x5F,
    0x60, 0x51, 0x7F, 0xA9, 0x19, 0xB5, 0x4A, 0x0D, 0x2D, 0xE5, 0x7A, 0x9F, 0x93, 0xC9, 0x9C, 0xEF,
    0xA0, 0xE0, 0x3B, 0x4D, 0xAE, 0x2A, 0xF5, 0xB0, 0xC8, 0xEB, 0xBB, 0x3C, 0x83, 0x53, 0x99, 0x61,
    0x17, 0x2B, 0x04, 0x7E, 0xBA, 0x77, 0xD6, 0x26, 0xE1, 0x69, 0x14, 0x63, 0x55, 0x21, 0x0C, 0x7D]

def substitute (b : UInt8) : UInt8 := substitution.getD b.toNat 0

def unsubstitute (b : UInt8) : UInt8 := inverseSubstitution.getD b.toNat 0

def double (b : UInt8) : UInt8 := b <<< 1 ^^^ (if b < 128 then 0 else 0x1B)

namespace Column

def add (s t : Column) : Column := ⟨s.a ^^^ t.a, s.b ^^^ t.b, s.c ^^^ t.c, s.d ^^^ t.d⟩

def substitute (s : Column) : Column :=
  ⟨Aes.substitute s.a, Aes.substitute s.b, Aes.substitute s.c, Aes.substitute s.d⟩

def unsubstitute (s : Column) : Column :=
  ⟨Aes.unsubstitute s.a, Aes.unsubstitute s.b, Aes.unsubstitute s.c, Aes.unsubstitute s.d⟩

/-- Multiplication by the circulant of 2, 3, 1, 1. -/
def mix (s : Column) : Column :=
  ⟨double s.a ^^^ double s.b ^^^ s.b ^^^ s.c ^^^ s.d,
   s.a ^^^ double s.b ^^^ double s.c ^^^ s.c ^^^ s.d,
   s.a ^^^ s.b ^^^ double s.c ^^^ double s.d ^^^ s.d,
   double s.a ^^^ s.a ^^^ s.b ^^^ s.c ^^^ double s.d⟩

/-- Adds four times the sum of every second byte, which takes the circulant of 14, 11, 13, 9 to
that of 2, 3, 1, 1. -/
def premix (s : Column) : Column :=
  let even := double (double (s.a ^^^ s.c))
  let odd := double (double (s.b ^^^ s.d))
  ⟨s.a ^^^ even, s.b ^^^ odd, s.c ^^^ even, s.d ^^^ odd⟩

def unmix (s : Column) : Column := s.premix.mix

end Column

namespace Block

def add (s t : Block) : Block := ⟨s.w.add t.w, s.x.add t.x, s.y.add t.y, s.z.add t.z⟩

def substitute (s : Block) : Block :=
  ⟨s.w.substitute, s.x.substitute, s.y.substitute, s.z.substitute⟩

def unsubstitute (s : Block) : Block :=
  ⟨s.w.unsubstitute, s.x.unsubstitute, s.y.unsubstitute, s.z.unsubstitute⟩

def shift (s : Block) : Block :=
  ⟨⟨s.w.a, s.x.b, s.y.c, s.z.d⟩, ⟨s.x.a, s.y.b, s.z.c, s.w.d⟩,
   ⟨s.y.a, s.z.b, s.w.c, s.x.d⟩, ⟨s.z.a, s.w.b, s.x.c, s.y.d⟩⟩

def unshift (s : Block) : Block :=
  ⟨⟨s.w.a, s.z.b, s.y.c, s.x.d⟩, ⟨s.x.a, s.w.b, s.z.c, s.y.d⟩,
   ⟨s.y.a, s.x.b, s.w.c, s.z.d⟩, ⟨s.z.a, s.y.b, s.x.c, s.w.d⟩⟩

def mix (s : Block) : Block := ⟨s.w.mix, s.x.mix, s.y.mix, s.z.mix⟩

def unmix (s : Block) : Block := ⟨s.w.unmix, s.x.unmix, s.y.unmix, s.z.unmix⟩

def ofBytes : Bytes → Block
  | [a, b, c, d, e, f, g, h, i, j, k, l, m, n, o, p] =>
    ⟨⟨a, b, c, d⟩, ⟨e, f, g, h⟩, ⟨i, j, k, l⟩, ⟨m, n, o, p⟩⟩
  | _ => ⟨⟨0, 0, 0, 0⟩, ⟨0, 0, 0, 0⟩, ⟨0, 0, 0, 0⟩, ⟨0, 0, 0, 0⟩⟩

def toBytes (s : Block) : Bytes :=
  [s.w.a, s.w.b, s.w.c, s.w.d, s.x.a, s.x.b, s.x.c, s.x.d,
   s.y.a, s.y.b, s.y.c, s.y.d, s.z.a, s.z.b, s.z.c, s.z.d]

end Block

def encryptRounds : List Block → Block → Block
  | [], s => s
  | [last], s => s.substitute.shift.add last
  | key :: keys, s => encryptRounds keys (s.substitute.shift.mix.add key)

def encryptBlock : List Block → Block → Block
  | [], s => s
  | key :: keys, s => encryptRounds keys (s.add key)

def decryptRounds : List Block → Block → Block
  | [], s => s
  | [last], s => (s.add last).unshift.unsubstitute
  | key :: keys, s => ((decryptRounds keys s).add key).unmix.unshift.unsubstitute

def decryptBlock : List Block → Block → Block
  | [], s => s
  | key :: keys, s => (decryptRounds keys s).add key

def columns : Bytes → List Column
  | a :: b :: c :: d :: rest => ⟨a, b, c, d⟩ :: columns rest
  | _ => []

/-- Continues a key schedule for keys of `period` columns by `count` columns; the columns so far
are in `schedule`, and `constant` is what the next whole period adds. -/
def extend (period : Nat) : Nat → UInt8 → Array Column → Array Column
  | 0, _, schedule => schedule
  | count + 1, constant, schedule =>
    let i := schedule.size
    let zero : Column := ⟨0, 0, 0, 0⟩
    let last := schedule.getD (i - 1) zero
    let base := schedule.getD (i - period) zero
    if i % period = 0 then
      let turned : Column := Column.substitute ⟨last.b, last.c, last.d, last.a⟩
      extend period count (double constant)
        (schedule.push ((base.add turned).add ⟨constant, 0, 0, 0⟩))
    else if 6 < period ∧ i % period = 4 then
      extend period count constant (schedule.push (base.add last.substitute))
    else extend period count constant (schedule.push (base.add last))

def blocks : List Column → List Block
  | w :: x :: y :: z :: rest => ⟨w, x, y, z⟩ :: blocks rest
  | _ => []

def roundKeys (key : Bytes) : List Block :=
  let start := columns key
  let period := start.length
  blocks (extend period (4 * (period + 7) - period) 1 start.toArray).toList

end SshKeys.Aes
