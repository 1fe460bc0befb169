import SshKeys.Hash.Block
/-!
# SHA-1

Five 32-bit words of state, folded over blocks of sixteen big-endian words.
-/
namespace SshKeys.Sha1

structure State where
  a : UInt32
  b : UInt32
  c : UInt32
  d : UInt32
  e : UInt32
  deriving DecidableEq, Repr

def initial : State := ⟨0x67452301, 0xEFCDAB89, 0x98BADCFE, 0x10325476, 0xC3D2E1F0⟩

def rotate (x n : UInt32) : UInt32 := x <<< n ||| x >>> (32 - n)

/-- Appends `count` words to a message schedule, each from four earlier ones. -/
def extend : Nat → Array UInt32 → Array UInt32
  | 0, w => w
  | count + 1, w =>
    let i := w.size
    let x := w.getD (i - 3) 0 ^^^ w.getD (i - 8) 0 ^^^ w.getD (i - 14) 0 ^^^ w.getD (i - 16) 0
    extend count (w.push (rotate x 1))

def mix (i : Nat) (b c d : UInt32) : UInt32 :=
  match i / 20 with
  | 0 => ((b &&& c) ||| (~~~b &&& d)) + 0x5A827999
  | 1 => (b ^^^ c ^^^ d) + 0x6ED9EBA1
  | 2 => ((b &&& c) ||| (b &&& d) ||| (c &&& d)) + 0x8F1BBCDC
  | _ => (b ^^^ c ^^^ d) + 0xCA62C1D6

def rounds (w : Array UInt32) : Nat → UInt32 → UInt32 → UInt32 → UInt32 → UInt32 → State
  | 0, a, b, c, d, e => ⟨a, b, c, d, e⟩
  | count + 1, a, b, c, d, e =>
    let i := 79 - count
    rounds w count (rotate a 5 + mix i b c d + e + w.getD i 0) a (rotate b 30) c d

def compress (s : State) (block : Array UInt32) : State :=
  let t := rounds (extend 64 block) 80 s.a s.b s.c s.d s.e
  ⟨s.a + t.a, s.b + t.b, s.c + t.c, s.d + t.d, s.e + t.e⟩

def digest (message : Bytes) : Bytes :=
  let padded := Block.padded 64 8 false message
  let final := (Bytes.chunks 64 padded).foldl (fun s bs => compress s (Block.wordsBig bs)) initial
  [final.a, final.b, final.c, final.d, final.e].flatMap Block.bytesBig

end SshKeys.Sha1
