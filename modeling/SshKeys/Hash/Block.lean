import SshKeys.Bytes
/-!
# Blocks and words of hash functions

What the hash functions share: padding a message to whole blocks with a one bit, zeros and the
length in bits, and reading and writing machine words.
-/
namespace SshKeys.Block

/-- The message with a one bit, the fewest zeros, and its length in bits in `lengthWidth` bytes, so
that it fills whole blocks of `blockSize` bytes. -/
def padded (blockSize lengthWidth : Nat) (little : Bool) (message : Bytes) : Bytes :=
  let size := message.length
  let fill := (blockSize - (size + 1 + lengthWidth) % blockSize) % blockSize
  let bits := if little then Bytes.ofNatLittle lengthWidth (8 * size)
    else Bytes.ofNat lengthWidth (8 * size)
  message ++ 0x80 :: (Bytes.zeros fill ++ bits)

/-- Appends the words that `bs` spells, four bytes each, the first byte highest. -/
def pushWordsBig (w : Array UInt32) : Bytes → Array UInt32
  | a :: b :: c :: d :: rest =>
    pushWordsBig (w.push (a.toUInt32 <<< 24 ||| b.toUInt32 <<< 16 ||| c.toUInt32 <<< 8 |||
      d.toUInt32)) rest
  | _ => w

def wordsBig (bs : Bytes) : Array UInt32 := pushWordsBig #[] bs

def pushWordsLittle (w : Array UInt32) : Bytes → Array UInt32
  | a :: b :: c :: d :: rest =>
    pushWordsLittle (w.push (d.toUInt32 <<< 24 ||| c.toUInt32 <<< 16 ||| b.toUInt32 <<< 8 |||
      a.toUInt32)) rest
  | _ => w

def wordsLittle (bs : Bytes) : Array UInt32 := pushWordsLittle #[] bs

def pushLongWordsBig (w : Array UInt64) : Bytes → Array UInt64
  | a :: b :: c :: d :: e :: f :: g :: h :: rest =>
    pushLongWordsBig (w.push (a.toUInt64 <<< 56 ||| b.toUInt64 <<< 48 ||| c.toUInt64 <<< 40 |||
      d.toUInt64 <<< 32 ||| e.toUInt64 <<< 24 ||| f.toUInt64 <<< 16 ||| g.toUInt64 <<< 8 |||
      h.toUInt64)) rest
  | _ => w

def longWordsBig (bs : Bytes) : Array UInt64 := pushLongWordsBig #[] bs

def bytesBig (x : UInt32) : Bytes :=
  [(x >>> 24).toUInt8, (x >>> 16).toUInt8, (x >>> 8).toUInt8, x.toUInt8]

def bytesLittle (x : UInt32) : Bytes :=
  [x.toUInt8, (x >>> 8).toUInt8, (x >>> 16).toUInt8, (x >>> 24).toUInt8]

def longBytesBig (x : UInt64) : Bytes :=
  bytesBig (x >>> 32).toUInt32 ++ bytesBig x.toUInt32

end SshKeys.Block
