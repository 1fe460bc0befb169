import SshKeys.Hash.Block
/-!
# DES and its threefold form

A block of two words goes through an initial permutation, sixteen Feistel rounds and the inverse
permutation; the threefold form encrypts, decrypts and encrypts with three keys. Both permutations
are made of bit exchanges, each of which undoes itself.
-/
namespace SshKeys.Des

structure Pair where
  left : UInt32
  right : UInt32
  deriving DecidableEq, Repr

/-- Exchanges the bits of `right` under `mask` with those of `left` that lie `shift` places above. -/
def exchange (shift mask : UInt32) (left right : UInt32) : Pair :=
  let bits := (left >>> shift ^^^ right) &&& mask
  ⟨left ^^^ bits <<< shift, right ^^^ bits⟩

def exchangeRight (shift mask : UInt32) (p : Pair) : Pair := exchange shift mask p.left p.right

def exchangeLeft (shift mask : UInt32) (p : Pair) : Pair :=
  let q := exchange shift mask p.right p.left
  ⟨q.right, q.left⟩

def initial (p : Pair) : Pair :=
  exchangeRight 1 0x55555555 (exchangeLeft 8 0x00FF00FF (exchangeLeft 2 0x33333333
    (exchangeRight 16 0x0000FFFF (exchangeRight 4 0x0F0F0F0F p))))

def final (p : Pair) : Pair :=
  exchangeRight 4 0x0F0F0F0F (exchangeRight 16 0x0000FFFF (exchangeLeft 2 0x33333333
    (exchangeLeft 8 0x00FF00FF (exchangeRight 1 0x55555555 p))))

def boxes : Array (Array UInt32) := #[
  #[14, 4, 13, 1, 2, 15, 11, 8, 3, 10, 6, 12, 5, 9, 0, 7,
    0, 15, 7, 4, 14, 2, 13, 1, 10, 6, 12, 11, 9, 5, 3, 8,
    4, 1, 14, 8, 13, 6, 2, 11, 15, 12, 9, 7, 3, 10, 5, 0,
    15, 12, 8, 2, 4, 9, 1, 7, 5, 11, 3, 14, 10, 0, 6, 13],
  #[15, 1, 8, 14, 6, 11, 3, 4, 9, 7, 2, 13, 12, 0, 5, 10,
    3, 13, 4, 7, 15, 2, 8, 14, 12, 0, 1, 10, 6, 9, 11, 5,
    0, 14, 7, 11, 10, 4, 13, 1, 5, 8, 12, 6, 9, 3, 2, 15,
    13, 8, 10, 1, 3, 15, 4, 2, 11, 6, 7, 12, 0, 5, 14, 9],
  #[10, 0, 9, 14, 6, 3, 15, 5, 1, 13, 12, 7, 11, 4, 2, 8,
    13, 7, 0, 9, 3, 4, 6, 10, 2, 8, 5, 14, 12, 11, 15, 1,
    13, 6, 4, 9, 8, 15, 3, 0, 11, 1, 2, 12, 5, 10, 14, 7,
    1, 10, 13, 0, 6, 9, 8, 7, 4, 15, 14, 3, 11, 5, 2, 12],
  #[7, 13, 14, 3, 0, 6, 9, 10, 1, 2, 8, 5, 11, 12, 4, 15,
    13, 8, 11, 5, 6, 15, 0, 3, 4, 7, 2, 12, 1, 10, 14, 9,
    10, 6, 9, 0, 12, 11, 7, 13, 15, 1, 3, 14, 5, 2, 8, 4,
    3, 15, 0, 6, 10, 1, 13, 8, 9, 4, 5, 11, 12, 7, 2, 14],
  #[2, 12, 4, 1, 7, 10, 11, 6, 8, 5, 3, 15, 13, 0, 14, 9,
    14, 11, 2, 12, 4, 7, 13, 1, 5, 0, 15, 10, 3, 9, 8, 6,
    4, 2, 1, 11, 10, 13, 7, 8, 15, 9, 12, 5, 6, 3, 0, 14,
    11, 8, 12, 7, 1, 14, 2, 13, 6, 15, 0, 9, 10, 4, 5, 3],
  #[12, 1, 10, 15, 9, 2, 6, 8, 0, 13, 3, 4, 14, 7, 5, 11,
    10, 15, 4, 2, 7, 12, 9, 5, 6, 1, 13, 14, 0, 11, 3, 8,
    9, 14, 15, 5, 2, 8, 12, 3, 7, 0, 4, 10, 1, 13, 11, 6,
    4, 3, 2, 12, 9, 5, 15, 10, 11, 14, 1, 7, 6, 0, 8, 13],
  #[4, 11, 2, 14, 15, 0, 8, 13, 3, 12, 9, 7, 5, 10, 6, 1,
    13, 0, 11, 7, 4, 9, 1, 10, 14, 3, 5, 12, 2, 15, 8, 6,
    1, 4, 11, 13, 12, 3, 7, 14, 10, 15, 6, 8, 0, 5, 9, 2,
    6, 11, 13, 8, 1, 4, 10, 7, 9, 5, 0, 15, 14, 2, 3, 12],
  #[13, 2, 8, 4, 6, 15, 11, 1, 10, 9, 3, 14, 5, 0, 12, 7,
    1, 15, 13, 8, 10, 3, 7, 4, 12, 5, 6, 11, 0, 14, 9, 2,
    7, 11, 4, 1, 9, 12, 14, 2, 0, 6, 10, 13, 15, 3, 5, 8,
    2, 1, 14, 7, 4, 10, 8, 13, 15, 12, 9, 0, 3, 5, 6, 11]]

/-- Where the output bits of the boxes go; bits are counted from one, the highest first. -/
def boxOutput : List Nat :=
  [16, 7, 20, 21, 29, 12, 28, 17, 1, 15, 23, 26, 5, 18, 31, 10,
   2, 8, 24, 14, 32, 27, 3, 9, 19, 13, 30, 6, 22, 11, 4, 25]

/-- The bits of a `width` bit number at the given places, the highest place being number one. -/
def select (width : Nat) (places : List Nat) (n : Nat) : Nat :=
  places.foldl (fun acc place => 2 * acc + n / Nat.pow 2 (width - place) % 2) 0

/-- What box `i` gives for six input bits, already moved to its places in the word. The outer two
bits choose the row. -/
def boxEntry (i n : Nat) : UInt32 :=
  let row := n / 32 * 2 + n % 2
  let entry := (boxes.getD i #[]).getD (16 * row + n / 2 % 16) 0
  UInt32.ofNat (select 32 boxOutput (entry.toNat * Nat.pow 2 (28 - 4 * i)))

def boxTable : Array UInt32 :=
  ((List.range 8).flatMap fun i => (List.range 64).map (boxEntry i)).toArray

def boxed (i : Nat) (x : UInt32) : UInt32 := boxTable.getD (64 * i + (x &&& 63).toNat) 0

def rotate (x n : UInt32) : UInt32 := x <<< n ||| x >>> (32 - n)

structure RoundKey where
  k0 : UInt32
  k1 : UInt32
  k2 : UInt32
  k3 : UInt32
  k4 : UInt32
  k5 : UInt32
  k6 : UInt32
  k7 : UInt32
  deriving DecidableEq, Repr

/-- The round function: each box sees six neighbouring bits, mixed with its part of the key. -/
def mangle (k : RoundKey) (x : UInt32) : UInt32 :=
  boxed 0 (rotate x 5 ^^^ k.k0) ||| boxed 1 (rotate x 9 ^^^ k.k1) |||
  boxed 2 (rotate x 13 ^^^ k.k2) ||| boxed 3 (rotate x 17 ^^^ k.k3) |||
  boxed 4 (rotate x 21 ^^^ k.k4) ||| boxed 5 (rotate x 25 ^^^ k.k5) |||
  boxed 6 (rotate x 29 ^^^ k.k6) ||| boxed 7 (rotate x 1 ^^^ k.k7)

def round (k : RoundKey) (p : Pair) : Pair := ⟨p.right, p.left ^^^ mangle k p.right⟩

def swap (p : Pair) : Pair := ⟨p.right, p.left⟩

/-- The rounds of a key schedule; the reversed schedule undoes them up to a swap on both sides. -/
def rounds (keys : List RoundKey) (p : Pair) : Pair := swap (keys.foldl (fun p k => round k p) p)

def keySelection : List Nat :=
  [57, 49, 41, 33, 25, 17, 9, 1, 58, 50, 42, 34, 26, 18, 10, 2, 59, 51, 43, 35, 27, 19, 11, 3, 60,
   52, 44, 36, 63, 55, 47, 39, 31, 23, 15, 7, 62, 54, 46, 38, 30, 22, 14, 6, 61, 53, 45, 37, 29, 21,
   13, 5, 28, 20, 12, 4]

def roundSelection : List Nat :=
  [14, 17, 11, 24, 1, 5, 3, 28, 15, 6, 21, 10, 23, 19, 12, 4, 26, 8, 16, 7, 27, 20, 13, 2, 41, 52,
   31, 37, 47, 55, 30, 40, 51, 45, 33, 48, 44, 49, 39, 56, 34, 53, 46, 42, 50, 36, 29, 32]

/-- How far both key halves have been turned by each round. -/
def turns : List Nat := [1, 2, 4, 6, 8, 10, 12, 14, 15, 17, 19, 21, 23, 25, 27, 28]

def turnHalf (n count : Nat) : Nat :=
  n * Nat.pow 2 count % Nat.pow 2 28 + n / Nat.pow 2 (28 - count)

def roundKey (key : Nat) (turn : Nat) : RoundKey :=
  let kept := select 64 keySelection key
  let turned :=
    turnHalf (kept / Nat.pow 2 28) turn * Nat.pow 2 28 + turnHalf (kept % Nat.pow 2 28) turn
  let bits := select 56 roundSelection turned
  let part (i : Nat) : UInt32 := UInt32.ofNat (bits / Nat.pow 2 (42 - 6 * i) % 64)
  ⟨part 0, part 1, part 2, part 3, part 4, part 5, part 6, part 7⟩

def schedule (key : Bytes) : List RoundKey := turns.map (roundKey (Bytes.toNat key))

structure TripleKey where
  first : List RoundKey
  second : List RoundKey
  third : List RoundKey
  deriving DecidableEq, Repr

def TripleKey.ofBytes (key : Bytes) : TripleKey :=
  ⟨schedule (key.take 8), schedule ((key.drop 8).take 8), schedule (key.drop 16)⟩

def encryptPair (k : TripleKey) (p : Pair) : Pair :=
  final (rounds k.third (rounds k.second.reverse (rounds k.first (initial p))))

def decryptPair (k : TripleKey) (p : Pair) : Pair :=
  final (rounds k.first.reverse (rounds k.second (rounds k.third.reverse (initial p))))

def Pair.ofBytes : Bytes → Pair
  | [a, b, c, d, e, f, g, h] =>
    ⟨a.toUInt32 <<< 24 ||| b.toUInt32 <<< 16 ||| c.toUInt32 <<< 8 ||| d.toUInt32,
     e.toUInt32 <<< 24 ||| f.toUInt32 <<< 16 ||| g.toUInt32 <<< 8 ||| h.toUInt32⟩
  | _ => ⟨0, 0⟩

def Pair.toBytes (p : Pair) : Bytes := Block.bytesBig p.left ++ Block.bytesBig p.right

end SshKeys.Des
