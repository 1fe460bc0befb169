import SshKeys.Datum
import SshKeys.Hash
/-!
# Ways of stretching a password

The ways other than bcrypt: the digest chain of traditional PEM files, PBKDF1, PBKDF2, scrypt, and
the derivation of PKCS #12.
-/
namespace SshKeys.Stretch

/-- The first `size` bytes of a chain of digests, each of which covers the digest before it and a
seed; `last` is the digest before the first one. As a digest yields at least one byte, as many
steps as bytes are enough. -/
def chainFrom (digest : Bytes → Bytes) (seed : Bytes) : Nat → Nat → Bytes → Bytes
  | 0, _, _ => []
  | steps + 1, size, last =>
    if size = 0 then []
    else
      let next := digest (last ++ seed)
      next.take size ++ chainFrom digest seed steps (size - next.length) next

def digestChain (digest : Bytes → Bytes) (salt password : Bytes) (size : Nat) : Bytes :=
  chainFrom digest (password ++ salt.take 8) size size []

/-- As `digestChain`, for a password of any form, which is not looked at unless bytes are wanted. -/
def digestChainBy (digest : Bytes → Bytes) (salt : Bytes) (password : Datum) (size : Int) :
    Except Error Bytes := do
  if size ≤ 0 then return []
  return digestChain digest salt (← password.toBytes) size.toNat

def digestChainOf (hash : Hash) : Bytes → Datum → Int → Except Error Bytes :=
  digestChainBy hash.digest

def iterate {α : Type} (f : α → α) : Nat → α → α
  | 0, a => a
  | count + 1, a => iterate f count (f a)

def pbkdf1 (hash : Hash) (password salt : Bytes) (rounds : Nat) : Bytes :=
  iterate hash.digest (rounds - 1) (hash.digest (password ++ salt))

/-- The sum of `sum` and the next `count` values of the chain after `last`. -/
def pbkdf2Chain (hash : Hash) (block : Bytes) : Nat → Bytes → Bytes → Bytes
  | 0, _, sum => sum
  | count + 1, last, sum =>
    let next := hash.hmacWith block last
    pbkdf2Chain hash block count next (Bytes.xor sum next)

def pbkdf2 (hash : Hash) (password salt : Bytes) (rounds size : Nat) : Bytes :=
  let block := hash.hmacBlock password
  let part (number : Nat) : Bytes :=
    let first := hash.hmacWith block (salt ++ Bytes.ofNat 4 number)
    pbkdf2Chain hash block (rounds - 1) first first
  let count := (size + hash.digestSize - 1) / hash.digestSize
  ((List.range count).flatMap fun i => part (i + 1)).take size

def salsaQuarter (x : Array UInt32) (a b c d : Nat) : Array UInt32 :=
  let turn (w n : UInt32) : UInt32 := w <<< n ||| w >>> (32 - n)
  let entry (x : Array UInt32) (i : Nat) : UInt32 := x.getD i 0
  let x := x.setIfInBounds b (entry x b ^^^ turn (entry x a + entry x d) 7)
  let x := x.setIfInBounds c (entry x c ^^^ turn (entry x b + entry x a) 9)
  let x := x.setIfInBounds d (entry x d ^^^ turn (entry x c + entry x b) 13)
  x.setIfInBounds a (entry x a ^^^ turn (entry x d + entry x c) 18)

def salsaDouble (x : Array UInt32) : Array UInt32 :=
  let x := salsaQuarter x 0 4 8 12
  let x := salsaQuarter x 5 9 13 1
  let x := salsaQuarter x 10 14 2 6
  let x := salsaQuarter x 15 3 7 11
  let x := salsaQuarter x 0 1 2 3
  let x := salsaQuarter x 5 6 7 4
  let x := salsaQuarter x 10 11 8 9
  salsaQuarter x 15 12 13 14

def salsa (x : Array UInt32) : Array UInt32 :=
  Array.zipWith (· + ·) x (iterate salsaDouble 4 x)

abbrev Words := List (Array UInt32)

/-- Passes each block of sixteen words, added to the one before, through the core. -/
def mixBlocks : Array UInt32 → Words → Words
  | _, [] => []
  | last, block :: rest =>
    let out := salsa (Array.zipWith (· ^^^ ·) last block)
    out :: mixBlocks out rest

def evensThenOdds {α : Type} (xs : List α) : List α :=
  let numbered := xs.zipIdx
  (numbered.filter (·.2 % 2 == 0) ++ numbered.filter (·.2 % 2 == 1)).map (·.1)

def scryptMix (blocks : Words) : Words :=
  match blocks.getLast? with
  | none => []
  | some last => evensThenOdds (mixBlocks last blocks)

/-- The first `count` states from `state` on, and the state after them; `done` is last first. -/
def scryptTrail : Nat → List Words → Words → List Words × Words
  | 0, done, state => (done.reverse, state)
  | count + 1, done, state => scryptTrail count (state :: done) (scryptMix state)

/-- Adds, `count` times, an earlier state that the present one points to. -/
def scryptReturn (trail : Array Words) : Nat → Words → Words
  | 0, state => state
  | count + 1, state =>
    let index := ((state.getLast?.getD #[]).getD 0 0).toNat % trail.size
    let chosen := trail.getD index []
    scryptReturn trail count
      (scryptMix (List.zipWith (fun a b => Array.zipWith (· ^^^ ·) a b) state chosen))

def scryptFill (cost : Nat) (text : Bytes) : Bytes :=
  let state := (Bytes.chunks 64 text).map Block.wordsLittle
  let (trail, state) := scryptTrail cost [] state
  (scryptReturn trail.toArray cost state).flatMap fun w => w.toList.flatMap Block.bytesLittle

def scrypt (password salt : Bytes) (cost blockSize parallel size : Nat) : Bytes :=
  let wide := pbkdf2 .sha256 password salt 1 (128 * blockSize * parallel)
  let mixed := (Bytes.chunks (128 * blockSize) wide).flatMap (scryptFill cost)
  pbkdf2 .sha256 password mixed 1 size

/-- `bs` over and over until `size` bytes are reached; nothing comes of nothing. -/
def cycle (bs : Bytes) (size : Nat) : Bytes :=
  if bs.isEmpty then []
  else ((List.replicate ((size + bs.length - 1) / bs.length) bs).flatten).take size

/-- Adds one and `addend` to each piece of `size` bytes, keeping that many bytes. -/
def addToPieces (size addend : Nat) (bs : Bytes) : Bytes :=
  (Bytes.chunks size bs).flatMap fun piece =>
    Bytes.ofNat size ((Bytes.toNat piece + addend + 1) % Nat.pow 256 size)

def pkcs12Blocks (hash : Hash) (diversifier : Bytes) (rounds : Nat) : Nat → Bytes → Bytes
  | 0, _ => []
  | count + 1, input =>
    let digest := iterate hash.digest rounds (diversifier ++ input)
    let addend := Bytes.toNat (cycle digest hash.blockSize)
    digest ++ pkcs12Blocks hash diversifier rounds count (addToPieces hash.blockSize addend input)

/-- Key material for a purpose: 1 for a key, 2 for an initial vector. The password counts in
two-byte units with a closing zero. -/
def pkcs12 (hash : Hash) (purpose : UInt8) (units salt : Bytes) (rounds size : Nat) : Bytes :=
  let width := hash.blockSize
  let whole (bs : Bytes) : Bytes := cycle bs ((bs.length + width - 1) / width * width)
  let count := (size + hash.digestSize - 1) / hash.digestSize
  (pkcs12Blocks hash (List.replicate width purpose) rounds count (whole salt ++ whole units)).take
    size

end SshKeys.Stretch
