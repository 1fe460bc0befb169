import SshKeys.Hash
import SshKeys.Stretch.Blowfish
/-!
# The bcrypt key stretching

Each block of 32 bytes comes from a chain of bcrypt hashes over hashed passphrase and salt, summed
bitwise; the blocks are then dealt out over the key byte by byte, so that every part of the key
depends on every block.
-/
namespace SshKeys.Bcrypt

def plainWords : List UInt32 :=
  (Block.wordsBig [0x4F, 0x78, 0x79, 0x63, 0x68, 0x72, 0x6F, 0x6D, 0x61, 0x74, 0x69, 0x63, 0x42,
    0x6C, 0x6F, 0x77, 0x66, 0x69, 0x73, 0x68, 0x53, 0x77, 0x61, 0x74, 0x44, 0x79, 0x6E, 0x61, 0x6D,
    0x69, 0x74, 0x65]).toList

/-- Works salt and passphrase into the state in turn, `count` times. -/
def alternate (salt pass : Array UInt32) : Nat → Blowfish.State → Blowfish.State
  | 0, s => s
  | count + 1, s => alternate salt pass count (Blowfish.expand #[] pass (Blowfish.expand #[] salt s))

def repeated (s : Blowfish.State) : Nat → Blowfish.Pair → Blowfish.Pair
  | 0, p => p
  | count + 1, p => repeated s count (Blowfish.encrypt s p.left p.right)

/-- Encrypts a list of words by pairs, each pair 64 times. -/
def encryptPairs (s : Blowfish.State) : List UInt32 → List UInt32
  | left :: right :: rest =>
    let p := repeated s 64 ⟨left, right⟩
    p.left :: p.right :: encryptPairs s rest
  | rest => rest

def hash (pass salt : Bytes) : Bytes :=
  let pass := Block.wordsBig pass
  let salt := Block.wordsBig salt
  let state := alternate salt pass 64 (Blowfish.expand salt pass Blowfish.initial)
  (encryptPairs state plainWords).flatMap Block.bytesLittle

/-- The sum of `last` and the next `count` hashes of the chain. -/
def chain (pass : Bytes) : Nat → Bytes → Bytes → Bytes
  | 0, _, sum => sum
  | count + 1, last, sum =>
    let next := hash pass (Sha512.digest last)
    chain pass count next (Bytes.xor sum next)

def block (pass salt : Bytes) (rounds number : Nat) : Bytes :=
  let first := hash pass (Sha512.digest (salt ++ Bytes.ofNat 4 number))
  chain pass (rounds - 1) first first

/-- Bytes dealt out from the blocks: the first byte of each block, then the second of each, … -/
def dealt (size : Nat) (blocks : List Bytes) : Bytes :=
  ((List.range 32).flatMap fun i => blocks.map fun b => b.getD i 0).take size

/-- Stretches a passphrase to `size` bytes, for a passphrase and a salt that are not empty, at
least one round, and 1 to 512 bytes; nothing else is accepted. -/
def stretch? (passphrase salt : Bytes) (rounds : Int) (size : Nat) : Option Bytes :=
  if passphrase.isEmpty || salt.isEmpty || rounds < 1 || size = 0 || 512 < size then none
  else
    let pass := Sha512.digest passphrase
    let count := (size + 31) / 32
    let blocks := (List.range count).map fun i => block pass salt rounds.toNat (i + 1)
    some (dealt size blocks)

end SshKeys.Bcrypt
