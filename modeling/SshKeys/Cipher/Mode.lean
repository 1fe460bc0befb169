import SshKeys.Cipher.Aes
import SshKeys.Cipher.Des
/-!
# Modes of block ciphers

Block ciphers under a fixed key, and the two ways of running one over a longer text: chaining each
block with the one before it, and adding the encryptions of a counter.
-/
namespace SshKeys

structure BlockCipher where
  blockSize : Nat
  encrypt : Bytes → Bytes
  decrypt : Bytes → Bytes

namespace BlockCipher

def aes (key : Bytes) : BlockCipher :=
  let keys := Aes.roundKeys key
  ⟨16, fun b => (Aes.encryptBlock keys (Aes.Block.ofBytes b)).toBytes,
    fun b => (Aes.decryptBlock keys (Aes.Block.ofBytes b)).toBytes⟩

def tripleDes (key : Bytes) : BlockCipher :=
  let keys := Des.TripleKey.ofBytes key
  ⟨8, fun b => (Des.encryptPair keys (Des.Pair.ofBytes b)).toBytes,
    fun b => (Des.decryptPair keys (Des.Pair.ofBytes b)).toBytes⟩

def des (key : Bytes) : BlockCipher := tripleDes (key ++ key ++ key)

/-- Encrypts blocks, each added to the encryption of the one before; `done` is last first. -/
def chainEncrypt (c : BlockCipher) : Bytes → List Bytes → List Bytes → Bytes
  | _, done, [] => done.reverse.flatten
  | previous, done, block :: rest =>
    let out := c.encrypt (Bytes.xor block previous)
    chainEncrypt c out (out :: done) rest

def chainDecrypt (c : BlockCipher) : Bytes → List Bytes → List Bytes → Bytes
  | _, done, [] => done.reverse.flatten
  | previous, done, block :: rest =>
    chainDecrypt c block (Bytes.xor (c.decrypt block) previous :: done) rest

def cbcEncrypt (c : BlockCipher) (iv text : Bytes) : Bytes :=
  chainEncrypt c iv [] (Bytes.chunks c.blockSize text)

def cbcDecrypt (c : BlockCipher) (iv text : Bytes) : Bytes :=
  chainDecrypt c iv [] (Bytes.chunks c.blockSize text)

/-- Adds the encryptions of a counter that runs through the numbers of one block. -/
def counterAdd (c : BlockCipher) : Nat → List Bytes → List Bytes → Bytes
  | _, done, [] => done.reverse.flatten
  | counter, done, block :: rest =>
    let stream := c.encrypt (Bytes.ofNat c.blockSize counter)
    counterAdd c ((counter + 1) % Nat.pow 256 c.blockSize) (Bytes.xor block stream :: done) rest

def ctr (c : BlockCipher) (iv text : Bytes) : Bytes :=
  counterAdd c (Bytes.toNat iv) [] (Bytes.chunks c.blockSize text)

end BlockCipher

inductive BlockAlgorithm
  | aes
  | tripleDes
  deriving DecidableEq, Repr

namespace BlockAlgorithm

def name : BlockAlgorithm → String
  | aes => "AES"
  | tripleDes => "3DES"

def blockSize : BlockAlgorithm → Nat
  | aes => 16
  | tripleDes => 8

def under : BlockAlgorithm → Bytes → BlockCipher
  | aes => .aes
  | tripleDes => .tripleDes

end BlockAlgorithm

inductive BlockMode
  | cbc
  | ctr
  deriving DecidableEq, Repr

namespace BlockMode

def name : BlockMode → String
  | cbc => "CBC"
  | ctr => "CTR"

def encrypt : BlockMode → BlockCipher → Bytes → Bytes → Bytes
  | cbc => BlockCipher.cbcEncrypt
  | ctr => BlockCipher.ctr

def decrypt : BlockMode → BlockCipher → Bytes → Bytes → Bytes
  | cbc => BlockCipher.cbcDecrypt
  | ctr => BlockCipher.ctr

end BlockMode
end SshKeys
