import SshKeys.Cipher.Mode
import SshKeys.Cipher.Padding
/-!
# Chained ciphers with padding

Opening a text fails if it is not a whole number of blocks or does not end in proper padding, which
is how most wrong keys show.
-/
namespace SshKeys

namespace BlockCipher

def sealText (c : BlockCipher) (iv text : Bytes) : Bytes :=
  c.cbcEncrypt iv (Padding.add c.blockSize text)

def openText? (c : BlockCipher) (iv text : Bytes) : Option Bytes :=
  if text.length % c.blockSize = 0 then Padding.remove? c.blockSize (c.cbcDecrypt iv text) else none

end BlockCipher

inductive ChainedCipher
  | aes128
  | aes192
  | aes256
  | tripleDes
  deriving DecidableEq, Repr

namespace ChainedCipher

def all : List ChainedCipher := [aes128, aes192, aes256, tripleDes]

def keySize : ChainedCipher → Nat
  | aes128 => 16
  | aes192 => 24
  | aes256 => 32
  | tripleDes => 24

def algorithm : ChainedCipher → BlockAlgorithm
  | aes128 | aes192 | aes256 => .aes
  | tripleDes => .tripleDes

def blockSize (c : ChainedCipher) : Nat := c.algorithm.blockSize

def under (c : ChainedCipher) (key : Bytes) : BlockCipher := c.algorithm.under key

end ChainedCipher
end SshKeys
