import SshKeys.Hash.Md5
import SshKeys.Hash.Sha1
import SshKeys.Hash.Sha256
import SshKeys.Hash.Sha512
/-!
# Hash functions by name

The hash functions with their digest and block sizes, and the keyed construction HMAC.
-/
namespace SshKeys

inductive Hash
  | md5
  | sha1
  | sha256
  | sha384
  | sha512
  deriving DecidableEq, Repr

namespace Hash

def all : List Hash := [md5, sha1, sha256, sha384, sha512]

def name : Hash → String
  | md5 => "md5"
  | sha1 => "sha1"
  | sha256 => "sha256"
  | sha384 => "sha384"
  | sha512 => "sha512"

def ofName? (s : String) : Option Hash := all.find? (·.name == s)

def digest : Hash → Bytes → Bytes
  | md5 => Md5.digest
  | sha1 => Sha1.digest
  | sha256 => Sha256.digest
  | sha384 => Sha512.digestShort
  | sha512 => Sha512.digest

def digestSize : Hash → Nat
  | md5 => 16
  | sha1 => 20
  | sha256 => 32
  | sha384 => 48
  | sha512 => 64

def blockSize : Hash → Nat
  | md5 | sha1 | sha256 => 64
  | sha384 | sha512 => 128

/-- The key as one block: hashed if it is longer, then filled up with zeros. -/
def hmacBlock (hash : Hash) (key : Bytes) : Bytes :=
  let short := if hash.blockSize < key.length then hash.digest key else key
  short ++ Bytes.zeros (hash.blockSize - short.length)

def hmacWith (hash : Hash) (block message : Bytes) : Bytes :=
  let inner := hash.digest (block.map (· ^^^ 0x36) ++ message)
  hash.digest (block.map (· ^^^ 0x5C) ++ inner)

def hmac (hash : Hash) (key message : Bytes) : Bytes :=
  hmacWith hash (hmacBlock hash key) message

end Hash
end SshKeys
