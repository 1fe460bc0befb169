import SshKeys.Cipher.Chained
import SshKeys.Der.PrivateKey
import SshKeys.Journal
import SshKeys.Stretch.Password
import SshKeys.Text.Utf8
/-!
# Private keys in DER under a password

An algorithm tells how the password is stretched and which cipher is used; the encrypted octets
follow it.
-/
namespace SshKeys.Der

namespace Identifier

def pbes2 : List Nat := [1, 2, 840, 113549, 1, 5, 13]

def pbkdf2 : List Nat := [1, 2, 840, 113549, 1, 5, 12]

def scrypt : List Nat := [1, 3, 6, 1, 4, 1, 11591, 4, 11]

def md5Des : List Nat := [1, 2, 840, 113549, 1, 5, 3]

def sha1TripleDes : List Nat := [1, 2, 840, 113549, 1, 12, 1, 3]

def keyedHash : Hash → List Nat
  | .md5 => [1, 2, 840, 113549, 2, 6]
  | .sha1 => [1, 2, 840, 113549, 2, 7]
  | .sha256 => [1, 2, 840, 113549, 2, 9]
  | .sha384 => [1, 2, 840, 113549, 2, 10]
  | .sha512 => [1, 2, 840, 113549, 2, 11]

def cipher : ChainedCipher → List Nat
  | .aes128 => [2, 16, 840, 1, 101, 3, 4, 1, 2]
  | .aes192 => [2, 16, 840, 1, 101, 3, 4, 1, 22]
  | .aes256 => [2, 16, 840, 1, 101, 3, 4, 1, 42]
  | .tripleDes => [1, 2, 840, 113549, 3, 7]

end Identifier

inductive Stretcher
  | pbkdf2 (hash : Option Hash) (salt : Bytes) (rounds : Nat)
  | scrypt (salt : Bytes) (cost blockSize parallel : Nat)
  | unknown
  deriving DecidableEq, Repr

namespace Stretcher

def hashes : List Hash := [.sha1, .sha256, .sha384, .sha512]

def keyedHash (hash : Hash) : Element := .algorithm (Identifier.keyedHash hash) [.null]

def readHash? (e : Element) : Option (Option Hash) := do
  let (arcs, parameters) ← e.algorithm?
  match hashes.find? (Identifier.keyedHash · == arcs) with
  | some hash => if parameters.all Element.isNull then some (some hash) else none
  | none => some none

/-- What may follow salt and rounds: the size of the key, then the hash function, which is left out
for SHA-1. -/
def readChoice? : List Element → Option (Option Hash)
  | [] => some (some .sha1)
  | [e] => if e.natural?.isSome then some (some .sha1) else readListed? e
  | [size, e] => if size.natural?.isSome then readListed? e else none
  | _ => none
where
  readListed? (e : Element) : Option (Option Hash) :=
    if e = keyedHash .sha1 then none else readHash? e

def readPbkdf2? (e : Element) : Option Stretcher := do
  let salt :: rounds :: rest ← e.sequence? | none
  return pbkdf2 (← readChoice? rest) (← salt.octets?) (← rounds.natural?)

def readScrypt? (e : Element) : Option Stretcher := do
  let salt :: cost :: blockSize :: parallel :: rest ← e.sequence? | none
  if rest.length ≤ 1 ∧ rest.all (fun size => size.natural?.isSome) then
    return scrypt (← salt.octets?) (← cost.natural?) (← blockSize.natural?) (← parallel.natural?)
  else none

def ofElement? (e : Element) : Option Stretcher := do
  let (arcs, parameters) ← e.algorithm?
  if arcs = Identifier.pbkdf2 then readPbkdf2? (← parameters)
  else if arcs = Identifier.scrypt then readScrypt? (← parameters)
  else return unknown

/-- Whether scrypt can be carried out: the cost is a power of two beyond one, and the rest is within
its bounds. -/
def isWorkable (cost blockSize parallel : Nat) : Bool :=
  1 < cost && Nat.pow 2 cost.log2 == cost && 0 < blockSize && 0 < parallel &&
    blockSize * parallel < Nat.pow 2 30 && cost.log2 < 16 * blockSize

def derive (password : Bytes) (size : Nat) : Stretcher → Reading Bytes
  | pbkdf2 none _ _ => .error .unsupported
  | pbkdf2 (some hash) salt rounds => do
    Reading.require (0 < rounds)
    return Stretch.pbkdf2 hash password salt rounds size
  | scrypt salt cost blockSize parallel => do
    Reading.require (isWorkable cost blockSize parallel)
    return Stretch.scrypt password salt cost blockSize parallel size
  | unknown => .error .unsupported

end Stretcher

inductive Scheme
  | chained (stretcher : Stretcher) (cipher : ChainedCipher) (iv : Bytes)
  | md5Des (salt : Bytes) (rounds : Nat)
  | sha1TripleDes (salt : Bytes) (rounds : Nat)
  | unknown
  deriving DecidableEq, Repr

namespace Scheme

def readCipher? (e : Element) : Option (Option (ChainedCipher × Bytes)) := do
  let (arcs, parameters) ← e.algorithm?
  match ChainedCipher.all.find? (Identifier.cipher · == arcs) with
  | none => some none
  | some cipher =>
    let iv ← (← parameters).octets?
    if iv.length = cipher.blockSize then some (some (cipher, iv)) else none

def readChained? (e : Element) : Option Scheme := do
  let [stretcher, cipher] ← e.sequence? | none
  let stretcher ← Stretcher.ofElement? stretcher
  match ← readCipher? cipher with
  | some (cipher, iv) => return chained stretcher cipher iv
  | none => return unknown

def readSalted? (e : Element) : Option (Bytes × Nat) := do
  let [salt, rounds] ← e.sequence? | none
  return (← salt.octets?, ← rounds.natural?)

def ofElement? (e : Element) : Option Scheme := do
  let (arcs, parameters) ← e.algorithm?
  if arcs = Identifier.pbes2 then readChained? (← parameters)
  else if arcs = Identifier.md5Des then
    let (salt, rounds) ← readSalted? (← parameters)
    if salt.length = 8 then some (md5Des salt rounds) else none
  else if arcs = Identifier.sha1TripleDes then
    let (salt, rounds) ← readSalted? (← parameters)
    return sha1TripleDes salt rounds
  else return unknown

/-- A text in two-byte units with a closing zero. -/
def units (s : String) : Bytes :=
  s.toList.flatMap unitsOf ++ [0, 0]
where
  unitsOf (c : Char) : Bytes :=
    let n := c.toNat
    if n < 0x10000 then Bytes.ofNat 2 n
    else
      Bytes.ofNat 2 (0xD800 + (n - 0x10000) / 0x400) ++
        Bytes.ofNat 2 (0xDC00 + (n - 0x10000) % 0x400)

/-- Decrypts octets; refuses them as malformed if the password does not fit. -/
def decrypt (password text : Bytes) : Scheme → Reading Bytes
  | chained stretcher cipher iv => do
    let key ← stretcher.derive password cipher.keySize
    Reading.expect ((cipher.under key).openText? iv text)
  | md5Des salt rounds => do
    let material := Stretch.pbkdf1 .md5 password salt rounds
    Reading.expect ((BlockCipher.des (material.take 8)).openText? (material.drop 8) text)
  | sha1TripleDes salt rounds => do
    let units := units (← Reading.expect (Utf8.decode? password))
    let key := Stretch.pkcs12 .sha1 1 units salt rounds 24
    let iv := Stretch.pkcs12 .sha1 2 units salt rounds 8
    Reading.expect ((BlockCipher.tripleDes key).openText? iv text)
  | unknown => .error .unsupported

end Scheme

namespace PrivateKey

def readEncrypted (password : Option Bytes) (bs : Bytes) : Reading PrivateKey := do
  let e ← Reading.expect (Element.ofBytes? bs)
  let [scheme, text] ← Reading.expect e.sequence? | .error .malformed
  let scheme ← Reading.expect (Scheme.ofElement? scheme)
  let text ← Reading.expect text.octets?
  match password with
  | none => .error .passwordMissing
  | some password => readAny (← scheme.decrypt password text)

/-- Reads a private key, encrypted or not; a password has to be given exactly if it is needed. -/
def read (password : Option Bytes) (bs : Bytes) : Reading PrivateKey :=
  match readPlain bs with
  | .error .malformed => readEncrypted password bs
  | .error refusal => .error refusal
  | .ok key => if password.isSome then .error .passwordUnused else .ok key

def writtenRounds : Nat := 2048

def encrypted (password : Bytes) (key : Element) : Action Element := do
  let salt ← Journal.drawEndless 16
  let iv ← Journal.drawEndless 16
  let stretched := Stretch.pbkdf2 .sha256 password salt writtenRounds 32
  let scheme := Element.algorithm Identifier.pbes2
    [.sequence
      [.algorithm Identifier.pbkdf2
        [.sequence [.octets salt, .natural writtenRounds, Stretcher.keyedHash .sha256]],
       .algorithm (Identifier.cipher .aes256) [.octets iv]]]
  let text := (ChainedCipher.aes256.under stretched).sealText iv key.toBytes
  return .sequence [scheme, .octets text]

end PrivateKey
end SshKeys.Der
