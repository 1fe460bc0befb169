import SshKeys.Cipher.Mode
import SshKeys.Stretch.Bcrypt
import SshKeys.Packet
import SshKeys.Journal
/-!
# Cipher suites of key files

The ciphers that key files name, the parameters by which a passphrase is stretched into key and
initial vector, and encryption and decryption of a private section with both.
-/
namespace SshKeys

/-- A cipher by name: its sizes, and what encrypts. One name stands for no encryption. -/
structure CipherSuite where
  name : String
  keySize : Nat
  ivSize : Nat
  blockSize : Nat
  scheme : Option (BlockAlgorithm × BlockMode)
  deriving DecidableEq, Repr

namespace CipherSuite

def none : CipherSuite := ⟨"none", 0, 0, 8, .none⟩

def block (name : String) (keySize : Nat) (algorithm : BlockAlgorithm) (mode : BlockMode) :
    CipherSuite :=
  ⟨name, keySize, algorithm.blockSize, algorithm.blockSize, some (algorithm, mode)⟩

def all : List CipherSuite :=
  [none, block "3des-cbc" 24 .tripleDes .cbc,
   block "aes128-cbc" 16 .aes .cbc, block "aes128-ctr" 16 .aes .ctr,
   block "aes192-cbc" 24 .aes .cbc, block "aes192-ctr" 24 .aes .ctr,
   block "aes256-cbc" 32 .aes .cbc, block "aes256-ctr" 32 .aes .ctr,
   block "rijndael-cbc@lysator.liu.se" 32 .aes .cbc]

def ofName? (name : String) : Option CipherSuite := all.find? (·.name == name)

def ofName (name : Option String) : Except Error CipherSuite :=
  match name.bind ofName? with
  | some suite => .ok suite
  | .none => .error (.unknownCipher name)

def isNone (suite : CipherSuite) : Bool := suite.scheme.isNone

def encryptWith (suite : CipherSuite) (key iv text : Bytes) : Bytes :=
  match suite.scheme with
  | .none => text
  | some (algorithm, mode) => mode.encrypt (algorithm.under key) iv text

def decryptWith (suite : CipherSuite) (key iv text : Bytes) : Bytes :=
  match suite.scheme with
  | .none => text
  | some (algorithm, mode) => mode.decrypt (algorithm.under key) iv text

end CipherSuite

structure Stretching where
  name : String
  salt : Bytes
  rounds : Int
  deriving DecidableEq, Repr

namespace Stretching

def none : Stretching := ⟨"none", [], 0⟩

def defaultRounds : Int := 16

def saltSize : Nat := 16

def fresh (rounds : Int) : Action Stretching := do
  if rounds < 1 then throw (.roundsTooFew rounds)
  return ⟨"bcrypt", ← Journal.draw saltSize, rounds⟩

/-- Reads salt and rounds, to the end of the packet. -/
def readOptions (name : String) : Reader Stretching := do
  let salt ← Packet.readString
  let rounds ← Packet.readUInt32
  if (← get).remaining ≠ 0 then throw .optionsTrailing
  if salt.isEmpty then throw .saltEmpty
  if rounds < 1 then throw .roundsZero
  return ⟨name, salt, rounds⟩

def ofOptions (name : String) (options : Bytes) : Except Error Stretching :=
  if name = "none" then
    if options.isEmpty then .ok none else .error .optionsWithoutStretching
  else if name = "bcrypt" then Packet.parse (readOptions name) options
  else .error (.unknownStretching (some name))

/-- As `ofOptions`, for options of any form, and perhaps without a name. -/
def ofDatum (name : Option String) (options : Datum) : Except Error Stretching := do
  match name with
  | .none => throw (.unknownStretching .none)
  | some "none" => if options.isEmpty then return none else throw .optionsWithoutStretching
  | some "bcrypt" => ofOptions "bcrypt" (← Packet.contentOf options)
  | some other => throw (.unknownStretching (some other))

def roundsFit (s : Stretching) : Bool := 0 ≤ s.rounds && s.rounds < 4294967296

def options (s : Stretching) : Except Error Bytes :=
  if s.name = "none" then .ok []
  else if s.roundsFit then (· ++ Wire.uint32 s.rounds.toNat) <$> Wire.strings [s.salt]
  else .error (.misuse .width)

def derive (s : Stretching) (passphrase : Datum) (keySize ivSize : Nat) :
    Except Error (Bytes × Bytes) := do
  if s.name = "none" ∨ keySize + ivSize = 0 then return ([], [])
  let password ← passphrase.toBytes
  unless s.roundsFit do throw (.misuse .magnitude)
  match Bcrypt.stretch? password s.salt s.rounds (keySize + ivSize) with
  | some bs => return (bs.take keySize, bs.drop keySize)
  | .none => throw (.misuse .value)

/-- As `derive`, for the sizes of a cipher; a key of another size is refused. -/
def deriveFor (s : Stretching) (suite : CipherSuite) (passphrase : Datum) :
    Except Error (Bytes × Bytes) := do
  let (key, iv) ← s.derive passphrase suite.keySize suite.ivSize
  if key.length ≠ suite.keySize ∨ iv.length ≠ suite.ivSize then throw (.misuse .value)
  return (key, iv)

end Stretching

namespace CipherSuite

def checkAligned (suite : CipherSuite) (text : Bytes) : Except Error Unit :=
  if text.length % suite.blockSize = 0 then .ok () else .error (.unaligned text.length suite.name)

def logText (action : String) (suite : CipherSuite) (s : Stretching) (size : Nat) : String :=
  s!"{action} {size} bytes with {suite.name}, {s.name} rounds={s.rounds}"

/-- Decrypts a private section. Without encryption the passphrase does not matter. -/
def decrypt (suite : CipherSuite) (s : Stretching) (passphrase : Datum) (text : Bytes) :
    Action Bytes := do
  Action.ofExcept (suite.checkAligned text)
  if suite.isNone then return text
  if passphrase.isEmpty then throw .passphraseRequired
  Journal.log .debug .cipher (logText "Decrypting" suite s text.length)
  let (key, iv) ← Action.ofExcept (s.deriveFor suite passphrase)
  return suite.decryptWith key iv text

def encrypt (suite : CipherSuite) (s : Stretching) (passphrase : Datum) (text : Bytes) :
    Action Bytes := do
  Action.ofExcept (suite.checkAligned text)
  if suite.isNone then return text
  if passphrase.isEmpty then throw (.passphraseMissing suite.name)
  Journal.log .debug .cipher (logText "Encrypting" suite s text.length)
  let (key, iv) ← Action.ofExcept (s.deriveFor suite passphrase)
  return suite.encryptWith key iv text

end CipherSuite
end SshKeys
