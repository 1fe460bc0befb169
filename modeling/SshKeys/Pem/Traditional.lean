import SshKeys.Cipher.Chained
import SshKeys.Journal
import SshKeys.Pem.Block
import SshKeys.Stretch.Password
/-!
# Encryption by PEM headers

One header tells that the body is encrypted, another one the cipher and the initial vector. The key
is a chain of MD5 digests over the passphrase and the first bytes of the initial vector.
-/
namespace SshKeys

namespace ChainedCipher

def headerName : ChainedCipher → String
  | aes128 => "AES-128-CBC"
  | aes192 => "AES-192-CBC"
  | aes256 => "AES-256-CBC"
  | tripleDes => "DES-EDE3-CBC"

def ofHeaderName (name : Option String) : Except Error ChainedCipher :=
  match name.bind fun s => all.find? (·.headerName == s) with
  | some cipher => .ok cipher
  | none => .error (.unknownPemCipher name)

end ChainedCipher

namespace PemBlock

def encryptedMark : String := "4,ENCRYPTED"

def cipherHeader (b : PemBlock) : Except Error (ChainedCipher × String) :=
  match (b.header "dek-info").map fun info => Text.splitOn ',' info.toList with
  | some [name, iv] => do
    return (← ChainedCipher.ofHeaderName (some (String.ofList name)), String.ofList iv)
  | _ => .error .dekInfoUnreadable

def readIv (cipher : ChainedCipher) (iv : String) : Except Error Bytes :=
  match Hex.decode? (Text.trim iv.toList) with
  | none => .error (.dekInfoHex iv)
  | some bs =>
    if bs.length = cipher.blockSize then .ok bs
    else .error (.dekInfoSize cipher.headerName cipher.blockSize)

/-- The cipher and the initial vector that the headers give, for a body of whole blocks. -/
def checkHeaders (b : PemBlock) (procType : String) (passphrase : Datum) :
    Except Error (ChainedCipher × Bytes) := do
  if procType ≠ encryptedMark then throw (.procType procType)
  let (cipher, iv) ← b.cipherHeader
  if passphrase.isEmpty then throw .passphraseRequired
  let iv ← readIv cipher iv
  if b.body.isEmpty ∨ b.body.length % cipher.blockSize ≠ 0 then throw .pemUnaligned
  return (cipher, iv)

def cipherFor (cipher : ChainedCipher) (iv : Bytes) (passphrase : Datum) :
    Except Error BlockCipher := do
  return cipher.under (Stretch.digestChain Md5.digest iv (← passphrase.toBytes) cipher.keySize)

/-- Decrypts the body, where `procType` is the header that tells of its encryption. -/
def decrypt (b : PemBlock) (procType : String) (passphrase : Datum) : Action Bytes := do
  let (cipher, iv) ← Action.ofExcept (b.checkHeaders procType passphrase)
  Journal.log .debug .pem s!"Decrypting traditional PEM key with {cipher.headerName}"
  match (← Action.ofExcept (cipherFor cipher iv passphrase)).openText? iv b.body with
  | some plain => return plain
  | none => throw .badPassword

def renderEncrypted (label : String) (body : Bytes) (passphrase : Datum)
    (cipherName : Option String) : Action String := do
  let cipher ← Action.ofExcept (ChainedCipher.ofHeaderName cipherName)
  let iv ← Journal.draw cipher.blockSize
  let encrypted := (← Action.ofExcept (cipherFor cipher iv passphrase)).sealText iv body
  return render label
    ["Proc-Type: " ++ encryptedMark,
     "DEK-Info: " ++ cipher.headerName ++ "," ++ Hex.encodeUpper iv, ""]
    encrypted

end PemBlock
end SshKeys
