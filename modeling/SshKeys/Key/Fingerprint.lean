import SshKeys.Key.Line
import SshKeys.Text.Lowercase
/-!
# Short names of keys

Digests of the public blob, and a description for reading.
-/
namespace SshKeys.Key

def digest (k : Key) (hash : Hash) : Bytes := hash.digest k.blob

def fingerprint (k : Key) (hashName : Option String) : Except Error Bytes :=
  match hashName with
  | none => .error (.misuse .attribute)
  | some name =>
    match Hash.ofName? (String.ofList (Text.lower name.toList)) with
    | some hash => .ok (k.digest hash)
    | none => .error (.fingerprintHash name)

def defaultFingerprint : Hash := .sha256

/-- The fingerprint as it is printed: the name of the hash function and the digest in base 64
without padding. -/
def fingerprintText (k : Key) : String :=
  let padded := Text.trim (Base64.encodeLines (k.digest .sha256))
  "SHA256:" ++ String.ofList (padded.reverse.dropWhile (· = '=')).reverse

def algorithmName (k : Key) : String :=
  match k.keyClass with
  | .rsa => "RSA"
  | .dsa => "DSS"
  | .ecdsa => "ECDSA"
  | .ed25519 => "ED25519"

def shown (k : Key) : String :=
  let comment := k.commentText
  let tail := if comment.isEmpty then ")" else ", comment=" ++ Quoted.text comment ++ ")"
  "PKey(alg=" ++ k.algorithmName ++ ", bits=" ++ toString k.bits ++ ", fp=" ++ k.fingerprintText ++
    tail

end SshKeys.Key
