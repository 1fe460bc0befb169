import SshKeys.Key.Class
/-!
# Kinds of PEM blocks

The kinds of PEM blocks that hold keys, with the labels they go by.
-/
namespace SshKeys

inductive PemKind
  | rsaPrivate
  | dsaPrivate
  | ecPrivate
  | anyPrivate
  | encryptedPrivate
  | anyPublic
  | rsaPublic
  deriving DecidableEq, Repr

namespace PemKind

def all : List PemKind :=
  [rsaPrivate, dsaPrivate, ecPrivate, anyPrivate, encryptedPrivate, anyPublic, rsaPublic]

def label : PemKind → String
  | rsaPrivate => "RSA PRIVATE KEY"
  | dsaPrivate => "DSA PRIVATE KEY"
  | ecPrivate => "EC PRIVATE KEY"
  | anyPrivate => "PRIVATE KEY"
  | encryptedPrivate => "ENCRYPTED PRIVATE KEY"
  | anyPublic => "PUBLIC KEY"
  | rsaPublic => "RSA PUBLIC KEY"

def ofLabel? (label : String) : Option PemKind := all.find? (·.label == label)

def keyClass? : PemKind → Option KeyClass
  | rsaPrivate | rsaPublic => some .rsa
  | dsaPrivate => some .dsa
  | ecPrivate => some .ecdsa
  | anyPrivate | encryptedPrivate | anyPublic => none

def isPublic : PemKind → Bool
  | anyPublic | rsaPublic => true
  | _ => false

def ofClass? : KeyClass → Option PemKind
  | .rsa => some rsaPrivate
  | .dsa => some dsaPrivate
  | .ecdsa => some ecPrivate
  | .ed25519 => none

def admits (kind : PemKind) (keyClass : KeyClass) : Bool := kind.keyClass?.all (· == keyClass)

end PemKind
end SshKeys
