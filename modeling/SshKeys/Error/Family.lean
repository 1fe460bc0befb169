/-!
# Families of failure

The families of key reading and writing form a tree under one general family, and every family but
the root has one parent. Mistakes of the caller, which say nothing about key material, stand outside
the tree.
-/
namespace SshKeys

inductive Family
  | general
  | format
  | truncated
  | lengthOverflow
  | unsupportedAlgorithm
  | unknownKeyType
  | unsupportedCipher
  | unsupportedKdf
  | unsupportedFormat
  | decryptionFailed
  | passwordRequired
  | paddingInvalid
  | invalidKeySize
  deriving DecidableEq, Repr

namespace Family

def all : List Family :=
  [general, format, truncated, lengthOverflow, unsupportedAlgorithm, unknownKeyType,
   unsupportedCipher, unsupportedKdf, unsupportedFormat, decryptionFailed, passwordRequired,
   paddingInvalid, invalidKeySize]

def name : Family → String
  | general => "SSHException"
  | format => "FormatError"
  | truncated => "TruncatedInput"
  | lengthOverflow => "LengthOverflow"
  | unsupportedAlgorithm => "UnsupportedAlgorithm"
  | unknownKeyType => "UnknownKeyType"
  | unsupportedCipher => "UnsupportedCipher"
  | unsupportedKdf => "UnsupportedKdf"
  | unsupportedFormat => "UnsupportedFormat"
  | decryptionFailed => "DecryptionFailed"
  | passwordRequired => "PasswordRequiredException"
  | paddingInvalid => "PaddingInvalid"
  | invalidKeySize => "InvalidKeySize"

def ofName? (s : String) : Option Family := all.find? fun family => family.name == s

def ancestors : Family → List Family
  | general => []
  | truncated => [format, general]
  | lengthOverflow => [format, general]
  | unknownKeyType => [unsupportedAlgorithm, general]
  | passwordRequired => [decryptionFailed, general]
  | _ => [general]

def isWithin (family other : Family) : Bool := family == other || family.ancestors.contains other

end Family

/-- Mistakes of the caller: a value of a wrong type, one out of range or of no use, bytes that are no
text, a number that is negative or too large for its place, a missing attribute, an operation that a
bare key does not have, a position outside a buffer, an integer too wide for its field. -/
inductive Misuse
  | type
  | value
  | undecodable
  | magnitude
  | attribute
  | unimplemented
  | position
  | width
  deriving DecidableEq, Repr

inductive ErrorKind
  | reported (family : Family)
  | misuse (mistake : Misuse)
  deriving DecidableEq, Repr

end SshKeys
