import SshKeys.Error.Family
import SshKeys.Text.Quoted
/-!
# Causes of failure

Everything that can go wrong, as causes with their particulars. `Error.kind` sorts a cause into its
family and `Error.message` words it; a cause without wording of its own has no message.
-/
namespace SshKeys

inductive Error
  | misuse (mistake : Misuse)
  | notTextual (typeName : String)
  | notEncodable
  | bufferInUse
  | notBuffer (typeName : String)
  | negativeLength (count : Int)
  | truncated (wanted remaining : Nat)
  | lengthOverflow (declared : Nat) (limit : Int)
  | fieldNotUtf8
  | unknownCipher (name : Option String)
  | roundsTooFew (rounds : Int)
  | optionsWithoutStretching
  | unknownStretching (name : Option String)
  | optionsTrailing
  | saltEmpty
  | roundsZero
  | unaligned (size : Nat) (cipher : String)
  | passphraseRequired
  | passphraseMissing (cipher : String)
  | keyTrailing (count : Nat) (keyType : String)
  | unknownKeyType (keyType : Option String) (size : Nat)
  | noPrivatePart (name action : String)
  | keyEmpty
  | wrongKeyType (className keyType : String)
  | rsaModulusSmall (bits : Nat)
  | rsaPublicInvalid
  | rsaNumbersInvalid
  | rsaModulusMismatch
  | rsaPrivateInvalid
  | rsaHashUnknown (name : String)
  | rsaBitsSmall (bits : Int)
  | dsaSubgroupSize (bits : Nat)
  | dsaModulusSmall (bits : Nat)
  | dsaPublicInvalid
  | dsaPrivateRange
  | dsaMismatch
  | dsaPrivateInvalid
  | curveMismatch (curve keyType : String)
  | pointCompressed
  | pointSize (curve : String) (expected actual : Nat)
  | pointOffCurve
  | scalarRange (curve : String)
  | ecdsaPrivateInvalid
  | ecdsaMismatch
  | curveBitsUnknown (bits : Int)
  | ed25519PublicSize (size : Nat)
  | ed25519SecretSize (size : Nat)
  | ed25519PublicNotEmbedded
  | ed25519PublicNotDerived
  | ed25519NoKey
  | privatePartMissing (family : String)
  | lineNotUtf8
  | lineFields (fields : List String)
  | base64Invalid
  | lineTypeMismatch (keyType blobType : String)
  | noPublicLine
  | checkMismatch
  | entryMismatch (index : Nat)
  | paddingByte (byte offset : Nat)
  | magicMissing
  | cipherWithoutStretching (cipher : String)
  | noKeys
  | keyCount (count : Nat)
  | sectionTrailing (count : Nat)
  | sectionSize (size blockSize : Nat)
  | nothingToWrite
  | passphraseUnused
  | passphraseNeeded (cipher : String)
  | notArmoured
  | notText
  | noPemBegin
  | noPemEnd (label : String)
  | procType (value : String)
  | dekInfoUnreadable
  | unknownPemCipher (name : Option String)
  | dekInfoHex (value : String)
  | dekInfoSize (cipher : String) (blockSize : Nat)
  | pemUnaligned
  | badPassword
  | unknownPemLabel (label : String)
  | pemDataInvalid (label : String)
  | algorithmUnsupported
  | pemKeyMismatch (label keyName : String)
  | noTraditionalForm (keyName : String)
  | unknownPemFormat (name : Option String)
  | unwritableAs (keyName format : String)
  | unknownPublicFormat (name : Option String)
  | formatUndetermined
  | pemBlockUnsupported (label : String)
  | publicOnlyData
  | unknownFormat (name : Option String)
  | publicOnlyKey (keyName format : String)
  | fingerprintHash (name : String)
  deriving DecidableEq, Repr

namespace Error

def kind : Error → ErrorKind
  | misuse mistake => .misuse mistake
  | notTextual _ | notBuffer _ => .misuse .type
  | notEncodable | bufferInUse => .misuse .value
  | negativeLength _ => .reported .format
  | truncated _ _ => .reported .truncated
  | lengthOverflow _ _ => .reported .lengthOverflow
  | fieldNotUtf8 => .reported .format
  | unknownCipher _ => .reported .unsupportedCipher
  | roundsTooFew _ => .misuse .value
  | optionsWithoutStretching => .reported .format
  | unknownStretching _ => .reported .unsupportedKdf
  | optionsTrailing | saltEmpty | roundsZero => .reported .format
  | unaligned _ _ => .reported .format
  | passphraseRequired => .reported .passwordRequired
  | passphraseMissing _ => .misuse .value
  | keyTrailing _ _ => .reported .format
  | unknownKeyType _ _ => .reported .unknownKeyType
  | noPrivatePart _ _ | keyEmpty => .misuse .value
  | wrongKeyType _ _ => .reported .format
  | rsaModulusSmall _ => .reported .invalidKeySize
  | rsaPublicInvalid | rsaNumbersInvalid | rsaModulusMismatch | rsaPrivateInvalid =>
    .reported .format
  | rsaHashUnknown _ => .misuse .value
  | rsaBitsSmall _ => .reported .invalidKeySize
  | dsaSubgroupSize _ | dsaModulusSmall _ => .reported .invalidKeySize
  | dsaPublicInvalid | dsaPrivateRange | dsaMismatch | dsaPrivateInvalid => .reported .format
  | curveMismatch _ _ | pointCompressed => .reported .format
  | pointSize _ _ _ => .reported .invalidKeySize
  | pointOffCurve => .reported .format
  | scalarRange _ => .reported .invalidKeySize
  | ecdsaPrivateInvalid | ecdsaMismatch => .reported .format
  | curveBitsUnknown _ => .reported .invalidKeySize
  | ed25519PublicSize _ | ed25519SecretSize _ => .reported .invalidKeySize
  | ed25519PublicNotEmbedded | ed25519PublicNotDerived => .reported .format
  | ed25519NoKey | privatePartMissing _ => .misuse .value
  | lineNotUtf8 | lineFields _ | base64Invalid | lineTypeMismatch _ _ | noPublicLine =>
    .reported .format
  | checkMismatch => .reported .decryptionFailed
  | entryMismatch _ => .reported .format
  | paddingByte _ _ => .reported .paddingInvalid
  | magicMissing | cipherWithoutStretching _ | noKeys | keyCount _ | sectionTrailing _ |
    sectionSize _ _ => .reported .format
  | nothingToWrite | passphraseUnused | passphraseNeeded _ => .misuse .value
  | notArmoured | notText => .reported .format
  | noPemBegin | noPemEnd _ | procType _ | dekInfoUnreadable => .reported .format
  | unknownPemCipher _ => .reported .unsupportedCipher
  | dekInfoHex _ | dekInfoSize _ _ | pemUnaligned => .reported .format
  | badPassword => .reported .decryptionFailed
  | unknownPemLabel _ => .reported .unsupportedFormat
  | pemDataInvalid _ => .reported .format
  | algorithmUnsupported => .reported .unsupportedAlgorithm
  | pemKeyMismatch _ _ => .reported .format
  | noTraditionalForm _ | unknownPemFormat _ | unwritableAs _ _ | unknownPublicFormat _ =>
    .reported .unsupportedFormat
  | formatUndetermined | pemBlockUnsupported _ | publicOnlyData | unknownFormat _ =>
    .reported .unsupportedFormat
  | publicOnlyKey _ _ | fingerprintHash _ => .misuse .value

def unknownKeyTypeText (shownType : String) (size : Nat) : String :=
  s!"UnknownKeyType(type={shownType}, bytes=<{size}>)"

def lengthOverflowText (declared limit : String) : String :=
  s!"Declared length {declared} exceeds limit of {limit} bytes"

def message : Error → Option String
  | misuse _ | notEncodable | bufferInUse => none
  | notTextual typeName => some s!"Expected unicode or bytes, got <class '{typeName}'>"
  | notBuffer typeName => some s!"Expected bytearray, got <class '{typeName}'>"
  | negativeLength count => some s!"Negative read length: {count}"
  | truncated wanted remaining => some s!"Wanted {wanted} bytes but only {remaining} remain"
  | lengthOverflow declared limit => some (lengthOverflowText (toString declared) (toString limit))
  | fieldNotUtf8 => some "Invalid UTF-8 text field"
  | unknownCipher name => some ("Unknown cipher " ++ Quoted.optional name)
  | roundsTooFew rounds => some s!"bcrypt rounds must be at least 1, got {rounds}"
  | optionsWithoutStretching => some "KDF 'none' must not carry options"
  | unknownStretching name => some ("Unknown KDF " ++ Quoted.optional name)
  | optionsTrailing => some "Trailing bytes after bcrypt KDF options"
  | saltEmpty => some "bcrypt KDF salt is empty"
  | roundsZero => some "bcrypt KDF rounds must be at least 1"
  | unaligned size cipher =>
    some s!"{size} byte payload is not a multiple of the {cipher} block size"
  | passphraseRequired => some "Private key file is encrypted"
  | passphraseMissing cipher => some s!"A passphrase is required to encrypt with {cipher}"
  | keyTrailing count keyType => some s!"{count} trailing bytes after {keyType} public key"
  | unknownKeyType keyType size => some (unknownKeyTypeText (Quoted.optional keyType) size)
  | noPrivatePart name action => some s!"{name} key has no private part to {action}"
  | keyEmpty => some "Key object may not be empty"
  | wrongKeyType className keyType =>
    some s!"Invalid key (class: {className}, data type: {keyType})"
  | rsaModulusSmall bits => some s!"RSA modulus of {bits} bits is below the 1024 bit minimum"
  | rsaPublicInvalid => some "Invalid RSA public key"
  | rsaNumbersInvalid => some "Invalid RSA private key numbers"
  | rsaModulusMismatch => some "RSA private key does not match its modulus"
  | rsaPrivateInvalid => some "Invalid RSA private key"
  | rsaHashUnknown name => some ("Unknown RSA signature type " ++ Quoted.text name)
  | rsaBitsSmall bits => some s!"Refusing to generate a {bits} bit RSA key"
  | dsaSubgroupSize bits => some s!"DSA q must be 160 bits, got {bits}"
  | dsaModulusSmall bits => some s!"DSA p must be at least 1024 bits, got {bits}"
  | dsaPublicInvalid => some "Invalid DSA public key numbers"
  | dsaPrivateRange => some "DSA private value out of range"
  | dsaMismatch => some "DSA private key does not match its public key"
  | dsaPrivateInvalid => some "Invalid DSA private key"
  | curveMismatch curve keyType =>
    some ("Curve " ++ Quoted.text curve ++ " does not match key type " ++ Quoted.text keyType)
  | pointCompressed => some "Point compression is being used"
  | pointSize curve expected actual =>
    some s!"{curve} point must be {expected} bytes, got {actual}"
  | pointOffCurve => some "Invalid public key: point not on curve"
  | scalarRange curve => some s!"{curve} private scalar out of range"
  | ecdsaPrivateInvalid => some "Invalid ECDSA private key"
  | ecdsaMismatch => some "ECDSA private key does not match its public point"
  | curveBitsUnknown bits => some s!"Unsupported key length: {bits}"
  | ed25519PublicSize size => some s!"Ed25519 public key must be 32 bytes, got {size}"
  | ed25519SecretSize size => some s!"Ed25519 secret must be 64 bytes, got {size}"
  | ed25519PublicNotEmbedded => some "Ed25519 secret does not embed its public key"
  | ed25519PublicNotDerived => some "Ed25519 seed does not derive its public key"
  | ed25519NoKey => some "need a key"
  | privatePartMissing family => some s!"{family} key has no private part"
  | lineNotUtf8 => some "Public key line is not UTF-8"
  | lineFields fields => some ("Not enough fields for public blob: " ++ Quoted.texts fields)
  | base64Invalid => some "base64 decoding error"
  | lineTypeMismatch keyType blobType =>
    some ("Invalid PublicBlob contents: key type=" ++ Quoted.text keyType ++
      ", but blob type=" ++ Quoted.text blobType)
  | noPublicLine => some "No public key line found"
  | checkMismatch => some "OpenSSH private key file checkints do not match"
  | entryMismatch index => some s!"Private key {index} does not match its public key"
  | paddingByte byte offset =>
    some ("Bad padding byte 0x" ++ String.ofList (Quoted.hexDigits 2 byte) ++
      s!" at offset {offset}")
  | magicMissing => some "unexpected OpenSSH key header encountered"
  | cipherWithoutStretching cipher =>
    some ("Cipher " ++ Quoted.text cipher ++ " used without a KDF")
  | noKeys => some "OpenSSH private key file holds no keys"
  | keyCount count => some s!"Key count {count} exceeds the data available"
  | sectionTrailing count => some s!"{count} trailing bytes after private section"
  | sectionSize size blockSize =>
    some (s!"Private section of {size} bytes is not a positive multiple of " ++
      s!"the {blockSize} byte block size")
  | nothingToWrite => some "Need at least one key to write"
  | passphraseUnused => some "Cannot use a passphrase with cipher 'none'"
  | passphraseNeeded cipher => some ("Cipher " ++ Quoted.text cipher ++ " needs a passphrase")
  | notArmoured => some "not a valid OPENSSH private key file"
  | notText => some "Key file is not text"
  | noPemBegin => some "no PEM BEGIN line found"
  | noPemEnd label => some s!"no matching PEM END line for {label}"
  | procType value => some s!"Unknown private key structure \"{value}\""
  | dekInfoUnreadable => some "Can't parse DEK-info in private key file"
  | unknownPemCipher name =>
    some ("Unknown private key cipher \"" ++ name.getD "None" ++ "\"")
  | dekInfoHex value => some ("Bad IV in DEK-Info: " ++ Quoted.text value)
  | dekInfoSize cipher blockSize => some s!"{cipher} needs a {blockSize} byte IV"
  | pemUnaligned => some "Encrypted key is not a whole number of blocks"
  | badPassword => some "Bad password or corrupt private key file"
  | unknownPemLabel label => some ("Unknown PEM label " ++ Quoted.text label)
  | pemDataInvalid label => some s!"Invalid {label} data"
  | algorithmUnsupported => none
  | pemKeyMismatch label keyName => some s!"{label} block holds a {keyName} key"
  | noTraditionalForm keyName => some s!"{keyName} keys have no traditional PEM form"
  | unknownPemFormat name => some ("Unknown PEM format " ++ Quoted.optional name)
  | unwritableAs keyName format => some s!"{keyName} keys cannot be written as {format}"
  | unknownPublicFormat name => some ("Unknown public PEM format " ++ Quoted.optional name)
  | formatUndetermined => some "can not determine key format"
  | pemBlockUnsupported label => some ("unsupported PEM block " ++ Quoted.text label)
  | publicOnlyData => some "Public key data holds no private key"
  | unknownFormat name => some ("Unknown key format " ++ Quoted.optional name)
  | publicOnlyKey keyName format => some s!"Cannot write a public-only {keyName} key as {format}"
  | fingerprintHash name => some ("Unsupported fingerprint hash " ++ Quoted.text name)

end Error
end SshKeys
