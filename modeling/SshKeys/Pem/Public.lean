import SshKeys.Pem.Private
/-!
# Public keys in PEM blocks

The form for keys of any class, and the bare pair of RSA numbers.
-/
namespace SshKeys

def Der.Refusal.inPublic (label : String) : Der.Refusal → Error
  | unsupported => .algorithmUnsupported
  | malformed | passwordMissing | passwordUnused => .pemDataInvalid label

namespace PemBlock

def loadPublic (data : Datum) (comment : Option String) : Except Error Key := do
  let b ← ofDatum data
  let kind ← b.kindOf true
  let key ← (Der.PublicKey.read b.body).mapError (Der.Refusal.inPublic b.label)
  checkKind kind { body := ← key.toBody, comment }

inductive PublicFormat
  | any
  | pkcs1
  deriving DecidableEq, Repr

namespace PublicFormat

def all : List PublicFormat := [any, pkcs1]

def name : PublicFormat → String
  | any => "pem-public"
  | pkcs1 => "pkcs1-public"

def ofName (name : Option String) : Except Error PublicFormat :=
  match name.bind fun s => all.find? (·.name == s) with
  | some format => .ok format
  | none => .error (.unknownPublicFormat name)

end PublicFormat

def writePublicAs (format : PublicFormat) (key : Key) : Except Error String := do
  match format, key.body with
  | .any, body => return render PemKind.anyPublic.label [] (← Der.PublicKey.element body).toBytes
  | .pkcs1, .rsa k =>
    return render PemKind.rsaPublic.label [] (Der.PublicKey.rsaElement k.n k.e).toBytes
  | .pkcs1, _ => throw (.unwritableAs key.name format.name)

def writePublic (key : Key) (formatName : Option String) : Except Error String := do
  writePublicAs (← PublicFormat.ofName formatName) key

end PemBlock
end SshKeys
