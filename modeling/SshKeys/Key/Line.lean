import SshKeys.Key.Public
import SshKeys.Text.Base64
import SshKeys.Text.Blank
/-!
# Public keys on one line

Type name, blob in base 64, and perhaps a comment, set apart by blanks.
-/
namespace SshKeys

/-- The parts of a line, taken at face value apart from the type name, which has to open the blob
too. -/
structure PublicLine where
  keyType : String
  blob : Bytes
  comment : Option String
  deriving DecidableEq, Repr

namespace PublicLine

def ofText (line : String) : Except Error PublicLine := do
  match Text.fields 2 line.toList with
  | first :: second :: rest =>
    let keyType := String.ofList first
    match Base64.decode? second with
    | none => throw .base64Invalid
    | some blob =>
      let blobType ← Packet.parse Packet.readText blob
      if blobType ≠ keyType then throw (.lineTypeMismatch keyType blobType)
      return ⟨keyType, blob, rest.head?.map fun cs => String.ofList (Text.trim cs)⟩
  | few => throw (.lineFields (few.map String.ofList))

def ofDatum (line : Datum) : Except Error PublicLine := do
  ofText (← line.toTextOr .lineNotUtf8)

def shown (l : PublicLine) : String :=
  let comment := l.comment.getD ""
  l.keyType ++ " public key" ++ if comment.isEmpty then "" else "- " ++ comment

def sameKey (a b : PublicLine) : Bool := a.blob == b.blob

end PublicLine

namespace Key

def base64 (k : Key) : String := String.ofList ((Base64.encodeLines k.blob).filter (· ≠ '\n'))

def publicLine (k : Key) : String :=
  let comment := k.commentText
  k.name ++ " " ++ k.base64 ++ if comment.isEmpty then "" else " " ++ comment

def ofPublicLine (line : PublicLine) : Except Error Key := do
  return { ← ofTypedBlob line.keyType line.blob with comment := some (line.comment.getD "") }

def ofLine (line : Datum) : Except Error Key := do ofPublicLine (← PublicLine.ofDatum line)

end Key
end SshKeys
