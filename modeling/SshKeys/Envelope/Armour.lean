import SshKeys.Datum
import SshKeys.Text.Base64
import SshKeys.Text.Blank
import SshKeys.Text.Line
/-!
# Armour

The text form of a key file: base 64 in lines of 70 characters between two marker lines. Reading
takes any text around the markers and any blanks around lines.
-/
namespace SshKeys.Armour

def label : String := "OPENSSH PRIVATE KEY"

def beginMarker : List Char := ("-----BEGIN " ++ label ++ "-----").toList

def endMarker : List Char := ("-----END " ++ label ++ "-----").toList

def lineWidth : Nat := 70

def unlines (lines : List (List Char)) : String :=
  String.ofList (lines.flatMap (· ++ ['\n']))

def encode (bs : Bytes) : String :=
  unlines (beginMarker :: Bytes.chunks lineWidth (Base64.encode bs) ++ [endMarker])

/-- The lines between the first begin marker and the first end marker behind it. -/
def body? (lines : List (List Char)) : Option (List (List Char)) :=
  match lines.dropWhile (· ≠ beginMarker) with
  | [] => none
  | _ :: rest =>
    if rest.contains endMarker then some (rest.takeWhile (· ≠ endMarker)) else none

def decodeText (s : String) : Except Error Bytes :=
  match body? ((Text.lines s.toList).map Text.trim) with
  | none => .error .notArmoured
  | some body =>
    match Base64.decode? body.flatten with
    | some bs => .ok bs
    | none => .error .base64Invalid

def decode (data : Datum) : Except Error Bytes := do decodeText (← data.toTextOr .notText)

def occurs (pattern : Bytes) : Bytes → Bool
  | [] => pattern.isEmpty
  | b :: rest => pattern.isPrefixOf (b :: rest) || occurs pattern rest

def isMarked (data : Datum) : Except Error Bool := do
  return occurs (Utf8.encode (String.ofList beginMarker)) (← data.toBytes)

end SshKeys.Armour
