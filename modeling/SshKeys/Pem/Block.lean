import SshKeys.Datum
import SshKeys.Text.Base64
import SshKeys.Text.Blank
import SshKeys.Text.Line
import SshKeys.Text.Lowercase
/-!
# PEM blocks

A begin line with a label, header lines, a body in base 64, and an end line with the same label.
Anything may stand around a block, and blanks around its lines do not matter.
-/
namespace SshKeys

/-- A block; header names are in lower case, each with the last value given for it. -/
structure PemBlock where
  label : String
  headers : List (String × String)
  body : Bytes
  deriving DecidableEq, Repr

namespace PemBlock

def isLabelChar (c : Char) : Bool := c.isUpper || c.isDigit || c == ' '

def dashes : List Char := "-----".toList

def markerLabel? (word : String) (line : List Char) : Option String :=
  let opening := dashes ++ (word ++ " ").toList
  if opening.isPrefixOf line then
    let rest := line.drop opening.length
    let label := rest.take (rest.length - dashes.length)
    if rest.drop (rest.length - dashes.length) = dashes ∧ label ≠ [] ∧ label.all isLabelChar then
      some (String.ofList label)
    else none
  else none

def beginLabel? (line : List Char) : Option String := markerLabel? "BEGIN" line

def endLabel? (line : List Char) : Option String := markerLabel? "END" line

/-- What stands before the first colon with a space behind it, and what stands after these two, if
they occur; `before` holds what has been passed, last first. -/
def cutFrom (before : List Char) : List Char → List Char × Option (List Char)
  | [] => (before.reverse, none)
  | ':' :: ' ' :: rest => (before.reverse, some rest)
  | c :: rest => cutFrom (c :: before) rest

def cut (line : List Char) : List Char × Option (List Char) := cutFrom [] line

/-- The name and the value of a header line; the value ends where another one begins. -/
def header? (line : List Char) : Option (String × String) :=
  match cut line with
  | (_, none) => none
  | (name, some rest) =>
    some (String.ofList (Text.lower name), String.ofList (Text.trim (cut rest).1))

def put (name value : String) : List (String × String) → List (String × String)
  | [] => [(name, value)]
  | entry :: rest =>
    if entry.1 = name then (name, value) :: rest else entry :: put name value rest

def readHeaders (headers : List (String × String)) :
    List (List Char) → List (String × String) × List (List Char)
  | [] => (headers, [])
  | line :: rest =>
    match header? line with
    | some (name, value) => readHeaders (put name value headers) rest
    | none => (headers, line :: rest)

/-- The first marked line, with its label, and the lines before and after it; `before` holds the
lines passed, last first. -/
def findMarker (label? : List Char → Option String) (before : List (List Char)) :
    List (List Char) → Option (String × List (List Char) × List (List Char))
  | [] => none
  | line :: rest =>
    match label? line with
    | some label => some (label, before.reverse, rest)
    | none => findMarker label? (line :: before) rest

def ofLines (lines : List (List Char)) : Except Error PemBlock :=
  match findMarker beginLabel? [] lines with
  | none => .error .noPemBegin
  | some (label, _, rest) =>
    match findMarker endLabel? [] rest with
    | none => .error (.noPemEnd label)
    | some (closing, inside, _) =>
      if closing ≠ label then .error (.noPemEnd label)
      else
        let (headers, bodyLines) := readHeaders [] inside
        match Base64.decode? bodyLines.flatten with
        | some body => .ok ⟨label, headers, body⟩
        | none => .error .base64Invalid

def trimmedLines (s : String) : List (List Char) := (Text.lines s.toList).map Text.trim

def ofText (s : String) : Except Error PemBlock := ofLines (trimmedLines s)

def ofDatum (data : Datum) : Except Error PemBlock := do ofText (← data.toTextOr .notText)

def labelOfText? (s : String) : Option String := (trimmedLines s).findSome? beginLabel?

/-- The label of the first begin line; bytes that are no text have none. -/
def labelOf (data : Datum) : Except Error (Option String) :=
  match data.toText with
  | .ok s => .ok (labelOfText? s)
  | .error (.misuse .undecodable) => .ok none
  | .error e => .error e

def header (b : PemBlock) (name : String) : Option String := b.headers.lookup name

def lineWidth : Nat := 64

def render (label : String) (headerLines : List String) (body : Bytes) : String :=
  let marker (word : String) : List Char := ("-----" ++ word ++ " " ++ label ++ "-----").toList
  let bodyLines := Bytes.chunks lineWidth (Base64.encode body)
  String.ofList
    ((marker "BEGIN" :: headerLines.map String.toList ++ bodyLines ++ [marker "END"]).flatMap
      (· ++ ['\n']))

end PemBlock
end SshKeys
