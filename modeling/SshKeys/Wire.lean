import SshKeys.Error
import SshKeys.TwosComplement
import SshKeys.Text.Utf8
/-!
# Fields of the wire format

The fields of the SSH wire format as they are written: unsigned integers of four bytes, booleans,
strings behind a four byte length, texts as UTF-8 strings, and multiple precision integers as
strings in two's complement with zero as the empty string.
-/
namespace SshKeys.Wire

def fieldLimit : Nat := 1048576

def uint32 (n : Nat) : Bytes := Bytes.ofNat 4 n

def boolean (b : Bool) : Bytes := [if b then 1 else 0]

def string (bs : Bytes) : Bytes := uint32 bs.length ++ bs

def fits (length : Nat) : Bool := length < 4294967296

/-- String fields one behind the other; no string may be too long for its length. -/
def strings (contents : List Bytes) : Except Error Bytes :=
  if contents.all (fits ·.length) then .ok (contents.flatMap string) else .error (.misuse .width)

def text (s : String) : Bytes := string (Utf8.encode s)

def integerBytes (z : Int) : Bytes := if z = 0 then [] else TwosComplement.encode z

def integer (z : Int) : Bytes := string (integerBytes z)

end SshKeys.Wire
