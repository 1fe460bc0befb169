import SshKeys.Bytes
/-!
# Padding to whole blocks

Every padding byte tells how many there are, so that a text which already fills its blocks gains a
whole one.
-/
namespace SshKeys.Padding

def add (blockSize : Nat) (text : Bytes) : Bytes :=
  let count := blockSize - text.length % blockSize
  text ++ List.replicate count (UInt8.ofNat count)

def remove? (blockSize : Nat) (text : Bytes) : Option Bytes :=
  match text.getLast? with
  | none => none
  | some last =>
    let count := last.toNat
    if text.length % blockSize = 0 ∧ 0 < count ∧ count ≤ blockSize ∧ count ≤ text.length ∧
        (text.drop (text.length - count)).all (· == last) then
      some (text.take (text.length - count))
    else none

end SshKeys.Padding
