import SshKeys.Der.Value
/-!
# Refusals of DER readers

How the reading of a key from DER may end without a key. A refusal for the form of the data leaves
room for another container; the other refusals are final.
-/
namespace SshKeys.Der

inductive Refusal
  | malformed
  | unsupported
  | passwordMissing
  | passwordUnused
  deriving DecidableEq, Repr

abbrev Reading := Except Refusal

namespace Reading

def expect {α : Type} : Option α → Reading α
  | some a => .ok a
  | none => .error .malformed

def require (condition : Bool) : Reading Unit := if condition then .ok () else .error .malformed

/-- The first outcome, or the second one if the first is a refusal for the form of the data. -/
def orTry {α : Type} (first second : Reading α) : Reading α :=
  match first with
  | .error .malformed => second
  | outcome => outcome

end Reading
end SshKeys.Der
