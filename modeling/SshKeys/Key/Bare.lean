import SshKeys.Error
/-!
# Bare keys

A bare key has no class, hence no name and no numbers. It answers the few questions that need
neither.
-/
namespace SshKeys.BareKey

inductive Request
  | canSign
  | comment
  | equalsOther
  | name
  | typeNames
  | wrap
  | construct
  | other
  deriving DecidableEq, Repr

inductive Answer
  | no
  | noComment
  deriving DecidableEq, Repr

/-- What a bare key answers: it cannot sign, has an empty comment, and equals nothing that is no
key. It has no name; a text is no key that it could be made from; and nothing is constructed without
a class. -/
def answer : Request → Except Error Answer
  | .canSign | .equalsOther => .ok .no
  | .comment => .ok .noComment
  | .name | .typeNames => .error (.misuse .attribute)
  | .wrap => .error (.unknownKeyType (some "str") 0)
  | .construct => .error (.misuse .type)
  | .other => .error (.misuse .unimplemented)

end SshKeys.BareKey
