import SshKeys.Datum
/-!
# Descriptions of failures

How a failure of a family reads when it is made from arbitrary particulars.
-/
namespace SshKeys.Family

def together (particulars : List Datum) : String :=
  "(" ++ ", ".intercalate (particulars.map Datum.quoted) ++ ")"

/-- The text of a failure. Two families have wordings and particulars of their own. -/
def describe (family : Family) (particulars : List Datum) : Except Error String :=
  match family, particulars with
  | lengthOverflow, [declared, limit] => .ok (Error.lengthOverflowText declared.shown limit.shown)
  | lengthOverflow, _ => .error (.misuse .type)
  | unknownKeyType, [] => .ok (Error.unknownKeyTypeText (Quoted.optional none) 0)
  | unknownKeyType, [keyType] => .ok (Error.unknownKeyTypeText keyType.quoted 0)
  | unknownKeyType, [keyType, key] => do return Error.unknownKeyTypeText keyType.quoted (← key.size)
  | unknownKeyType, _ => .error (.misuse .type)
  | _, [] => .ok ""
  | _, [only] => .ok only.shown
  | _, several => .ok (together several)

end SshKeys.Family
