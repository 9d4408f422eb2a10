import DocTemplate.Run.Cause
import DocTemplate.Text.Letter
import DocTemplate.Value.Basic

namespace DocTemplate

namespace Builtin

/-- The number that an argument stands for; null stands for none. -/
def numberArgument (target : NumberType) : Value → Except ArgumentCause (Option Number)
  | .null => .ok none
  | .number n => .ok (some n)
  | .str s =>
    match Decimal.ofChars? (trimBlanks s.toList) with
    | some d => .ok (some (.decimal d))
    | none => .error (.unreadable s target.name)
  | v => .error (.inconvertible v.typeName target.name)

def convert (target : NumberType) (v : Value) : Except ArgumentCause Value :=
  match numberArgument target v with
  | .error cause => .error cause
  | .ok none => .ok .null
  | .ok (some n) =>
    match n.convert? target with
    | some m => .ok (.number m)
    | none => .error (.inconvertible n.toText target.name)

end Builtin

end DocTemplate
