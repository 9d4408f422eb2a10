namespace DocTemplate

inductive Arity where
  | exactly (n : Nat)
  | between (least most : Nat)
  deriving DecidableEq, Repr, Inhabited

namespace Arity

def accepts (a : Arity) (count : Nat) : Bool :=
  match a with
  | exactly n => count == n
  | between least most => least ≤ count && count ≤ most

def least : Arity → Nat
  | exactly n => n
  | between least _ => least

def toText : Arity → String
  | exactly n => toString n
  | between least most => s!"{least} to {most}"

end Arity

end DocTemplate
