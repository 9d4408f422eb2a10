import DocTemplate.Expr.Basic
import DocTemplate.Number.Basic

namespace DocTemplate

def Literal.toText : Literal → String
  | str s => s
  | int n => toString n.toInt
  | long n => toString n.toInt
  | float x => shownFloat.toText x
  | double x => shownFloat.toText x
  | decimal d => d.toText

def Literal.typeName : Literal → String
  | str _ => "str"
  | int _ => "int"
  | long _ => "long"
  | float _ => "float"
  | double _ => "double"
  | decimal _ => "decimal"

def Constant.outline : Constant → String
  | null => "null"
  | bool b => if b then "true" else "false"
  | literal (.str s) => "'" ++ s ++ "'"
  | literal l => l.typeName ++ ":" ++ l.toText

def UnaryOp.outlineName : UnaryOp → String
  | neg => "neg"
  | not => "not"

def names (tokens : List Token) : String := " ".intercalate (tokens.map Token.lexeme)

namespace Expr

def mark (spans : Bool) (site : Site) (text : String) : String :=
  if spans then text ++ s!"@{site.span.start}-{site.span.stop}" else text

mutual

/-- The prefix form. With `spans`, the span of each node follows it. -/
def outline (spans : Bool) : Expr → String
  | constant site value => mark spans site value.outline
  | .name site token => mark spans site token.lexeme
  | assign site token value =>
    mark spans site ("(= " ++ token.lexeme ++ " " ++ outline spans value ++ ")")
  | unary site op token operand =>
    mark spans site
      ("(" ++ op.outlineName ++ ":" ++ token.lexeme ++ " " ++ outline spans operand ++ ")")
  | binary site op _ left right =>
    mark spans site
      ("(" ++ op.symbol ++ " " ++ outline spans left ++ " " ++ outline spans right ++ ")")
  | group site inner => mark spans site ("(group " ++ outline spans inner ++ ")")
  | call site callee _ args =>
    mark spans site ("(call " ++ outline spans callee ++ outlineItems spans args ++ ")")
  | get site object field optional =>
    mark spans site
      ((if optional then "(.? " else "(. ") ++ outline spans object ++ " " ++ field.lexeme ++ ")")
  | set site object field value =>
    mark spans site
      ("(set " ++ outline spans object ++ " " ++ field.lexeme ++ " " ++ outline spans value ++ ")")
  | choose site branches otherwise =>
    mark spans site
      ("(case" ++ outlineBranches spans branches ++ outlineOtherwise spans otherwise ++ ")")
  | lambda site params body =>
    mark spans site ("(fn [" ++ names params ++ "] " ++ outline spans body ++ ")")
  | list site items => mark spans site ("(list" ++ outlineItems spans items ++ ")")

def outlineItems (spans : Bool) : List Expr → String
  | [] => ""
  | e :: es => " " ++ outline spans e ++ outlineItems spans es

def outlineBranches (spans : Bool) : List (Expr × Expr) → String
  | [] => ""
  | (condition, result) :: branches =>
    " [" ++ outline spans condition ++ " " ++ outline spans result ++ "]" ++
      outlineBranches spans branches

def outlineOtherwise (spans : Bool) : Option Expr → String
  | none => ""
  | some e => " [else " ++ outline spans e ++ "]"

end

end Expr

end DocTemplate
