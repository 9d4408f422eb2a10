import DocTemplate.Expr.Operator

namespace DocTemplate

inductive Constant where
  | null
  | bool (b : Bool)
  | literal (l : Literal)
  deriving DecidableEq, Repr, Inhabited

/-- The number of a node and the span of the tokens it was read from. -/
structure Site where
  id : Nat
  span : Span
  deriving DecidableEq, Repr, Inhabited

inductive Expr where
  | constant (site : Site) (value : Constant)
  | name (site : Site) (token : Token)
  | assign (site : Site) (name : Token) (value : Expr)
  | unary (site : Site) (op : UnaryOp) (token : Token) (operand : Expr)
  | binary (site : Site) (op : Operator) (token : Token) (left right : Expr)
  | group (site : Site) (inner : Expr)
  | call (site : Site) (callee : Expr) (paren : Token) (args : List Expr)
  /-- An optional access gives null when there is nothing to look in. -/
  | get (site : Site) (object : Expr) (name : Token) (optional : Bool)
  | set (site : Site) (object : Expr) (name : Token) (value : Expr)
  | choose (site : Site) (branches : List (Expr × Expr)) (otherwise : Option Expr)
  | lambda (site : Site) (params : List Token) (body : Expr)
  | list (site : Site) (items : List Expr)
  deriving Repr, Inhabited

namespace Expr

def site : Expr → Site
  | constant s _ | name s _ | assign s _ _ | unary s _ _ _ | binary s _ _ _ _ | group s _
  | call s _ _ _ | get s _ _ _ | set s _ _ _ | choose s _ _ | lambda s _ _ | list s _ => s

def span (e : Expr) : Span := e.site.span

/-- What an assignment to this expression is. It takes the number of its target. -/
def assignTo? (target value : Expr) : Option Expr :=
  let site : Site := ⟨target.site.id, target.span.merge value.span⟩
  match target with
  | .name _ token => some (assign site token value)
  | .get _ object member false => some (set site object member value)
  | _ => none

end Expr

end DocTemplate
