import DocTemplate.Program.Basic

namespace DocTemplate

namespace Expr

/-- The operands of a node, in the order of the text. -/
def parts : Expr → List Expr
  | constant _ _ | .name _ _ => []
  | assign _ _ value => [value]
  | unary _ _ _ operand => [operand]
  | binary _ _ _ left right => [left, right]
  | group _ inner => [inner]
  | call _ callee _ args => callee :: args
  | get _ object _ _ => [object]
  | set _ object _ value => [object, value]
  | choose _ branches otherwise =>
    branches.flatMap (fun branch => [branch.1, branch.2]) ++ otherwise.toList
  | lambda _ _ body => [body]
  | list _ items => items

def ownTokens : Expr → List Token
  | .name _ token | unary _ _ token _ | binary _ _ token _ _ | call _ _ token _ => [token]
  | assign _ token _ | get _ _ token _ | set _ _ token _ => [token]
  | lambda _ params _ => params
  | constant _ _ | group _ _ | choose _ _ _ | list _ _ => []

mutual

def nodes : Expr → List Expr
  | e@(constant _ _) => [e]
  | e@(.name _ _) => [e]
  | e@(assign _ _ value) => e :: nodes value
  | e@(unary _ _ _ operand) => e :: nodes operand
  | e@(binary _ _ _ left right) => e :: nodes left ++ nodes right
  | e@(group _ inner) => e :: nodes inner
  | e@(call _ callee _ args) => e :: nodes callee ++ nodesOfItems args
  | e@(get _ object _ _) => e :: nodes object
  | e@(set _ object _ value) => e :: nodes object ++ nodes value
  | e@(choose _ branches otherwise) => e :: nodesOfBranches branches ++ nodesOfOptional otherwise
  | e@(lambda _ _ body) => e :: nodes body
  | e@(list _ items) => e :: nodesOfItems items

def nodesOfItems : List Expr → List Expr
  | [] => []
  | e :: es => nodes e ++ nodesOfItems es

def nodesOfBranches : List (Expr × Expr) → List Expr
  | [] => []
  | (condition, result) :: branches => nodes condition ++ nodes result ++ nodesOfBranches branches

def nodesOfOptional : Option Expr → List Expr
  | none => []
  | some e => nodes e

end

end Expr

namespace Stmt

mutual

def nodes : Stmt → List Expr
  | expr e => e.nodes
  | run e => e.nodes
  | declare _ init => Expr.nodesOfOptional init
  | block body => nodesOfBody body
  | ifTrue condition body => condition.nodes ++ nodesOfBody body
  | forEach _ items body => items.nodes ++ nodesOfBody body
  | insert _ rewriter body => rewriter.nodes ++ nodesOfBody body
  | rewrite _ rewriter body => rewriter.nodes ++ nodesOfBody body
  | verbatim _ => []

def nodesOfBody : List Stmt → List Expr
  | [] => []
  | s :: ss => nodes s ++ nodesOfBody ss

end

mutual

/-- A statement and all those in it, without their bodies, in the order of the text. -/
def lines : Stmt → List Stmt
  | expr e => [expr e]
  | declare token init => [declare token init]
  | block body => block [] :: linesOfBody body
  | ifTrue condition body => ifTrue condition [] :: linesOfBody body
  | forEach element items body => forEach element items [] :: linesOfBody body
  | run e => [run e]
  | verbatim item => [verbatim item]
  | insert keyword rewriter body => insert keyword rewriter [] :: linesOfBody body
  | rewrite keyword rewriter body => rewrite keyword rewriter [] :: linesOfBody body

def linesOfBody : List Stmt → List Stmt
  | [] => []
  | s :: ss => lines s ++ linesOfBody ss

end

/-- The expression that a statement holds itself. -/
def root? : Stmt → Option Expr
  | expr e | run e | ifTrue e _ | forEach _ e _ | insert _ e _ | rewrite _ e _ => some e
  | declare _ init => init
  | block _ | verbatim _ => none

def ownTokens : Stmt → List Token
  | declare token _ | forEach token _ _ | insert token _ _ | rewrite token _ _ => [token]
  | expr _ | block _ | ifTrue _ _ | run _ | verbatim _ => []

end Stmt

namespace Program

def nodes (p : Program) : List Expr := Stmt.nodesOfBody p.body

def lines (p : Program) : List Stmt := Stmt.linesOfBody p.body

def roots (p : Program) : List Expr := p.lines.filterMap Stmt.root?

def tokens (p : Program) : List Token :=
  p.lines.flatMap Stmt.ownTokens ++ p.nodes.flatMap Expr.ownTokens

end Program

/-- A place where a program reads or assigns a variable. -/
structure NameUse where
  node : Nat
  token : Token
  isWrite : Bool
  deriving DecidableEq, Repr

def Expr.nameUse? : Expr → Option NameUse
  | .name site token => some ⟨site.id, token, false⟩
  | .assign site token _ => some ⟨site.id, token, true⟩
  | _ => none

def Program.nameUses (p : Program) : List NameUse := p.nodes.filterMap Expr.nameUse?

end DocTemplate
