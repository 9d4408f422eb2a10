import DocTemplate.Expr.Basic
import DocTemplate.Group.Basic

namespace DocTemplate

inductive Stmt where
  /-- Writes the value of an expression as text. -/
  | expr (e : Expr)
  | declare (name : Token) (init : Option Expr)
  /-- Statements in a scope of their own. -/
  | block (body : List Stmt)
  | ifTrue (condition : Expr) (body : List Stmt)
  | forEach (element : Token) (items : Expr) (body : List Stmt)
  /-- Evaluates an expression for its effects. -/
  | run (e : Expr)
  /-- Copies a piece of the document. -/
  | verbatim (item : StreamItem)
  | insert (keyword : Token) (rewriter : Expr) (body : List Stmt)
  | rewrite (keyword : Token) (rewriter : Expr) (body : List Stmt)
  deriving Repr, Inhabited

/-- Statements, and how many nodes their expressions have. -/
structure Program where
  body : List Stmt
  nodeCount : Nat
  deriving Repr, Inhabited

end DocTemplate
