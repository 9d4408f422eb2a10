import Mathlib.Logic.Equiv.Basic
import DocTemplate.Proofs.Scope.Resolution

namespace DocTemplate

/-- The nodes at which a variable gets a new name. -/
structure Relabeling where
  nodes : List Nat
  old : String
  fresh : String

namespace Relabeling

variable {ρ : Relabeling} {own : Bool} {token : Token}

def use (ρ : Relabeling) (node : Nat) (token : Token) : Token :=
  if node ∈ ρ.nodes then { token with lexeme := ρ.fresh } else token

/-- The token of a declaration, in the scope of the variable (`own`) or in another one. -/
def declared (ρ : Relabeling) (own : Bool) (token : Token) : Token :=
  if own = true ∧ token.lexeme = ρ.old then { token with lexeme := ρ.fresh } else token

/-- What a scope of the variable (`own`) calls the variable of a name, or another scope. -/
def key (ρ : Relabeling) (own : Bool) (name : String) : String :=
  if own then Equiv.swap ρ.old ρ.fresh name else name

@[simp] theorem key_false (ρ : Relabeling) (name : String) : ρ.key false name = name := rfl

@[simp] theorem key_key (ρ : Relabeling) (own : Bool) (name : String) :
    ρ.key own (ρ.key own name) = name := by
  cases own with
  | true => exact Equiv.swap_apply_self ρ.old ρ.fresh name
  | false => rfl

theorem key_inj (ρ : Relabeling) (own : Bool) {name name' : String} :
    ρ.key own name = ρ.key own name' ↔ name = name' := by
  constructor
  · intro h
    rw [← ρ.key_key own name, h, key_key]
  · exact congrArg _

theorem key_of_ne (own : Bool) {name : String} (ho : name ≠ ρ.old) (hf : name ≠ ρ.fresh) :
    ρ.key own name = name := by
  cases own with
  | true => exact Equiv.swap_apply_of_ne_of_ne ho hf
  | false => rfl

theorem key_true_old (ρ : Relabeling) : ρ.key true ρ.old = ρ.fresh := Equiv.swap_apply_left ..

theorem key_true_fresh (ρ : Relabeling) : ρ.key true ρ.fresh = ρ.old := Equiv.swap_apply_right ..

theorem lexeme_declared (h : token.lexeme ≠ ρ.fresh) :
    (ρ.declared own token).lexeme = ρ.key own token.lexeme := by
  unfold declared
  split
  · rename_i ho
    rw [ho.1, ho.2, key_true_old]
  · rename_i ho
    cases own with
    | false => rfl
    | true => exact (key_of_ne true (fun he => ho ⟨rfl, he⟩) h).symm

theorem lexeme_use (ρ : Relabeling) (node : Nat) (token : Token) :
    (ρ.use node token).lexeme = if node ∈ ρ.nodes then ρ.fresh else token.lexeme := by
  unfold use
  split <;> rfl

end Relabeling

namespace Expr

mutual

def relabel (ρ : Relabeling) : Expr → Expr
  | constant site value => constant site value
  | .name site token => .name site (ρ.use site.id token)
  | assign site token value => assign site (ρ.use site.id token) (relabel ρ value)
  | unary site op token operand => unary site op token (relabel ρ operand)
  | binary site op token left right => binary site op token (relabel ρ left) (relabel ρ right)
  | group site inner => group site (relabel ρ inner)
  | call site callee paren args => call site (relabel ρ callee) paren (relabelItems ρ args)
  | get site object member optional => get site (relabel ρ object) member optional
  | set site object member value => set site (relabel ρ object) member (relabel ρ value)
  | choose site branches otherwise =>
    choose site (relabelBranches ρ branches) (relabelOptional ρ otherwise)
  | lambda site params body => lambda site params (relabel ρ body)
  | list site items => list site (relabelItems ρ items)

def relabelItems (ρ : Relabeling) : List Expr → List Expr
  | [] => []
  | e :: es => relabel ρ e :: relabelItems ρ es

def relabelBranches (ρ : Relabeling) : List (Expr × Expr) → List (Expr × Expr)
  | [] => []
  | (condition, result) :: branches =>
    (relabel ρ condition, relabel ρ result) :: relabelBranches ρ branches

def relabelOptional (ρ : Relabeling) : Option Expr → Option Expr
  | none => none
  | some e => some (relabel ρ e)

end

@[simp] theorem site_relabel (ρ : Relabeling) (e : Expr) : (e.relabel ρ).site = e.site := by
  cases e <;> rfl

end Expr

namespace Stmt

mutual

def relabel (ρ : Relabeling) (own : Bool) : Stmt → Stmt
  | expr e => expr (e.relabel ρ)
  | declare name init => declare (ρ.declared own name) (Expr.relabelOptional ρ init)
  | block body => block (relabelBody ρ false body)
  | ifTrue condition body => ifTrue (condition.relabel ρ) (relabelBody ρ false body)
  | forEach element items body => forEach element (items.relabel ρ) (relabelBody ρ false body)
  | run e => run (e.relabel ρ)
  | verbatim item => verbatim item
  | insert keyword rewriter body => insert keyword (rewriter.relabel ρ) (relabelBody ρ false body)
  | rewrite keyword rewriter body =>
    rewrite keyword (rewriter.relabel ρ) (relabelBody ρ false body)

def relabelBody (ρ : Relabeling) (own : Bool) : List Stmt → List Stmt
  | [] => []
  | s :: ss => relabel ρ own s :: relabelBody ρ own ss

end

def entry : Stmt → NameScope
  | forEach element _ _ => [(element.lexeme, true)]
  | _ => []

def body (s : Stmt) : List Stmt := (Region.body s).statements

/-- The names that the scope of a statement declares: of a loop the variable, and what the
statements right in its body declare. -/
def ownNames (s : Stmt) : List String :=
  s.entry.map Prod.fst ++ s.body.filterMap fun
    | declare name _ => some name.lexeme
    | _ => none

mutual

def declaredNames : Stmt → List String
  | declare name _ => [name.lexeme]
  | forEach element _ body => element.lexeme :: declaredNamesOfBody body
  | block body | ifTrue _ body | insert _ _ body | rewrite _ _ body => declaredNamesOfBody body
  | _ => []

def declaredNamesOfBody : List Stmt → List String
  | [] => []
  | s :: ss => declaredNames s ++ declaredNamesOfBody ss

end

end Stmt

def Expr.ownNames : Expr → List String
  | .name _ token | .assign _ token _ => [token.lexeme]
  | .lambda _ params _ => params.map Token.lexeme
  | _ => []

def Program.names (p : Program) : List String :=
  p.nodes.flatMap Expr.ownNames ++ Stmt.declaredNamesOfBody p.body

end DocTemplate
