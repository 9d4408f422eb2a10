import DocTemplate.Diagnostic
import DocTemplate.Expr.Parse
import DocTemplate.Program.Basic

namespace DocTemplate

inductive ScopeCause where
  | redeclared (name : String)
  | ownInitializer (name : String)
  | duplicateParameter (name : String)
  deriving DecidableEq, Repr

def ScopeCause.message : ScopeCause → String
  | redeclared name => s!"Variable '{name}' is already declared in this scope."
  | ownInitializer name => s!"Can't read local variable '{name}' in its own initializer."
  | duplicateParameter name => s!"Duplicate parameter '{name}'."

abbrev ScopeFault := Fault ScopeCause

/-- The names that a scope declares. A name is not ready while its initializer is read. -/
abbrev NameScope := List (String × Bool)

namespace NameScope

def declares (scope : NameScope) (name : String) : Bool := scope.any (·.1 == name)

/-- The innermost entry of a name tells whether it is ready. -/
def ready? (scope : NameScope) (name : String) : Option Bool := scope.lookup name

def put (scope : NameScope) (name : String) (ready : Bool) : NameScope := (name, ready) :: scope

end NameScope

/-- For each node the number of scopes to go out from it, when it names a local variable. -/
structure Resolution where
  hops : Array (Option Nat)
  deriving DecidableEq, Repr, Inhabited

namespace Resolution

def get? (r : Resolution) (node : Nat) : Option Nat := r.hops[node]?.join

def size (r : Resolution) : Nat := (r.hops.toList.filter Option.isSome).length

end Resolution

/-- The local scopes, innermost first, the global one, and what is recorded so far. -/
structure Resolver where
  locals : List NameScope
  globals : NameScope
  hops : Array (Option Nat)
  deriving Repr

namespace Resolver

/-- The distance of the nearest scope that declares the name. -/
def distance? (name : String) : List NameScope → Option Nat
  | [] => none
  | scope :: scopes =>
    if scope.declares name then some 0 else (distance? name scopes).map (· + 1)

def record (r : Resolver) (node : Nat) (name : String) : Resolver :=
  { r with hops := r.hops.modify node fun _ => distance? name r.locals }

def put (r : Resolver) (name : String) (ready : Bool) : Resolver :=
  match r.locals with
  | scope :: scopes => { r with locals := scope.put name ready :: scopes }
  | [] => { r with globals := r.globals.put name ready }

/-- Global names can be declared again, and read meanwhile. -/
def declare (r : Resolver) (name : Token) : Except ScopeFault Resolver :=
  match r.locals with
  | scope :: _ =>
    if scope.declares name.lexeme then .error (name.fault (.redeclared name.lexeme))
    else .ok (r.put name.lexeme false)
  | [] => .ok r

def define (r : Resolver) (name : String) : Resolver := r.put name true

def enter (r : Resolver) : Resolver := { r with locals := [] :: r.locals }

def leave (r : Resolver) : Resolver := { r with locals := r.locals.tail }

def isBeingDeclared (r : Resolver) (name : String) : Bool :=
  match r.locals with
  | scope :: _ => scope.ready? name == some false
  | [] => false

def addParams (r : Resolver) : List Token → Except ScopeFault Resolver
  | [] => .ok r
  | p :: params =>
    match r.locals with
    | scope :: _ =>
      if scope.declares p.lexeme then .error (p.fault (.duplicateParameter p.lexeme))
      else addParams (r.define p.lexeme) params
    | [] => addParams (r.define p.lexeme) params

mutual

def resolveExpr : Expr → Resolver → Except ScopeFault Resolver
  | .constant _ _, r => .ok r
  | .name site token, r =>
    if r.isBeingDeclared token.lexeme then .error (token.fault (.ownInitializer token.lexeme))
    else .ok (r.record site.id token.lexeme)
  | .assign site token value, r => do
    let r ← resolveExpr value r
    return r.record site.id token.lexeme
  | .unary _ _ _ operand, r => resolveExpr operand r
  | .binary _ _ _ left right, r => do
    let r ← resolveExpr left r
    resolveExpr right r
  | .group _ inner, r => resolveExpr inner r
  | .call _ callee _ args, r => do
    let r ← resolveExpr callee r
    resolveExprs args r
  | .get _ object _ _, r => resolveExpr object r
  | .set _ object _ value, r => do
    let r ← resolveExpr value r
    resolveExpr object r
  | .choose _ branches otherwise, r => do
    let r ← resolveBranches branches r
    resolveOptional otherwise r
  | .lambda _ params body, r => do
    let r ← r.enter.addParams params
    let r ← resolveExpr body r
    return r.leave
  | .list _ items, r => resolveExprs items r

def resolveExprs : List Expr → Resolver → Except ScopeFault Resolver
  | [], r => .ok r
  | e :: es, r => do
    let r ← resolveExpr e r
    resolveExprs es r

def resolveBranches : List (Expr × Expr) → Resolver → Except ScopeFault Resolver
  | [], r => .ok r
  | (condition, result) :: branches, r => do
    let r ← resolveExpr condition r
    let r ← resolveExpr result r
    resolveBranches branches r

def resolveOptional : Option Expr → Resolver → Except ScopeFault Resolver
  | none, r => .ok r
  | some e, r => resolveExpr e r

end

mutual

def resolveStmt : Stmt → Resolver → Except ScopeFault Resolver
  | .expr e, r => resolveExpr e r
  | .run e, r => resolveExpr e r
  | .declare name init, r => do
    let r ← r.declare name
    let r ← resolveOptional init r
    return r.define name.lexeme
  | .block body, r => do
    let r ← resolveStmts body r.enter
    return r.leave
  | .ifTrue condition body, r => do
    let r ← resolveExpr condition r
    let r ← resolveStmts body r.enter
    return r.leave
  | .forEach element items body, r => do
    let r ← resolveExpr items r
    let r ← resolveStmts body (r.enter.define element.lexeme)
    return r.leave
  | .insert _ rewriter body, r => do
    let r ← resolveExpr rewriter r
    let r ← resolveStmts body r.enter
    return r.leave
  | .rewrite _ rewriter body, r => do
    let r ← resolveExpr rewriter r
    let r ← resolveStmts body r.enter
    return r.leave
  | .verbatim _, r => .ok r

def resolveStmts : List Stmt → Resolver → Except ScopeFault Resolver
  | [], r => .ok r
  | s :: ss, r => do
    let r ← resolveStmt s r
    resolveStmts ss r

end

end Resolver

def resolve (program : Program) (globals : List String) : Except ScopeFault Resolution := do
  let start : Resolver :=
    ⟨[], globals.map (·, true), Array.replicate program.nodeCount none⟩
  let r ← Resolver.resolveStmts program.body start
  return ⟨r.hops⟩

end DocTemplate
