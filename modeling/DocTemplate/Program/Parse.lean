import DocTemplate.Expr.Parse
import DocTemplate.Program.Basic

namespace DocTemplate

/-- The first line of a block. -/
inductive BlockHead where
  | forEach (keyword element : Token) (items : Expr)
  | ifTrue (keyword : Token) (condition : Expr)
  | insert (keyword : Token) (rewriter : Expr)
  | rewrite (keyword : Token) (rewriter : Expr)
  deriving Repr, Inhabited

namespace BlockHead

/-- What the body of a block starts with: an insertion has a place where markup can be spliced
in. -/
def bodyStart : BlockHead → List Stmt
  | insert _ _ | rewrite _ _ => [.verbatim .sentinel]
  | _ => []

def toStmt (body : List Stmt) : BlockHead → Stmt
  | forEach _ element items => .forEach element items body
  | ifTrue _ condition => .ifTrue condition body
  | insert keyword rewriter => .insert keyword rewriter body
  | rewrite keyword rewriter => .rewrite keyword rewriter body

end BlockHead

namespace ParseState

def close (s : ParseState) (context : String) : Except ParseFault ParseState :=
  if s.kind = .closing then .ok s.advance
  else .error (s.current.fault (.closing s.closer context))

end ParseState

/-- A group is the first line of a block, or a statement of its own. -/
inductive GroupForm where
  | head (h : BlockHead)
  | stmt (s : Stmt)
  deriving Repr, Inhabited

def parseForHead (s : ParseState) : Except ParseFault (GroupForm × ParseState) := do
  let keyword := s.current
  let (element, s) ← s.advance.expect .identifier .loopVariable
  let (_, s) ← s.expect (.keyword .inside) .insideKeyword
  let (items, s) ← s.expr
  let s ← s.close "after the loop header"
  return (.head (.forEach keyword element items), s)

def parseIfHead (s : ParseState) : Except ParseFault (GroupForm × ParseState) := do
  let keyword := s.current
  let (condition, s) ← s.advance.expr
  let s ← s.close "after the 'if' condition"
  return (.head (.ifTrue keyword condition), s)

def parseRewriteHead (head : Token → Expr → BlockHead) (s : ParseState) :
    Except ParseFault (GroupForm × ParseState) := do
  let keyword := s.current
  let (rewriter, s) ← s.advance.expr
  let s ← s.close s!"after '{keyword.lexeme}' target"
  return (.head (head keyword rewriter), s)

def parseDeclaration (s : ParseState) : Except ParseFault (GroupForm × ParseState) := do
  let (name, s) ← s.advance.expect .identifier .variableName
  let (init, s) ←
    if s.kind = .equal then do
      let (e, s) ← s.advance.expr
      pure (some e, s)
    else pure (none, s)
  let s ← s.close "after variable declaration"
  return (.stmt (.declare name init), s)

/-- Reads a group that is no `end`, from after its opening delimiter on. -/
def parseForm (s : ParseState) : Except ParseFault (GroupForm × ParseState) :=
  match s.kind with
  | .keyword .forEach => parseForHead s
  | .keyword .ifTrue => parseIfHead s
  | .keyword .insert => parseRewriteHead .insert s
  | .keyword .rewrite => parseRewriteHead .rewrite s
  | .keyword .declare => parseDeclaration s
  | .keyword .run => do
    let (e, s) ← s.advance.expr
    let s ← s.close "after 'do' expression"
    return (.stmt (.run e), s)
  | _ => do
    let (e, s) ← s.expr
    let s ← s.close "after expression"
    return (.stmt (.expr e), s)

def Group.parse {α : Type} (g : Group) (nextId : Nat)
    (read : ParseState → Except ParseFault (α × ParseState)) : Except ParseFault (α × Nat) := do
  let (_, s) ← (ParseState.enter g.tokens nextId).expect .opening .groupStart
  let (a, s) ← read s
  return (a, s.nextId)

def parseEnd (s : ParseState) : Except ParseFault (Token × ParseState) := do
  let (keyword, s) ← s.expect (.keyword .finish) .endKeyword
  let s ← s.close "after 'end'"
  return (keyword, s)

/-- A block whose `end` has not come yet: its group, its first line, and its statements so far,
the last one first. -/
structure OpenBlock where
  group : Group
  head : BlockHead
  body : List Stmt
  deriving Repr

/-- The blocks that are open, innermost first, and the statements outside of them, last one
first. -/
structure ProgramState where
  blocks : List OpenBlock
  done : List Stmt
  nextId : Nat
  deriving Repr

namespace ProgramState

def push (p : ProgramState) (s : Stmt) : ProgramState :=
  match p.blocks with
  | b :: blocks => { p with blocks := { b with body := s :: b.body } :: blocks }
  | [] => { p with done := s :: p.done }

def step (groups : Groups) (p : ProgramState) (item : StreamItem) :
    Except ParseFault ProgramState := do
  match item with
  | .group id =>
    let g := groups.lookup id
    if g.kind = .finish then
      let (keyword, nextId) ← g.parse p.nextId parseEnd
      match p.blocks with
      | [] => throw (keyword.fault .strayEnd)
      | b :: blocks =>
        return { p with blocks, nextId }.push (b.head.toStmt b.body.reverse)
    else
      let (form, nextId) ← g.parse p.nextId parseForm
      match form with
      | .head h => return { p with blocks := ⟨g, h, h.bodyStart⟩ :: p.blocks, nextId }
      | .stmt s => return { p with nextId }.push s
  | item => return p.push (.verbatim item)

/-- All blocks have to be closed at the end. -/
def finish (p : ProgramState) : Except ParseFault Program :=
  match p.blocks with
  | [] => .ok ⟨p.done.reverse, p.nextId⟩
  | b :: _ =>
    match b.group.head? with
    | some keyword => .error (keyword.fault (.missingEnd keyword.lexeme))
    | none => .ok ⟨p.done.reverse, p.nextId⟩

end ProgramState

def parseProgram (stream : TemplateStream) : Except ParseFault Program := do
  let p ← stream.items.foldlM (ProgramState.step stream.groups) ⟨[], [], 0⟩
  p.finish

end DocTemplate
