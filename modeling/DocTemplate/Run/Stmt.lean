import DocTemplate.Program.Basic
import DocTemplate.Run.Expr

namespace DocTemplate

namespace Run

/-- The values that a loop visits: the elements of a list, or the entries of a map as they are at
the start of the loop, each as a new map. -/
def loopItems (element : Token) : Value → Run (List Value)
  | .list items => pure items
  | .map cell => do
    let entries ← read fun s => s.entries cell
    entries.toList.mapM fun (key, value) =>
      update fun s => s.newMap (.ofList [("key", .str key), ("value", value)])
  | v => fail element (.notIterable v.typeName)

def rewriteBody (ctx : Context) (keyword : Token) (r : RewriterRef) (body : List OutputToken) :
    Run (List OutputToken) :=
  match ctx.host.rewrite r.kind body with
  | .ok tokens => pure tokens
  | .error message => fail keyword (.host message)

def copy : StreamItem → Run (List OutputToken)
  | .raw token => pure [.raw token]
  | .sentinel => pure [.sentinel]
  | .group _ => throw (.fault ⟨.looseGroup, .point 0, ""⟩)

mutual

def exec (ctx : Context) (call : Invoke) : Stmt → Nat → Run (List OutputToken)
  | .expr e, scope => do
    let v ← eval ctx call e scope
    return [.text (← observe fun s => s.outputText? v)]
  | .declare name init, scope => do
    let v ← evalOrNull ctx call init scope
    change fun s => s.define scope name.lexeme v
    return []
  | .block body, scope => do execAll ctx call body (← innerScope scope []) []
  | .ifTrue condition body, scope => do
    let v ← eval ctx call condition scope
    if ← isTruthy v then execAll ctx call body (← innerScope scope []) [] else return []
  | .forEach element items body, scope => do
    let v ← eval ctx call items scope
    let turns ← (← loopItems element v).mapM fun item => do
      execAll ctx call body (← innerScope scope [(element.lexeme, item)]) []
    return turns.flatten
  | .run e, scope => do
    let _ ← eval ctx call e scope
    return []
  | .verbatim item, _ => copy item
  | .insert keyword target body, scope | .rewrite keyword target body, scope => do
    match ← eval ctx call target scope with
    | .null => execAll ctx call body (← innerScope scope []) []
    | .rewriter r =>
      rewriteBody ctx keyword r (← execAll ctx call body (← innerScope scope []) [])
    | _ => fail keyword (.noRewriter keyword.lexeme)

/-- Statements one after another. `done` is what was written before them, last part first. -/
def execAll (ctx : Context) (call : Invoke) :
    List Stmt → Nat → List (List OutputToken) → Run (List OutputToken)
  | [], _, done => pure done.reverse.flatten
  | s :: ss, scope, done => do
    let tokens ← exec ctx call s scope
    execAll ctx call ss scope (tokens :: done)

end

end Run

end DocTemplate
