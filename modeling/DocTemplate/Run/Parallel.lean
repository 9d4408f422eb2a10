import DocTemplate.Run.Stmt

namespace DocTemplate

/-- In which order loops run their turns. A loop of `count` turns that finds a store when they are
about to start runs them in the order `order store count`. A turn makes a scope, so loops that
have turns find different stores, and each is free to have an order of its own. -/
structure Schedule where
  order : Store → Nat → List Nat
  perm : ∀ store count, (order store count).Perm (List.range count)

namespace Schedule

def inOrder : Schedule := ⟨fun _ count => List.range count, fun _ _ => .refl _⟩

end Schedule

namespace Run

/-- Runs turns of a loop in some order; each replaces what its buffer holds. -/
def runTurns (turn : Value → Run (List OutputToken)) (items : List Value) :
    List Nat → List (List OutputToken) → Run (List (List OutputToken))
  | [], buffers => pure buffers
  | i :: order, buffers =>
    match items[i]? with
    | some item => do
      let tokens ← turn item
      runTurns turn items order (buffers.set i tokens)
    | none => runTurns turn items order buffers

mutual

def execIn (schedule : Schedule) (ctx : Context) (call : Invoke) :
    Stmt → Nat → Run (List OutputToken)
  | .expr e, scope => do
    let v ← eval ctx call e scope
    return [.text (← observe fun s => s.outputText? v)]
  | .declare name init, scope => do
    let v ← evalOrNull ctx call init scope
    change fun s => s.define scope name.lexeme v
    return []
  | .block body, scope => do execAllIn schedule ctx call body (← innerScope scope []) []
  | .ifTrue condition body, scope => do
    let v ← eval ctx call condition scope
    if ← isTruthy v then execAllIn schedule ctx call body (← innerScope scope []) []
    else return []
  | .forEach element items body, scope => do
    let v ← eval ctx call items scope
    let items ← loopItems element v
    let order ← read fun s => schedule.order s items.length
    let buffers ← runTurns
      (fun item => do
        execAllIn schedule ctx call body (← innerScope scope [(element.lexeme, item)]) [])
      items order (items.map fun _ => [])
    return buffers.flatten
  | .run e, scope => do
    let _ ← eval ctx call e scope
    return []
  | .verbatim item, _ => copy item
  | .insert keyword target body, scope | .rewrite keyword target body, scope => do
    match ← eval ctx call target scope with
    | .null => execAllIn schedule ctx call body (← innerScope scope []) []
    | .rewriter r =>
      rewriteBody ctx keyword r (← execAllIn schedule ctx call body (← innerScope scope []) [])
    | _ => fail keyword (.noRewriter keyword.lexeme)

def execAllIn (schedule : Schedule) (ctx : Context) (call : Invoke) :
    List Stmt → Nat → List (List OutputToken) → Run (List OutputToken)
  | [], _, done => pure done.reverse.flatten
  | s :: ss, scope, done => do
    let tokens ← execIn schedule ctx call s scope
    execAllIn schedule ctx call ss scope (tokens :: done)

end

end Run

end DocTemplate
