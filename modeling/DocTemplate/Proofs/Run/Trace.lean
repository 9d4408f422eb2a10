import DocTemplate.Proofs.Run.Native
import DocTemplate.Proofs.Scope.Visit
import DocTemplate.Template.Render

namespace DocTemplate

/-- A node that is about to read or assign a name in a scope, and what the store is then. -/
structure Use where
  node : Nat
  name : String
  scope : Nat
  store : Store

inductive Event where
  /-- A scope was made for a region. -/
  | enter (region : Region) (scope : Nat)
  | use (u : Use)

/-- Computations of a run that log, last entry first. -/
abbrev Traced := ExceptT Stop (StateM (Store × List Event))

namespace Traced

variable {α β : Type}

def outcome (t : Traced α) (s : Store) (log : List Event) : Except Stop α × Store × List Event :=
  t (s, log)

def ofRun (x : Run α) : Traced α :=
  fun (s, log) => ((x.outcome s).1, (x.outcome s).2, log)

def emit (event : Store → Event) : Traced Unit :=
  fun (s, log) => (.ok (), s, event s :: log)

def boundTo (token : Token) (t : Traced α) : Traced α :=
  tryCatch t fun
    | .raised cause => throw (.fault (token.fault cause))
    | stop => throw stop

def innerScope (region : Region) (outer : Nat) (names : List (String × Value)) : Traced Nat := do
  let scope ← ofRun (Run.innerScope outer names)
  emit fun _ => .enter region scope
  return scope

def lookup (ctx : Context) (node : Nat) (name : Token) (scope : Nat) : Traced Value := do
  emit fun s => .use ⟨node, name.lexeme, scope, s⟩
  ofRun (Run.lookup ctx node name scope)

def assign (ctx : Context) (node : Nat) (name : Token) (v : Value) (scope : Nat) :
    Traced Unit := do
  emit fun s => .use ⟨node, name.lexeme, scope, s⟩
  ofRun (Run.assign ctx node name v scope)

end Traced

abbrev TracedInvoke := Value → List Value → Traced Value

def NativeProgram.trace (call : TracedInvoke) : NativeProgram → Traced Value
  | .done result => fun σ => (result, σ)
  | .change f next => fun (s, log) => trace call (next s) (f s, log)
  | .call f args next => fun (s, log) =>
    let (result, s, log) := (call f args).outcome s log
    trace call (next result) (s, log)

namespace Traced

def callPiped (call : TracedInvoke) (pipe : Token) (f : Value) (args : List Value) :
    Traced Value :=
  if f.isCallable then boundTo pipe (call f args)
  else ofRun (Run.fail pipe (.call .noPipeTarget))

def callBarePiped (call : TracedInvoke) (pipe : Token) (f : Value) (arg : Value) : Traced Value :=
  match Run.leastArgs? f with
  | some 0 => ofRun (Run.fail pipe (.call (.noPipeParameter 0)))
  | some _ => callPiped call pipe f [arg]
  | none => ofRun (Run.fail pipe (.call .noPipeTarget))

mutual

def eval (ctx : Context) (call : TracedInvoke) : Expr → Nat → Traced Value
  | .constant _ value, _ => pure (.ofConstant value)
  | .name site token, scope => lookup ctx site.id token scope
  | .assign site token value, scope => do
    let v ← eval ctx call value scope
    assign ctx site.id token v scope
    return v
  | .unary _ .neg token operand, scope => do
    let v ← eval ctx call operand scope
    ofRun (Run.boundTo token (Run.ofExcept v.negate))
  | .unary _ .not _ operand, scope => do
    let v ← eval ctx call operand scope
    return .bool (!(← ofRun (Run.isTruthy v)))
  | .binary _ .pipe token left right, scope => do
    let v ← eval ctx call left scope
    match right with
    | .call _ callee _ args =>
      let f ← eval ctx call callee scope
      let args ← evalAll ctx call args scope
      callPiped call token f (v :: args)
    | target =>
      let f ← eval ctx call target scope
      callBarePiped call token f v
  | .binary _ .coalesce _ left right, scope => do
    let v ← eval ctx call left scope
    if v.isNull then eval ctx call right scope else return v
  | .binary _ .or _ left right, scope => do
    let v ← eval ctx call left scope
    if ← ofRun (Run.isTruthy v) then return v else eval ctx call right scope
  | .binary _ .and _ left right, scope => do
    let v ← eval ctx call left scope
    if ← ofRun (Run.isTruthy v) then eval ctx call right scope else return v
  | .binary _ (.binary op) token left right, scope => do
    let l ← eval ctx call left scope
    let r ← eval ctx call right scope
    ofRun (Run.boundTo token (Run.binary op l r))
  | .group _ inner, scope => eval ctx call inner scope
  | .call _ callee paren args, scope => do
    let f ← eval ctx call callee scope
    let args ← evalAll ctx call args scope
    boundTo paren (call f args)
  | .get _ object name optional, scope => do
    let v ← eval ctx call object scope
    if optional && v.isNull then return .null
    else ofRun (Run.boundTo name (Run.getProperty ctx.host v name.lexeme))
  | .set _ object name value, scope => do
    let target ← eval ctx call object scope
    let v ← eval ctx call value scope
    ofRun (Run.boundTo name (Run.setProperty ctx.host target name.lexeme v))
    return v
  | .choose _ branches otherwise, scope => do
    match ← evalBranches ctx call branches scope with
    | some v => return v
    | none => evalOrNull ctx call otherwise scope
  | .lambda _ params body, scope => pure (.function ⟨params.map Token.lexeme, body, scope⟩)
  | .list _ items, scope => do return .list (← evalAll ctx call items scope)

def evalAll (ctx : Context) (call : TracedInvoke) : List Expr → Nat → Traced (List Value)
  | [], _ => pure []
  | e :: es, scope => do
    let v ← eval ctx call e scope
    let vs ← evalAll ctx call es scope
    return v :: vs

def evalBranches (ctx : Context) (call : TracedInvoke) :
    List (Expr × Expr) → Nat → Traced (Option Value)
  | [], _ => pure none
  | (condition, result) :: branches, scope => do
    let v ← eval ctx call condition scope
    if ← ofRun (Run.isTruthy v) then return some (← eval ctx call result scope)
    else evalBranches ctx call branches scope

def evalOrNull (ctx : Context) (call : TracedInvoke) : Option Expr → Nat → Traced Value
  | none, _ => pure .null
  | some e, scope => eval ctx call e scope

end

def apply (ctx : Context) (programs : Nat → List Value → NativeProgram) : Nat → TracedInvoke
  | 0, _, _ => throw .endless
  | depth + 1, f, args =>
    match f with
    | .function closure =>
      if args.length = closure.params.length then do
        let scope ← innerScope (.function closure.params closure.body) closure.scope
          (closure.params.zip args)
        eval ctx (apply ctx programs depth) closure.body scope
      else ofRun (Run.raise (.call (.wrongCount (.exactly closure.params.length) args.length)))
    | .native f =>
      if f.arity.accepts args.length then
        (f.program ctx.settings programs args).trace (apply ctx programs depth)
      else ofRun (Run.raise (.call (.wrongCount f.arity args.length)))
    | _ => ofRun (Run.raise (.call .notCallable))

mutual

def exec (ctx : Context) (call : TracedInvoke) : Stmt → Nat → Traced (List OutputToken)
  | .expr e, scope => do
    let v ← eval ctx call e scope
    return [.text (← ofRun (Run.observe fun s => s.outputText? v))]
  | .declare name init, scope => do
    let v ← evalOrNull ctx call init scope
    ofRun (Run.change fun s => s.define scope name.lexeme v)
    return []
  | s@(.block body), scope => do
    execAll ctx call body (← innerScope (.body s) scope []) []
  | s@(.ifTrue condition body), scope => do
    let v ← eval ctx call condition scope
    if ← ofRun (Run.isTruthy v) then execAll ctx call body (← innerScope (.body s) scope []) []
    else return []
  | s@(.forEach element items body), scope => do
    let v ← eval ctx call items scope
    let turns ← (← ofRun (Run.loopItems element v)).mapM fun item => do
      execAll ctx call body (← innerScope (.body s) scope [(element.lexeme, item)]) []
    return turns.flatten
  | .run e, scope => do
    let _ ← eval ctx call e scope
    return []
  | .verbatim item, _ => ofRun (Run.copy item)
  | s@(.insert keyword target body), scope | s@(.rewrite keyword target body), scope => do
    match ← eval ctx call target scope with
    | .null => execAll ctx call body (← innerScope (.body s) scope []) []
    | .rewriter r =>
      ofRun (Run.rewriteBody ctx keyword r
        (← execAll ctx call body (← innerScope (.body s) scope []) []))
    | _ => ofRun (Run.fail keyword (.noRewriter keyword.lexeme))

def execAll (ctx : Context) (call : TracedInvoke) :
    List Stmt → Nat → List (List OutputToken) → Traced (List OutputToken)
  | [], _, done => pure done.reverse.flatten
  | s :: ss, scope, done => do
    let tokens ← exec ctx call s scope
    execAll ctx call ss scope (tokens :: done)

end

end Traced

end DocTemplate
