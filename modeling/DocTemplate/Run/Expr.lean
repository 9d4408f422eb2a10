import DocTemplate.Builtin.Call
import DocTemplate.Program.Resolve
import DocTemplate.Run.Operator
import DocTemplate.Run.Property
import DocTemplate.Value.Scope

namespace DocTemplate

/-- What a run does not change. -/
structure Context where
  resolution : Resolution
  host : Host
  settings : Settings
  /-- The scope outside of all others. -/
  globals : Nat

namespace Run

def fail {α : Type} (token : Token) (cause : RunCause) : Run α :=
  throw (.fault (token.fault cause))

def isTruthy (v : Value) : Run Bool := read fun s => s.isTruthy v

def innerScope (outer : Nat) (names : List (String × Value)) : Run Nat :=
  update fun s =>
    let (scope, s) := s.newScope (some outer)
    (scope, s.defineAll scope names)

/-- A name is local, at the distance that was resolved for its node, or else global. -/
def lookup (ctx : Context) (node : Nat) (name : Token) (scope : Nat) : Run Value := do
  let found ← read fun s =>
    match ctx.resolution.get? node with
    | some distance => s.lookupAt? scope distance name.lexeme
    | none => s.lookup? ctx.globals name.lexeme
  match found with
  | some v => pure v
  | none => fail name (.undefinedName name.lexeme)

def assign (ctx : Context) (node : Nat) (name : Token) (v : Value) (scope : Nat) : Run Unit := do
  let known ← update fun s =>
    match ctx.resolution.get? node with
    | some distance => s.assignAt scope distance name.lexeme v
    | none => s.assign ctx.globals name.lexeme v
  if known then pure () else fail name (.undefinedName name.lexeme)

def callPiped (call : Invoke) (pipe : Token) (f : Value) (args : List Value) : Run Value :=
  if f.isCallable then boundTo pipe (call f args) else fail pipe (.call .noPipeTarget)

/-- The least count of arguments that a function takes. -/
def leastArgs? : Value → Option Nat
  | .function closure => some closure.params.length
  | .native f => some f.arity.least
  | _ => none

def callBarePiped (call : Invoke) (pipe : Token) (f : Value) (arg : Value) : Run Value :=
  match leastArgs? f with
  | some 0 => fail pipe (.call (.noPipeParameter 0))
  | some _ => callPiped call pipe f [arg]
  | none => fail pipe (.call .noPipeTarget)

mutual

def eval (ctx : Context) (call : Invoke) : Expr → Nat → Run Value
  | .constant _ value, _ => pure (.ofConstant value)
  | .name site token, scope => lookup ctx site.id token scope
  | .assign site token value, scope => do
    let v ← eval ctx call value scope
    assign ctx site.id token v scope
    return v
  | .unary _ .neg token operand, scope => do
    let v ← eval ctx call operand scope
    boundTo token (ofExcept v.negate)
  | .unary _ .not _ operand, scope => do
    let v ← eval ctx call operand scope
    return .bool (!(← isTruthy v))
  | .binary _ .pipe token left right, scope => do
    let v ← eval ctx call left scope
    match right with
    | .call _ callee _ args =>
      let f ← eval ctx call callee scope
      let args ← evalAll ctx call args scope
      callPiped call token f (v :: args)
    | target =>
      let f ← eval ctx call target scope
      callBarePiped call token f v
  | .binary _ .coalesce _ left right, scope => do
    let v ← eval ctx call left scope
    if v.isNull then eval ctx call right scope else return v
  | .binary _ .or _ left right, scope => do
    let v ← eval ctx call left scope
    if ← isTruthy v then return v else eval ctx call right scope
  | .binary _ .and _ left right, scope => do
    let v ← eval ctx call left scope
    if ← isTruthy v then eval ctx call right scope else return v
  | .binary _ (.binary op) token left right, scope => do
    let l ← eval ctx call left scope
    let r ← eval ctx call right scope
    boundTo token (binary op l r)
  | .group _ inner, scope => eval ctx call inner scope
  | .call _ callee paren args, scope => do
    let f ← eval ctx call callee scope
    let args ← evalAll ctx call args scope
    boundTo paren (call f args)
  | .get _ object name optional, scope => do
    let v ← eval ctx call object scope
    if optional && v.isNull then return .null
    else boundTo name (getProperty ctx.host v name.lexeme)
  | .set _ object name value, scope => do
    let target ← eval ctx call object scope
    let v ← eval ctx call value scope
    boundTo name (setProperty ctx.host target name.lexeme v)
    return v
  | .choose _ branches otherwise, scope => do
    match ← evalBranches ctx call branches scope with
    | some v => return v
    | none => evalOrNull ctx call otherwise scope
  | .lambda _ params body, scope => pure (.function ⟨params.map Token.lexeme, body, scope⟩)
  | .list _ items, scope => do return .list (← evalAll ctx call items scope)

def evalAll (ctx : Context) (call : Invoke) : List Expr → Nat → Run (List Value)
  | [], _ => pure []
  | e :: es, scope => do
    let v ← eval ctx call e scope
    let vs ← evalAll ctx call es scope
    return v :: vs

/-- The result of the first branch whose condition counts as true. -/
def evalBranches (ctx : Context) (call : Invoke) :
    List (Expr × Expr) → Nat → Run (Option Value)
  | [], _ => pure none
  | (condition, result) :: branches, scope => do
    let v ← eval ctx call condition scope
    if ← isTruthy v then return some (← eval ctx call result scope)
    else evalBranches ctx call branches scope

def evalOrNull (ctx : Context) (call : Invoke) : Option Expr → Nat → Run Value
  | none, _ => pure .null
  | some e, scope => eval ctx call e scope

end

/-- Calls a function value. Calls may lie `depth` deep in one another; a computation that goes
deeper counts as endless. -/
def apply (ctx : Context) : Nat → Invoke
  | 0, _, _ => throw .endless
  | depth + 1, f, args =>
    match f with
    | .function closure =>
      if args.length = closure.params.length then do
        let scope ← innerScope closure.scope (closure.params.zip args)
        eval ctx (apply ctx depth) closure.body scope
      else raise (.call (.wrongCount (.exactly closure.params.length) args.length))
    | .native f =>
      if f.arity.accepts args.length then
        match f with
        | .builtin b => b.call ctx.settings (apply ctx depth) args
        | .host f => ctx.host.functions f.number (apply ctx depth) args
      else raise (.call (.wrongCount f.arity args.length))
    | _ => raise (.call .notCallable)

end Run

end DocTemplate
