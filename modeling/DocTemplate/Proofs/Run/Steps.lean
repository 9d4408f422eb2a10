import DocTemplate.Proofs.Scope.Agreement
import DocTemplate.Run.Parallel

namespace DocTemplate

/-- The execution of an assignment to a property. `node` is the expression that assigns. -/
structure Assignment where
  node : Expr
  object : Value
  name : String
  value : Value
  succeeds : Bool
  deriving Repr

inductive Step where
  /-- An expression gives a value. -/
  | give (v : Value) (store : Store)
  /-- A property is assigned, or cannot be. -/
  | set (a : Assignment) (before after : Store)
  /-- Something else is done. -/
  | other (before after : Store)
  deriving Repr

namespace Step

def before : Step → Store
  | give _ s => s
  | set _ s _ => s
  | other s _ => s

def after : Step → Store
  | give _ s => s
  | set _ _ s => s
  | other _ s => s

end Step

/-- The steps lead from one store to another one. -/
def Linked : Store → List Step → Store → Prop
  | s, [], s' => s = s'
  | s, step :: steps, s' => step.before = s ∧ Linked step.after steps s'

namespace Run

variable {α : Type}

def after (x : Run α) (first : Store → List Step) (next : α → Store → List Step) (s : Store) :
    List Step :=
  first s ++
    match x.outcome s with
    | (.ok a, s') => next a s'
    | (.error _, _) => []

def single (x : Run α) (s : Store) : List Step := [.other s (x.outcome s).2]

def giving (x : Run Value) (first : Store → List Step) (next : Value → Store → List Step) :
    Store → List Step :=
  after x first fun v s => .give v s :: next v s

def setting (host : Host) (node : Expr) (object : Value) (name : String) (v : Value) (s : Store) :
    List Step :=
  let (result, s') := (setProperty host object name v).outcome s
  [.set ⟨node, object, name, v, result.isOk⟩ s s']

abbrev CallSteps := Value → List Value → Store → List Step

def nativeSteps (call : Invoke) (callSteps : CallSteps) : NativeProgram → Store → List Step
  | .done _ => fun _ => []
  | .change f next => fun s => .other s (f s) :: nativeSteps call callSteps (next s) (f s)
  | .call f args next => fun s =>
    callSteps f args s ++
      nativeSteps call callSteps (next ((call f args).outcome s).1) ((call f args).outcome s).2

def pipedSteps (callSteps : CallSteps) (f : Value) (args : List Value) : Store → List Step :=
  if f.isCallable then callSteps f args else fun _ => []

def barePipedSteps (callSteps : CallSteps) (f arg : Value) : Store → List Step :=
  match leastArgs? f with
  | some (_ + 1) => pipedSteps callSteps f [arg]
  | _ => fun _ => []

mutual

def steps (ctx : Context) (call : Invoke) (callSteps : CallSteps) :
    Expr → Nat → Store → List Step
  | .constant _ _, _ | .lambda _ _ _, _ => fun _ => []
  | .name site token, scope => single (lookup ctx site.id token scope)
  | .assign site token value, scope =>
    giving (eval ctx call value scope) (steps ctx call callSteps value scope) fun v =>
      single (assign ctx site.id token v scope)
  | .unary _ .neg token operand, scope =>
    giving (eval ctx call operand scope) (steps ctx call callSteps operand scope) fun v =>
      single (boundTo token (ofExcept v.negate))
  | .unary _ .not _ operand, scope =>
    giving (eval ctx call operand scope) (steps ctx call callSteps operand scope) fun v =>
      single (isTruthy v)
  | .binary _ .pipe _ left right, scope =>
    giving (eval ctx call left scope) (steps ctx call callSteps left scope) fun v =>
      match right with
      | .call _ callee _ args =>
        giving (eval ctx call callee scope) (steps ctx call callSteps callee scope) fun f =>
          after (evalAll ctx call args scope) (stepsOfAll ctx call callSteps args scope) fun args =>
            pipedSteps callSteps f (v :: args)
      | target =>
        giving (eval ctx call target scope) (steps ctx call callSteps target scope) fun f =>
          barePipedSteps callSteps f v
  | .binary _ .coalesce _ left right, scope =>
    giving (eval ctx call left scope) (steps ctx call callSteps left scope) fun v =>
      if v.isNull then steps ctx call callSteps right scope else fun _ => []
  | .binary _ .or _ left right, scope =>
    giving (eval ctx call left scope) (steps ctx call callSteps left scope) fun v =>
      after (isTruthy v) (single (isTruthy v)) fun b =>
        if b then fun _ => [] else steps ctx call callSteps right scope
  | .binary _ .and _ left right, scope =>
    giving (eval ctx call left scope) (steps ctx call callSteps left scope) fun v =>
      after (isTruthy v) (single (isTruthy v)) fun b =>
        if b then steps ctx call callSteps right scope else fun _ => []
  | .binary _ (.binary op) token left right, scope =>
    giving (eval ctx call left scope) (steps ctx call callSteps left scope) fun l =>
      giving (eval ctx call right scope) (steps ctx call callSteps right scope) fun r =>
        single (boundTo token (binary op l r))
  | .group _ inner, scope => steps ctx call callSteps inner scope
  | .call _ callee _ args, scope =>
    giving (eval ctx call callee scope) (steps ctx call callSteps callee scope) fun f =>
      after (evalAll ctx call args scope) (stepsOfAll ctx call callSteps args scope) fun args =>
        callSteps f args
  | .get _ object name optional, scope =>
    giving (eval ctx call object scope) (steps ctx call callSteps object scope) fun v =>
      if optional && v.isNull then fun _ => []
      else single (boundTo name (getProperty ctx.host v name.lexeme))
  | node@(.set _ object name value), scope =>
    giving (eval ctx call object scope) (steps ctx call callSteps object scope) fun target =>
      giving (eval ctx call value scope) (steps ctx call callSteps value scope) fun v =>
        setting ctx.host node target name.lexeme v
  | .choose _ branches otherwise, scope =>
    after (evalBranches ctx call branches scope)
        (stepsOfBranches ctx call callSteps branches scope) fun
      | some _ => fun _ => []
      | none => stepsOfOptional ctx call callSteps otherwise scope
  | .list _ items, scope => stepsOfAll ctx call callSteps items scope

def stepsOfAll (ctx : Context) (call : Invoke) (callSteps : CallSteps) :
    List Expr → Nat → Store → List Step
  | [], _ => fun _ => []
  | e :: es, scope =>
    giving (eval ctx call e scope) (steps ctx call callSteps e scope) fun _ =>
      stepsOfAll ctx call callSteps es scope

def stepsOfBranches (ctx : Context) (call : Invoke) (callSteps : CallSteps) :
    List (Expr × Expr) → Nat → Store → List Step
  | [], _ => fun _ => []
  | (condition, result) :: branches, scope =>
    giving (eval ctx call condition scope) (steps ctx call callSteps condition scope) fun v =>
      after (isTruthy v) (single (isTruthy v)) fun b =>
        if b then steps ctx call callSteps result scope
        else stepsOfBranches ctx call callSteps branches scope

def stepsOfOptional (ctx : Context) (call : Invoke) (callSteps : CallSteps) :
    Option Expr → Nat → Store → List Step
  | none, _ => fun _ => []
  | some e, scope => steps ctx call callSteps e scope

end

def applySteps (ctx : Context) (programs : Nat → List Value → NativeProgram) : Nat → CallSteps
  | 0, _, _ => fun _ => []
  | depth + 1, f, args =>
    match f with
    | .function closure =>
      if args.length = closure.params.length then
        let enter := innerScope closure.scope (closure.params.zip args)
        after enter (single enter) fun scope =>
          giving (eval ctx (apply ctx depth) closure.body scope)
            (steps ctx (apply ctx depth) (applySteps ctx programs depth) closure.body scope)
            fun _ _ => []
      else fun _ => []
    | .native f =>
      if f.arity.accepts args.length then
        nativeSteps (apply ctx depth) (applySteps ctx programs depth)
          (f.program ctx.settings programs args)
      else fun _ => []
    | _ => fun _ => []

def turnSteps (turn : Value → Run (List OutputToken)) (stepsOfTurn : Value → Store → List Step)
    (items : List Value) : List Nat → Store → List Step
  | [] => fun _ => []
  | i :: order =>
    match items[i]? with
    | some item => after (turn item) (stepsOfTurn item) fun _ =>
        turnSteps turn stepsOfTurn items order
    | none => turnSteps turn stepsOfTurn items order

mutual

def execSteps (schedule : Schedule) (ctx : Context) (call : Invoke) (callSteps : CallSteps) :
    Stmt → Nat → Store → List Step
  | .expr e, scope =>
    giving (eval ctx call e scope) (steps ctx call callSteps e scope) fun v =>
      single (observe fun s => s.outputText? v)
  | .declare name init, scope =>
    giving (evalOrNull ctx call init scope) (stepsOfOptional ctx call callSteps init scope) fun v =>
      single (change fun s => s.define scope name.lexeme v)
  | .block body, scope =>
    after (innerScope scope []) (single (innerScope scope [])) fun inner =>
      execAllSteps schedule ctx call callSteps body inner
  | .ifTrue condition body, scope =>
    giving (eval ctx call condition scope) (steps ctx call callSteps condition scope) fun v =>
      after (isTruthy v) (single (isTruthy v)) fun b =>
        if b then
          after (innerScope scope []) (single (innerScope scope [])) fun inner =>
            execAllSteps schedule ctx call callSteps body inner
        else fun _ => []
  | .forEach element items body, scope =>
    giving (eval ctx call items scope) (steps ctx call callSteps items scope) fun v =>
      after (loopItems element v) (single (loopItems element v)) fun items s =>
        turnSteps
          (fun item => do
            execAllIn schedule ctx call body (← innerScope scope [(element.lexeme, item)]) [])
          (fun item =>
            after (innerScope scope [(element.lexeme, item)])
                (single (innerScope scope [(element.lexeme, item)])) fun inner =>
              execAllSteps schedule ctx call callSteps body inner)
          items (schedule.order s items.length) s
  | .run e, scope =>
    giving (eval ctx call e scope) (steps ctx call callSteps e scope) fun _ _ => []
  | .verbatim _, _ => fun _ => []
  | .insert _ target body, scope | .rewrite _ target body, scope =>
    giving (eval ctx call target scope) (steps ctx call callSteps target scope) fun
      | .null | .rewriter _ =>
        after (innerScope scope []) (single (innerScope scope [])) fun inner =>
          execAllSteps schedule ctx call callSteps body inner
      | _ => fun _ => []

def execAllSteps (schedule : Schedule) (ctx : Context) (call : Invoke) (callSteps : CallSteps) :
    List Stmt → Nat → Store → List Step
  | [], _ => fun _ => []
  | s :: ss, scope =>
    after (execIn schedule ctx call s scope) (execSteps schedule ctx call callSteps s scope)
      fun _ => execAllSteps schedule ctx call callSteps ss scope

end

end Run

def Program.stepsIn (p : Program) (schedule : Schedule) (around : Surroundings)
    (programs : Nat → List Value → NativeProgram) (data : List (String × Value)) (store : Store) :
    List Step :=
  match resolveNames p (globalNames data) with
  | .ok resolution =>
    let ctx := context around resolution store
    let start := startStore data store
    let body := Run.execAllIn schedule ctx (Run.apply ctx around.depth) p.body ctx.globals []
    let left := (body.outcome start).2
    .other store start ::
      Run.execAllSteps schedule ctx (Run.apply ctx around.depth)
          (Run.applySteps ctx programs around.depth) p.body ctx.globals start ++
        [.other left (left.release ctx.globals)]
  | .error _ => []

end DocTemplate
