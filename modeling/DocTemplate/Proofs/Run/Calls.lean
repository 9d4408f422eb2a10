import Mathlib.Data.List.Forall2
import DocTemplate.Proofs.Run.Keeping

namespace DocTemplate

/-- How a computation fails, without what is said about it. -/
inductive Failure where
  | failed
  | endless
  deriving DecidableEq, Repr

def Stop.toFailure : Stop → Failure
  | raised _ | fault _ => .failed
  | endless => .endless

namespace Run

variable {α : Type} {s : Store}

def effect (x : Run α) (s : Store) : Except Failure α × Store :=
  ((x.outcome s).1.mapError Stop.toFailure, (x.outcome s).2)

theorem effect_boundTo (token : Token) (x : Run α) : effect (boundTo token x) s = effect x s := by
  rw [effect, effect, outcome_boundTo]
  cases x.outcome s with
  | mk r s' =>
    cases r with
    | ok a => rfl
    | error stop => cases stop <;> rfl

theorem effect_fail (token : Token) (cause : RunCause) :
    effect (fail token cause : Run α) s = (.error .failed, s) := rfl

theorem effect_raise (cause : RunCause) : effect (raise cause : Run α) s = (.error .failed, s) :=
  rfl

end Run

namespace Value

inductive Callable : Value → Prop
  | function (closure : Closure) : Callable (.function closure)
  | native (f : Native) : Callable (.native f)

theorem Callable.isCallable {f : Value} (h : f.Callable) : f.isCallable = true := by
  cases h <;> rfl

def accepts (f : Value) (count : Nat) : Bool :=
  match f with
  | function closure => count == closure.params.length
  | native f => f.arity.accepts count
  | _ => false

end Value

def Expr.isCall : Expr → Bool
  | call .. => true
  | _ => false

namespace Run

variable {ctx : Context} {call : Invoke} {depth scope : Nat} {s : Store} {f a : Value}
  {args : List Value}

theorem exists_leastArgs (hf : f.Callable) : ∃ least, leastArgs? f = some least := by
  cases hf with
  | function closure => exact ⟨_, rfl⟩
  | native f => exact ⟨_, rfl⟩

theorem effect_apply_rejected (hf : f.Callable) (h : f.accepts args.length = false) :
    effect (apply ctx (depth + 1) f args) s = (.error .failed, s) := by
  cases hf with
  | function closure =>
    have hcount : ¬args.length = closure.params.length := by simpa [Value.accepts] using h
    have hraise : apply ctx (depth + 1) (.function closure) args =
        raise (.call (.wrongCount (.exactly closure.params.length) args.length)) := if_neg hcount
    rw [hraise, effect_raise]
  | native f =>
    have hcount : ¬f.arity.accepts args.length = true := by simpa [Value.accepts] using h
    have hraise : apply ctx (depth + 1) (.native f) args =
        raise (.call (.wrongCount f.arity args.length)) := if_neg hcount
    rw [hraise, effect_raise]

/-- The expression has the value, and finding it changes nothing. -/
def Denotes (ctx : Context) (call : Invoke) (scope : Nat) (s : Store) (e : Expr) (v : Value) :
    Prop :=
  (eval ctx call e scope).outcome s = (.ok v, s)

theorem outcome_evalAll {es : List Expr} {vs : List Value}
    (h : List.Forall₂ (Denotes ctx call scope s) es vs) :
    (evalAll ctx call es scope).outcome s = (.ok vs, s) := by
  induction h with
  | nil => rfl
  | cons he _ ih =>
    rw [evalAll, outcome_bind_of_ok he, outcome_bind_of_ok ih]
    rfl

section

variable {callee first : Expr} {rest : List Expr} {site : Site} {paren pipe : Token}

theorem outcome_call (hcallee : Denotes ctx call scope s callee f)
    (hrest : List.Forall₂ (Denotes ctx call scope s) rest args) :
    (eval ctx call (.call site callee paren rest) scope).outcome s =
      (boundTo paren (call f args)).outcome s := by
  rw [eval, outcome_bind_of_ok hcallee, outcome_bind_of_ok (outcome_evalAll hrest)]

theorem outcome_piped {inner : Site} (hf : f.Callable)
    (hcallee : Denotes ctx call scope s callee f) (hfirst : Denotes ctx call scope s first a)
    (hrest : List.Forall₂ (Denotes ctx call scope s) rest args) :
    (eval ctx call (.binary site .pipe pipe first (.call inner callee paren rest)) scope).outcome s =
      (boundTo pipe (call f (a :: args))).outcome s := by
  rw [eval, outcome_bind_of_ok hfirst]
  dsimp only
  rw [outcome_bind_of_ok hcallee, outcome_bind_of_ok (outcome_evalAll hrest), callPiped,
    if_pos hf.isCallable]

theorem outcome_barePiped (hcallee : Denotes ctx call scope s callee f)
    (hfirst : Denotes ctx call scope s first a) (hcall : callee.isCall = false) :
    (eval ctx call (.binary site .pipe pipe first callee) scope).outcome s =
      (callBarePiped call pipe f a).outcome s := by
  rw [eval, outcome_bind_of_ok hfirst]
  split
  next => cases hcall
  next => rw [outcome_bind_of_ok hcallee]

/-- A pipe without more arguments refuses each function that could be called with none. -/
theorem effect_callBarePiped (pipe : Token) (hf : f.Callable) :
    effect (callBarePiped call pipe f a) s =
      if leastArgs? f = some 0 then (.error .failed, s) else effect (call f [a]) s := by
  obtain ⟨least, hleast⟩ := exists_leastArgs hf
  rw [callBarePiped, hleast]
  cases least with
  | zero => rw [if_pos rfl]; exact effect_fail _ _
  | succ least =>
    rw [if_neg nofun]
    change effect (callPiped call pipe f [a]) s = _
    rw [callPiped, if_pos hf.isCallable, effect_boundTo]

theorem effect_map_single (hf : f.Callable) :
    effect (apply ctx (depth + 1) (.native (.builtin .map)) [.list [a], f]) s =
      Prod.map (Except.map fun v => Value.list [v]) id (effect (apply ctx depth f [a]) s) := by
  have hfunction : Builtin.functionArgument f = .ok () := if_pos hf.isCallable
  have hmapped : apply ctx (depth + 1) (.native (.builtin .map)) [.list [a], f] =
      (do return Value.list (← [a].mapM fun item => apply ctx depth f [item])) := by
    change Builtin.mapped (apply ctx depth) (.list [a]) f = _
    rw [Builtin.mapped, Builtin.withFunction, hfunction]
    rfl
  rw [hmapped, effect, effect, List.mapM_cons, List.mapM_nil, outcome_bind, outcome_bind]
  cases (apply ctx depth f [a]).outcome s with
  | mk r s' => cases r <;> rfl

/-- A call of a function, the same call with its first argument piped in, and the call from inside
of a native function do the same for all functions and arguments. So does a pipe without more
arguments for each function that needs an argument; any other it refuses, and so it parts from the
call just where a function that can be called without arguments takes one. -/
theorem calls_agree (site inner : Site) (paren pipe : Token) (hf : f.Callable)
    (hcallee : Denotes ctx (apply ctx (depth + 1)) scope s callee f)
    (hfirst : Denotes ctx (apply ctx (depth + 1)) scope s first a)
    (hrest : List.Forall₂ (Denotes ctx (apply ctx (depth + 1)) scope s) rest args) :
    let call := apply ctx (depth + 1)
    let called := effect (call f (a :: args)) s
    let bare := effect (eval ctx call (.binary site .pipe pipe first callee) scope) s
    effect (eval ctx call (.call site callee paren (first :: rest)) scope) s = called ∧
      effect (eval ctx call (.binary site .pipe pipe first (.call inner callee paren rest)) scope) s =
        called ∧
      (args = [] →
        effect (apply ctx (depth + 2) (.native (.builtin .map)) [.list [a], f]) s =
          Prod.map (Except.map fun v => .list [v]) id called) ∧
      (args = [] → callee.isCall = false →
        if leastArgs? f = some 0 ∧ f.accepts 1 then bare = (.error .failed, s)
        else bare = called) := by
  intro call called bare
  refine ⟨?_, ?_, ?_, ?_⟩
  · rw [effect, outcome_call hcallee (.cons hfirst hrest)]
    exact effect_boundTo _ _
  · rw [effect, outcome_piped hf hcallee hfirst hrest]
    exact effect_boundTo _ _
  · rintro rfl
    exact effect_map_single hf
  · rintro rfl hcall
    have hbare : bare = if leastArgs? f = some 0 then (.error .failed, s) else called := by
      refine Eq.trans ?_ (effect_callBarePiped pipe hf)
      exact congrArg (fun r => (r.1.mapError Stop.toFailure, r.2))
        (outcome_barePiped hcallee hfirst hcall)
    rw [hbare]
    by_cases hleast : leastArgs? f = some 0
    · by_cases haccepts : f.accepts 1 = true
      · rw [if_pos ⟨hleast, haccepts⟩, if_pos hleast]
      · have hrejected : f.accepts [a].length = false := eq_false_of_ne_true haccepts
        rw [if_neg fun h => haccepts h.2, if_pos hleast]
        exact (effect_apply_rejected hf hrejected).symm
    · rw [if_neg fun h => hleast h.1, if_neg hleast]

end

/-- The first function gives its argument or null, and the second one calls its first argument with
the others. -/
def callingHost : Host where
  types := []
  functions number invoke args :=
    match number, args with
    | 0, args => pure (args.headD .null)
    | _, f :: args => invoke f args
    | _, [] => pure .null
  rewriters _ := .ok

def callingContext : Context := ⟨⟨#[]⟩, callingHost, ⟨.standard, none, default⟩, 0⟩

def echo : Value := .native (.host ⟨0, "echo", .between 0 1⟩)

def through : Value := .native (.host ⟨1, "through", .between 1 4⟩)

def nameOf (name : String) : Expr := .name ⟨0, .point 0⟩ ⟨.identifier, name, .point 0, none⟩

def itself : Value := .function ⟨["x"], nameOf "x", 0⟩

def callingStore : Store :=
  (Store.empty.newScope none).2.defineAll 0
    [("echo", echo), ("through", through), ("itself", itself), ("x", .int 7)]

def mark (text : String) : Token := ⟨.pipe, text, .point 0, none⟩

def callOf (callee : Expr) (args : List Expr) : Expr := .call ⟨1, .point 0⟩ callee (mark ")") args

def pipeOf (left right : Expr) : Expr := .binary ⟨1, .point 0⟩ .pipe (mark "|") left right

/-- A native function that calls back. -/
theorem calls_agree_through :
    let call := apply callingContext 2
    let called := effect (call through [itself, .int 7]) callingStore
    called.1.toOption.isSome ∧
      effect (eval callingContext call
        (callOf (nameOf "through") [nameOf "itself", nameOf "x"]) 0) callingStore = called ∧
      effect (eval callingContext call
        (pipeOf (nameOf "itself") (callOf (nameOf "through") [nameOf "x"])) 0) callingStore =
          called := by
  have hthrough : Denotes callingContext (apply callingContext 2) 0 callingStore (nameOf "through")
      through := rfl
  have hitself : Denotes callingContext (apply callingContext 2) 0 callingStore (nameOf "itself")
      itself := rfl
  have hseven : Denotes callingContext (apply callingContext 2) 0 callingStore (nameOf "x")
      (.int 7) := rfl
  have h := calls_agree ⟨1, .point 0⟩ ⟨1, .point 0⟩ (mark ")") (mark "|") (.native _) hthrough
    hitself (.cons hseven .nil)
  exact ⟨rfl, h.1, h.2.1⟩

/-- A function that takes an argument, or none, is called with one in two ways and refused in the
third. -/
theorem barePipe_refuses_echo :
    let call := apply callingContext 1
    let does (e : Expr) := effect (eval callingContext call e 0) callingStore
    echo.Callable ∧ echo.accepts 1 = true ∧ (nameOf "echo").isCall = false ∧
      does (nameOf "echo") = (.ok echo, callingStore) ∧
      does (nameOf "x") = (.ok (.int 7), callingStore) ∧
      does (callOf (nameOf "echo") [nameOf "x"]) = (.ok (.int 7), callingStore) ∧
      does (pipeOf (nameOf "x") (callOf (nameOf "echo") [])) = (.ok (.int 7), callingStore) ∧
      does (pipeOf (nameOf "x") (nameOf "echo")) = (.error .failed, callingStore) :=
  ⟨.native _, rfl, rfl, rfl, rfl, rfl, rfl, rfl⟩

end Run

end DocTemplate
