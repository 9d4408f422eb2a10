import DocTemplate.Proofs.Run.Trace

namespace DocTemplate

namespace Traced

variable {α β : Type}

theorem outcome_bind (t : Traced α) (f : α → Traced β) (s : Store) (log : List Event) :
    (t >>= f).outcome s log =
      match t.outcome s log with
      | (.ok a, s', log') => (f a).outcome s' log'
      | (.error stop, s', log') => (.error stop, s', log') := by
  change (match t (s, log) with | (r, σ') => ExceptT.bindCont f r σ') = _
  rw [outcome]
  cases t (s, log) with
  | mk r σ' => cases r <;> rfl

theorem outcome_tryCatch (t : Traced α) (handle : Stop → Traced α) (s : Store)
    (log : List Event) :
    (tryCatch t handle).outcome s log =
      match t.outcome s log with
      | (.error stop, s', log') => (handle stop).outcome s' log'
      | result => result := by
  simp only [tryCatch, tryCatchThe, MonadExceptOf.tryCatch, ExceptT.tryCatch, ExceptT.mk, outcome,
    bind, StateT.bind]
  cases t (s, log) with
  | mk r σ' => cases r <;> rfl

theorem outcome_boundTo (token : Token) (t : Traced α) (s : Store) (log : List Event) :
    (boundTo token t).outcome s log =
      match t.outcome s log with
      | (.error (.raised cause), s', log') => (.error (.fault (token.fault cause)), s', log')
      | result => result := by
  rw [boundTo, outcome_tryCatch]
  cases t.outcome s log with
  | mk r σ' =>
    cases r with
    | ok a => rfl
    | error stop => cases stop <;> rfl

/-- The traced computation gives what the other one gives, and leaves the same store. -/
def Erases (t : Traced α) (x : Run α) : Prop :=
  ∀ s log, ∃ log', t.outcome s log = ((x.outcome s).1, (x.outcome s).2, log')

namespace Erases

theorem ofRun (x : Run α) : Erases (ofRun x) x := fun _ log => ⟨log, rfl⟩

theorem pure (a : α) : Erases (Pure.pure a) (Pure.pure a) := fun _ log => ⟨log, rfl⟩

theorem bind {t : Traced α} {x : Run α} {f : α → Traced β} {g : α → Run β} (ht : Erases t x)
    (hf : ∀ a, Erases (f a) (g a)) : Erases (t >>= f) (x >>= g) := by
  intro s log
  obtain ⟨log₁, h₁⟩ := ht s log
  rw [outcome_bind, Run.outcome_bind, h₁]
  cases x.outcome s with
  | mk r s' =>
    cases r with
    | error stop => exact ⟨log₁, rfl⟩
    | ok a => exact hf a s' log₁

theorem emit {event : Store → Event} {t : Unit → Traced α} {x : Run α} (h : Erases (t ()) x) :
    Erases (Traced.emit event >>= t) x :=
  fun s log => h s (event s :: log)

theorem ite {p : Prop} [Decidable p] {t u : Traced α} {x y : Run α} (ht : Erases t x)
    (hu : Erases u y) : Erases (if p then t else u) (if p then x else y) := by
  split
  · exact ht
  · exact hu

theorem boundTo {t : Traced α} {x : Run α} (token : Token) (h : Erases t x) :
    Erases (Traced.boundTo token t) (Run.boundTo token x) := by
  intro s log
  obtain ⟨log', h'⟩ := h s log
  rw [outcome_boundTo, Run.outcome_boundTo, h']
  cases x.outcome s with
  | mk r s' =>
    cases r with
    | ok a => exact ⟨log', rfl⟩
    | error stop => cases stop <;> exact ⟨log', rfl⟩

theorem mapM {γ : Type} {t : γ → Traced α} {x : γ → Run α} (h : ∀ c, Erases (t c) (x c))
    (cs : List γ) : Erases (cs.mapM t) (cs.mapM x) := by
  induction cs with
  | nil => exact .pure []
  | cons c cs ih =>
    rw [List.mapM_cons, List.mapM_cons]
    exact (h c).bind fun a => ih.bind fun as => .pure (a :: as)

theorem innerScope (region : Region) (outer : Nat) (names : List (String × Value)) :
    Erases (Traced.innerScope region outer names) (Run.innerScope outer names) :=
  fun s log => ⟨.enter region s.scopes.size :: log, rfl⟩

theorem lookup (ctx : Context) (node : Nat) (name : Token) (scope : Nat) :
    Erases (Traced.lookup ctx node name scope) (Run.lookup ctx node name scope) :=
  .emit (.ofRun _)

theorem assign (ctx : Context) (node : Nat) (name : Token) (v : Value) (scope : Nat) :
    Erases (Traced.assign ctx node name v scope) (Run.assign ctx node name v scope) :=
  .emit (.ofRun _)

end Erases

section

variable {ctx : Context} {call : TracedInvoke} {invoke : Invoke}
theorem trace_erases (hc : ∀ f args, Erases (call f args) (invoke f args))
    (p : NativeProgram) : Erases (p.trace call) (p.run invoke) := by
  induction p with
  | done result => exact fun s log => ⟨log, rfl⟩
  | change f next ih => exact fun s log => ih s (f s) log
  | call f args next ih =>
    intro s log
    obtain ⟨log', h⟩ := hc f args s log
    rw [NativeProgram.outcome_run_call]
    change ∃ log', ((next ((call f args).outcome s log).1).trace call)
      (((call f args).outcome s log).2.1, ((call f args).outcome s log).2.2) = _
    rw [h]
    exact ih _ _ log'

theorem callPiped_erases (hc : ∀ f args, Erases (call f args) (invoke f args))
    (pipe : Token) (f : Value) (args : List Value) :
    Erases (callPiped call pipe f args) (Run.callPiped invoke pipe f args) :=
  .ite (.boundTo pipe (hc f args)) (.ofRun _)

theorem callBarePiped_erases (hc : ∀ f args, Erases (call f args) (invoke f args))
    (pipe : Token) (f arg : Value) :
    Erases (callBarePiped call pipe f arg) (Run.callBarePiped invoke pipe f arg) := by
  unfold callBarePiped Run.callBarePiped
  match Run.leastArgs? f with
  | some 0 => exact .ofRun _
  | some (_ + 1) => exact callPiped_erases hc pipe f [arg]
  | none => exact .ofRun _

mutual

theorem eval_erases (hc : ∀ f args, Erases (call f args) (invoke f args)) (e : Expr) (scope : Nat) :
    Erases (eval ctx call e scope) (Run.eval ctx invoke e scope) := by
  match e with
  | .constant _ value => exact .pure _
  | .name site token => exact .lookup ctx site.id token scope
  | .assign site token value =>
    exact (eval_erases hc value scope).bind fun v =>
      (Erases.assign ctx site.id token v scope).bind fun _ => .pure v
  | .unary _ .neg token operand => exact (eval_erases hc operand scope).bind fun v => .ofRun _
  | .unary _ .not _ operand =>
    exact (eval_erases hc operand scope).bind fun v => (Erases.ofRun _).bind fun b => .pure _
  | .binary _ .pipe token left right =>
    have hr := eval_erases hc right scope
    rw [eval, Run.eval]
    refine (eval_erases hc left scope).bind fun v => ?_
    cases right with
    | call site callee paren args =>
      exact (eval_erases hc callee scope).bind fun f =>
        (evalAll_erases hc args scope).bind fun vs => callPiped_erases hc token f (v :: vs)
    | _ => exact hr.bind fun f => callBarePiped_erases hc token f v
  | .binary _ .coalesce _ left right =>
    exact (eval_erases hc left scope).bind fun v => .ite (eval_erases hc right scope) (.pure v)
  | .binary _ .or _ left right =>
    exact (eval_erases hc left scope).bind fun v => (Erases.ofRun _).bind fun b =>
      .ite (.pure v) (eval_erases hc right scope)
  | .binary _ .and _ left right =>
    exact (eval_erases hc left scope).bind fun v => (Erases.ofRun _).bind fun b =>
      .ite (eval_erases hc right scope) (.pure v)
  | .binary _ (.binary op) token left right =>
    exact (eval_erases hc left scope).bind fun l =>
      (eval_erases hc right scope).bind fun r => .ofRun _
  | .group _ inner => exact eval_erases hc inner scope
  | .call _ callee paren args =>
    exact (eval_erases hc callee scope).bind fun f => (evalAll_erases hc args scope).bind fun vs =>
      .boundTo paren (hc f vs)
  | .get _ object name optional =>
    exact (eval_erases hc object scope).bind fun v => .ite (.pure Value.null) (.ofRun _)
  | .set _ object name value =>
    exact (eval_erases hc object scope).bind fun target =>
      (eval_erases hc value scope).bind fun v => (Erases.ofRun _).bind fun _ => .pure v
  | .choose _ branches otherwise =>
    refine (evalBranches_erases hc branches scope).bind fun found => ?_
    cases found with
    | some v => exact .pure v
    | none => exact evalOrNull_erases hc otherwise scope
  | .lambda _ params body => exact .pure _
  | .list _ items => exact (evalAll_erases hc items scope).bind fun vs => .pure _

theorem evalAll_erases (hc : ∀ f args, Erases (call f args) (invoke f args))
    (es : List Expr) (scope : Nat) :
    Erases (evalAll ctx call es scope) (Run.evalAll ctx invoke es scope) := by
  match es with
  | [] => exact .pure []
  | e :: es =>
    exact (eval_erases hc e scope).bind fun v => (evalAll_erases hc es scope).bind fun vs => .pure _

theorem evalBranches_erases (hc : ∀ f args, Erases (call f args) (invoke f args))
    (branches : List (Expr × Expr)) (scope : Nat) :
    Erases (evalBranches ctx call branches scope) (Run.evalBranches ctx invoke branches scope) := by
  match branches with
  | [] => exact .pure none
  | (condition, result) :: branches =>
    exact (eval_erases hc condition scope).bind fun v => (Erases.ofRun _).bind fun b =>
      .ite ((eval_erases hc result scope).bind fun w => .pure (some w))
        (evalBranches_erases hc branches scope)

theorem evalOrNull_erases (hc : ∀ f args, Erases (call f args) (invoke f args))
    (e : Option Expr) (scope : Nat) :
    Erases (evalOrNull ctx call e scope) (Run.evalOrNull ctx invoke e scope) := by
  match e with
  | none => exact .pure Value.null
  | some e => exact eval_erases hc e scope

end

mutual

theorem exec_erases (hc : ∀ f args, Erases (call f args) (invoke f args)) (s : Stmt) (scope : Nat) :
    Erases (exec ctx call s scope) (Run.exec ctx invoke s scope) := by
  match s with
  | .expr e =>
    exact (eval_erases hc e scope).bind fun v => (Erases.ofRun _).bind fun text => .pure _
  | .declare name init =>
    exact (evalOrNull_erases hc init scope).bind fun v => (Erases.ofRun _).bind fun _ => .pure []
  | .block body =>
    exact (Erases.innerScope _ scope []).bind fun inner => execAll_erases hc body inner []
  | .ifTrue condition body =>
    exact (eval_erases hc condition scope).bind fun v => (Erases.ofRun _).bind fun b =>
      .ite ((Erases.innerScope _ scope []).bind fun inner => execAll_erases hc body inner [])
        (.pure [])
  | .forEach element items body =>
    exact (eval_erases hc items scope).bind fun v => (Erases.ofRun _).bind fun items =>
      (Erases.mapM (fun item => (Erases.innerScope _ scope _).bind fun inner =>
        execAll_erases hc body inner []) items).bind fun turns => .pure _
  | .run e => exact (eval_erases hc e scope).bind fun _ => .pure []
  | .verbatim item => exact .ofRun _
  | .insert keyword target body | .rewrite keyword target body =>
    refine (eval_erases hc target scope).bind fun v => ?_
    cases v with
    | atom a =>
      cases a with
      | null =>
        exact (Erases.innerScope _ scope []).bind fun inner => execAll_erases hc body inner []
      | rewriter r =>
        exact (Erases.innerScope _ scope []).bind fun inner =>
          (execAll_erases hc body inner []).bind fun tokens => .ofRun _
      | _ => exact .ofRun _
    | _ => exact .ofRun _

theorem execAll_erases (hc : ∀ f args, Erases (call f args) (invoke f args))
    (body : List Stmt) (scope : Nat) (done : List (List OutputToken)) :
    Erases (execAll ctx call body scope done) (Run.execAll ctx invoke body scope done) := by
  match body with
  | [] => exact .pure _
  | s :: ss =>
    exact (exec_erases hc s scope).bind fun tokens => execAll_erases hc ss scope (tokens :: done)

end

end

theorem apply_erases (ctx : Context) {programs : Nat → List Value → NativeProgram}
    (hh : ctx.host.Describes programs) (depth : Nat) (f : Value) (args : List Value) :
    Erases (apply ctx programs depth f args) (Run.apply ctx depth f args) := by
  induction depth generalizing f args with
  | zero => exact fun s log => ⟨log, rfl⟩
  | succ depth ih =>
    cases f with
    | atom a =>
      cases a with
      | function closure =>
        exact .ite ((Erases.innerScope _ closure.scope _).bind fun scope =>
          eval_erases ih closure.body scope) (.ofRun _)
      | native f =>
        refine .ite ?_ (.ofRun _)
        cases f with
        | builtin b =>
          have ht := trace_erases ih (b.program ctx.settings args)
          rw [Builtin.run_program] at ht
          exact ht
        | host f =>
          have ht := trace_erases ih (programs f.number args)
          rw [← hh.functions] at ht
          exact ht
      | _ => exact .ofRun _
    | _ => exact .ofRun _

end Traced

namespace Program

def context (around : Surroundings) (resolution : Resolution) (store : Store) : Context :=
  ⟨resolution, around.host, around.settings, store.scopes.size⟩

def startStore (data : List (String × Value)) (store : Store) : Store :=
  (store.newScope none).2.defineAll store.scopes.size (builtinNames ++ data)

theorem ended (result : Except Stop (List OutputToken) × Store) (globals : Nat) :
    (match result with
    | (.ok tokens, store) => (Except.ok tokens, store.release globals)
    | (.error stop, store) => (.error stop.failure, store.release globals)) =
      (result.1.mapError Stop.failure, result.2.release globals) := by
  obtain ⟨outcome, left⟩ := result
  cases outcome <;> rfl

theorem runIn_eq (p : Program) (schedule : Schedule) (around : Surroundings)
    (resolution : Resolution) (data : List (String × Value)) (store : Store) :
    let ctx := context around resolution store
    let result := (Run.execAllIn schedule ctx (Run.apply ctx around.depth) p.body ctx.globals
      []).outcome (startStore data store)
    p.runIn schedule around resolution data store =
      (result.1.mapError Stop.failure, result.2.release ctx.globals) :=
  ended _ store.scopes.size

theorem run_eq (p : Program) (around : Surroundings) (resolution : Resolution)
    (data : List (String × Value)) (store : Store) :
    let ctx := context around resolution store
    let result := (Run.execAll ctx (Run.apply ctx around.depth) p.body ctx.globals []).outcome
      (startStore data store)
    p.run around resolution data store =
      (result.1.mapError Stop.failure, result.2.release ctx.globals) :=
  ended _ store.scopes.size

def trace (p : Program) (around : Surroundings) (programs : Nat → List Value → NativeProgram)
    (resolution : Resolution) (data : List (String × Value)) (store : Store) :
    Except Stop (List OutputToken) × Store × List Event :=
  let ctx := context around resolution store
  (Traced.execAll ctx (Traced.apply ctx programs around.depth) p.body ctx.globals []).outcome
    (startStore data store) []

/-- A run with its log is the run. -/
theorem run_eq_trace {around : Surroundings} {programs : Nat → List Value → NativeProgram}
    (hh : around.host.Describes programs) (p : Program) (resolution : Resolution)
    (data : List (String × Value)) (store : Store) :
    p.run around resolution data store =
      ((p.trace around programs resolution data store).1.mapError Stop.failure,
        (p.trace around programs resolution data store).2.1.release store.scopes.size) := by
  have ha := fun f args => Traced.apply_erases (context around resolution store) hh
    around.depth f args
  obtain ⟨log, h⟩ := Traced.execAll_erases ha p.body store.scopes.size [] (startStore data store) []
  have ht : p.trace around programs resolution data store = _ := h
  rw [ht, run_eq]
  rfl

end Program

end DocTemplate
