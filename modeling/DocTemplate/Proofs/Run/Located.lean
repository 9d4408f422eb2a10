import DocTemplate.Proofs.Program.Assembly
import DocTemplate.Proofs.Run.Callbacks
import DocTemplate.Proofs.Run.Course
import DocTemplate.Proofs.Scope.Safety

namespace DocTemplate

namespace Run

variable {α β : Type}

/-- From a store that holds known functions only, the computation leaves such a store. It stops as
`E` says, or gives what satisfies `P`. -/
def Ends (known : Closure → Prop) (E : Stop → Prop) (x : Run α) (P : α → Prop) : Prop :=
  ∀ s : Store, s.Within known → (x.outcome s).2.Within known ∧
    (∀ stop, (x.outcome s).1 = .error stop → E stop) ∧ ∀ a, (x.outcome s).1 = .ok a → P a

namespace Ends

variable {known : Closure → Prop} {E : Stop → Prop} {P : α → Prop} {Q : β → Prop} {x : Run α}

theorem ofKeeps (hk : x.Keeps known P) (hx : x.StopsAs E) : Ends known E x P :=
  fun s hs => ⟨(hk s hs).2.1, hx s, (hk s hs).2.2⟩

theorem pure {a : α} (h : P a) : Ends known E (Pure.pure a) P := .ofKeeps (.pure h) (.pure a)

theorem throw {stop : Stop} (h : E stop) : Ends known E (throwThe Stop stop : Run α) P :=
  .ofKeeps (.throw stop) (.throw h)

theorem bind {f : α → Run β} (hx : Ends known E x P) (hf : ∀ a, P a → Ends known E (f a) Q) :
    Ends known E (x >>= f) Q := by
  intro s hs
  obtain ⟨hleft, hstop, hgives⟩ := hx s hs
  rw [outcome_bind]
  cases hr : x.outcome s with
  | mk r s' =>
    rw [hr] at hleft hstop hgives
    cases r with
    | ok a => exact hf a (hgives a rfl) s' hleft
    | error inner => exact ⟨hleft, fun stop h => Except.error.inj h ▸ hstop inner rfl, nofun⟩

theorem ite {p : Prop} [Decidable p] {y : Run α} (hx : Ends known E x P)
    (hy : Ends known E y P) : Ends known E (if p then x else y) P := by
  split
  · exact hx
  · exact hy

theorem boundTo {among : Token → Prop} {token : Token}
    (hx : Ends known (Stop.OfCall among) x P) (ht : among token) :
    Ends known (Stop.Bound among) (Run.boundTo token x) P := by
  intro s hs
  obtain ⟨hleft, hstop, hgives⟩ := hx s hs
  refine ⟨?_, fun stop h => ?_, fun a h => ?_⟩
  · rw [outcome_boundTo]
    split
    · rename_i cause s' hr
      rw [hr] at hleft
      exact hleft
    · exact hleft
  · obtain ⟨inner, hr, rfl⟩ := outcome_boundTo_error.mp h
    exact (hstop inner hr).boundTo ht
  · rw [outcome_boundTo] at h
    split at h
    · cases h
    · exact hgives a h

end Ends

section

variable {known : Closure → Prop} {among : Token → Prop} {ctx : Context} {call : Invoke}
  {token : Token}

def CallsEnd (known : Closure → Prop) (among : Token → Prop) (call : Invoke) : Prop :=
  ∀ f args, f.Within known → (∀ v ∈ args, v.Within known) →
    Ends known (Stop.OfCall among) (call f args) (·.Within known)

/-- What keeps faults in their places: the expressions are made of the tokens, the fields of host
objects hold no functions of their own and refuse with a cause that has no place, and calls stop as
calls do. -/
structure Places (nodes : Expr → Prop) (among : Token → Prop) (ctx : Context) (call : Invoke) :
    Prop where
  tokens : ∀ e, nodes e → ∀ t ∈ e.ownTokens, among t
  fields : FieldsKnown ctx.host
  refuses : RefusesLoosely ctx.host
  calls : CallsEnd (MadeOf nodes) among call

theorem assign_ends (node scope : Nat) {v : Value} (hv : v.Within known) (ht : among token) :
    Ends known (Stop.Bound among) (assign ctx node token v scope) fun _ => True :=
  fun s hs => ⟨(Traced.assign_grows node token hs hv).2, assign_stops node v scope ht s,
    fun _ _ => trivial⟩

theorem innerScope_ends {E : Stop → Prop} (outer : Nat) {names : List (String × Value)}
    (hnames : ∀ pair ∈ names, pair.2.Within known) :
    Ends known E (innerScope outer names) fun _ => True :=
  fun _ hs => ⟨(hs.newScope (some outer)).defineAll _ hnames, fun _ => nofun, fun _ _ => trivial⟩

theorem define_ends {E : Stop → Prop} (scope : Nat) (name : String) {v : Value}
    (hv : v.Within known) :
    Ends known E (change fun s => s.define scope name v) fun _ => True :=
  fun _ hs => ⟨hs.define scope name hv, fun _ => nofun, fun _ _ => trivial⟩

theorem isTruthy_ends {E : Stop → Prop} (v : Value) : Ends known E (isTruthy v) fun _ => True :=
  .ofKeeps (isTruthy_keeps v) (.read _)

theorem callPiped_ends (hc : CallsEnd known among call) (ht : among token) {f : Value}
    {args : List Value} (hf : f.Within known) (ha : ∀ v ∈ args, v.Within known) :
    Ends known (Stop.Bound among) (callPiped call token f args) (·.Within known) :=
  .ite ((hc f args hf ha).boundTo ht) (.throw (.fault ht rfl))

theorem callBarePiped_ends (hc : CallsEnd known among call) (ht : among token) {f arg : Value}
    (hf : f.Within known) (ha : arg.Within known) :
    Ends known (Stop.Bound among) (callBarePiped call token f arg) (·.Within known) := by
  unfold callBarePiped
  match leastArgs? f with
  | some 0 => exact .throw (.fault ht rfl)
  | some (_ + 1) => exact callPiped_ends hc ht hf (List.forall_mem_singleton.mpr ha)
  | none => exact .throw (.fault ht rfl)

theorem run_ends (hc : CallsEnd known among call) {p : NativeProgram} {E : Stop → Prop}
    (hp : p.Confined known) (he : p.PassesOn E) (hE : ∀ stop, E stop → stop.OfCall among) :
    Ends known (Stop.OfCall among) (p.run call) (·.Within known) := by
  induction p generalizing E with
  | done result =>
    cases result with
    | ok v => exact .pure hp
    | error stop => exact .throw (hE stop (he stop rfl))
  | change f next ih =>
    intro s hs
    obtain ⟨-, hleft, hnext⟩ := hp s hs
    exact ih s hnext (he s) hE (f s) hleft
  | call f args next ih =>
    intro s hs
    obtain ⟨hf, ha, hnext⟩ := hp
    obtain ⟨hleft, hstop, hgives⟩ := hc f args hf ha s hs
    have hn := hnext known (fun _ h => h) ((call f args).outcome s).1 hgives
    refine ih _ hn (he _) (fun stop h => ?_) _ hleft
    exact h.elim (hE stop) (hstop stop)

end

section

variable {nodes : Expr → Prop} {among : Token → Prop} {ctx : Context} {call : Invoke}

mutual

theorem eval_ends (hp : Places nodes among ctx call)
    (e : Expr) (he : ∀ part ∈ e.nodes, nodes part) (scope : Nat) :
    Ends (MadeOf nodes) (Stop.Bound among) (eval ctx call e scope) (·.Within (MadeOf nodes)) := by
  match e with
  | .constant _ value => exact .pure (Value.cellFree_ofConstant value).within
  | .name site token =>
    simp only [Expr.nodes, List.forall_mem_cons] at he
    have hto := hp.tokens _ he.1 token List.mem_cons_self
    exact .ofKeeps (Traced.lookup_keeps _ site.id token) (lookup_stops site.id scope hto)
  | .assign site token value =>
    simp only [Expr.nodes, List.forall_mem_cons] at he
    have hto := hp.tokens _ he.1 token List.mem_cons_self
    refine (eval_ends hp value he.2 scope).bind fun v hv => ?_
    exact (assign_ends site.id scope hv hto).bind fun _ _ => .pure hv
  | .unary _ .neg token operand =>
    simp only [Expr.nodes, List.forall_mem_cons] at he
    have hto := hp.tokens _ he.1 token List.mem_cons_self
    refine (eval_ends hp operand he.2 scope).bind fun v _ => ?_
    exact .ofKeeps ((negate_keeps v).boundTo token) ((negate_stops v).boundTo hto)
  | .unary _ .not _ operand =>
    simp only [Expr.nodes, List.forall_mem_cons] at he
    refine (eval_ends hp operand he.2 scope).bind fun v _ => ?_
    exact (isTruthy_ends v).bind fun _ _ => .pure (Value.within_of_closures rfl)
  | .binary _ .pipe token left right =>
    simp only [Expr.nodes, List.forall_mem_cons, List.forall_mem_append] at he
    have hto := hp.tokens _ he.1.1 token List.mem_cons_self
    have hr := eval_ends hp right he.2 scope
    rw [eval]
    refine (eval_ends hp left he.1.2 scope).bind fun v hv => ?_
    cases right with
    | call site callee paren args =>
      simp only [Expr.nodes, List.forall_mem_cons, List.forall_mem_append] at he
      refine (eval_ends hp callee he.2.1.2 scope).bind fun f hf => ?_
      refine (evalAll_ends hp args he.2.2 scope).bind fun vs hvs => ?_
      exact callPiped_ends hp.calls hto hf (List.forall_mem_cons.mpr ⟨hv, hvs⟩)
    | _ => exact hr.bind fun f hf => callBarePiped_ends hp.calls hto hf hv
  | .binary _ .coalesce _ left right =>
    simp only [Expr.nodes, List.forall_mem_cons, List.forall_mem_append] at he
    exact (eval_ends hp left he.1.2 scope).bind fun v hv =>
      .ite (eval_ends hp right he.2 scope) (.pure hv)
  | .binary _ .or _ left right =>
    simp only [Expr.nodes, List.forall_mem_cons, List.forall_mem_append] at he
    refine (eval_ends hp left he.1.2 scope).bind fun v hv => ?_
    exact (isTruthy_ends v).bind fun _ _ => .ite (.pure hv) (eval_ends hp right he.2 scope)
  | .binary _ .and _ left right =>
    simp only [Expr.nodes, List.forall_mem_cons, List.forall_mem_append] at he
    refine (eval_ends hp left he.1.2 scope).bind fun v hv => ?_
    exact (isTruthy_ends v).bind fun _ _ => .ite (eval_ends hp right he.2 scope) (.pure hv)
  | .binary _ (.binary op) token left right =>
    simp only [Expr.nodes, List.forall_mem_cons, List.forall_mem_append] at he
    have hto := hp.tokens _ he.1.1 token List.mem_cons_self
    refine (eval_ends hp left he.1.2 scope).bind fun l _ => ?_
    refine (eval_ends hp right he.2 scope).bind fun r _ => ?_
    exact .ofKeeps ((binary_keeps op l r).boundTo token) ((binary_stops op l r).boundTo hto)
  | .group _ inner =>
    simp only [Expr.nodes, List.forall_mem_cons] at he
    exact eval_ends hp inner he.2 scope
  | .call _ callee paren args =>
    simp only [Expr.nodes, List.forall_mem_cons, List.forall_mem_append] at he
    have hto := hp.tokens _ he.1.1 paren List.mem_cons_self
    refine (eval_ends hp callee he.1.2 scope).bind fun f hf => ?_
    refine (evalAll_ends hp args he.2 scope).bind fun vs hvs => ?_
    -- a fault inside of the function has its place by now, and keeps it
    exact (hp.calls f vs hf hvs).boundTo hto
  | .get _ object name optional =>
    simp only [Expr.nodes, List.forall_mem_cons] at he
    have hto := hp.tokens _ he.1 name List.mem_cons_self
    refine (eval_ends hp object he.2 scope).bind fun v hv => ?_
    exact .ite (.pure Value.within_null) (.ofKeeps
      ((getProperty_keeps hp.fields name.lexeme hv).boundTo name)
      ((getProperty_stops ctx.host v name.lexeme).boundTo hto))
  | .set _ object name value =>
    simp only [Expr.nodes, List.forall_mem_cons, List.forall_mem_append] at he
    have hto := hp.tokens _ he.1.1 name List.mem_cons_self
    refine (eval_ends hp object he.1.2 scope).bind fun target _ => ?_
    refine (eval_ends hp value he.2 scope).bind fun v hv => ?_
    have hset : Ends (MadeOf nodes) (Stop.Bound among)
        (boundTo name (setProperty ctx.host target name.lexeme v)) fun _ => True :=
      .ofKeeps ((setProperty_keeps hp.fields target name.lexeme hv).boundTo name)
        ((setProperty_stops hp.refuses target name.lexeme v).boundTo hto)
    exact hset.bind fun _ _ => .pure hv
  | .choose _ branches otherwise =>
    simp only [Expr.nodes, List.forall_mem_cons, List.forall_mem_append] at he
    refine (evalBranches_ends hp branches he.1.2 scope).bind fun found hfound => ?_
    cases found with
    | some v => exact .pure (hfound v rfl)
    | none => exact evalOrNull_ends hp otherwise he.2 scope
  | .lambda _ params body =>
    simp only [Expr.nodes, List.forall_mem_cons] at he
    -- the body is among the nodes, so its tokens are told of wherever the function goes
    exact .pure (Value.within_function.mpr he.2)
  | .list _ items =>
    simp only [Expr.nodes, List.forall_mem_cons] at he
    exact (evalAll_ends hp items he.2 scope).bind fun vs hvs => .pure (Value.within_list.mpr hvs)

theorem evalAll_ends (hp : Places nodes among ctx call)
    (es : List Expr) (he : ∀ part ∈ Expr.nodesOfItems es, nodes part)
    (scope : Nat) : Ends (MadeOf nodes) (Stop.Bound among) (evalAll ctx call es scope)
      fun vs => ∀ v ∈ vs, v.Within (MadeOf nodes) := by
  match es with
  | [] => exact .pure nofun
  | e :: es =>
    simp only [Expr.nodesOfItems, List.forall_mem_append] at he
    refine (eval_ends hp e he.1 scope).bind fun v hv => ?_
    refine (evalAll_ends hp es he.2 scope).bind fun vs hvs => ?_
    exact .pure (List.forall_mem_cons.mpr ⟨hv, hvs⟩)

theorem evalBranches_ends (hp : Places nodes among ctx call) (branches : List (Expr × Expr))
    (he : ∀ part ∈ Expr.nodesOfBranches branches, nodes part) (scope : Nat) :
    Ends (MadeOf nodes) (Stop.Bound among) (evalBranches ctx call branches scope)
      fun found => ∀ v, found = some v → v.Within (MadeOf nodes) := by
  match branches with
  | [] => exact .pure nofun
  | (condition, result) :: branches =>
    simp only [Expr.nodesOfBranches, List.forall_mem_append] at he
    refine (eval_ends hp condition he.1.1 scope).bind fun v _ => ?_
    refine (isTruthy_ends v).bind fun _ _ => ?_
    refine .ite ((eval_ends hp result he.1.2 scope).bind fun w hw => ?_)
      (evalBranches_ends hp branches he.2 scope)
    exact .pure fun u hu => Option.some.inj hu ▸ hw

theorem evalOrNull_ends (hp : Places nodes among ctx call)
    (e : Option Expr) (he : ∀ part ∈ Expr.nodesOfOptional e, nodes part)
    (scope : Nat) : Ends (MadeOf nodes) (Stop.Bound among) (evalOrNull ctx call e scope)
      (·.Within (MadeOf nodes)) := by
  match e with
  | none => exact .pure Value.within_null
  | some e => exact eval_ends hp e he scope

end

theorem closure_ends (hp : Places nodes among ctx call)
    {closure : Closure} (hm : MadeOf nodes closure) {args : List Value}
    (ha : ∀ v ∈ args, v.Within (MadeOf nodes)) :
    Ends (MadeOf nodes) (Stop.Bound among) (do
      let scope ← innerScope closure.scope (closure.params.zip args)
      eval ctx call closure.body scope) (·.Within (MadeOf nodes)) := by
  have hnames : ∀ pair ∈ closure.params.zip args, pair.2.Within (MadeOf nodes) :=
    fun pair hp => ha pair.2 (List.of_mem_zip hp).2
  exact (innerScope_ends closure.scope hnames).bind fun scope _ =>
    eval_ends hp closure.body hm scope

end

section

variable {nodes : Expr → Prop} {among : Token → Prop} {ctx : Context}
  {programs : Nat → List Value → NativeProgram}

theorem apply_ends (ht : ∀ e, nodes e → ∀ t ∈ e.ownTokens, among t)
    (hh : ctx.host.Describes programs)
    (hw : ∀ number args, (programs number args).PassesOn Stop.Loose)
    (hr : RefusesLoosely ctx.host) (depth : Nat) :
    CallsEnd (MadeOf nodes) among (apply ctx depth) := by
  have hraise : ∀ {cause : RunCause}, cause.kind = .runtime →
      Ends (MadeOf nodes) (Stop.OfCall among) (raise cause) (Value.Within (MadeOf nodes)) :=
    fun hk => .throw (.inl (.raised hk))
  induction depth with
  | zero => exact fun _ _ _ _ => .throw (.inl .endless)
  | succ depth ih =>
    intro f args hf ha
    cases f with
    | atom a =>
      cases a with
      | function closure =>
        refine .ite (fun s hs => ?_) (hraise rfl)
        obtain ⟨hleft, hstop, hgives⟩ :=
          closure_ends ⟨ht, hh.fields, hr, ih⟩ (Value.within_function.mp hf) ha s hs
        exact ⟨hleft, fun stop h => .inr (hstop stop h), hgives⟩
      | native f =>
        by_cases hcount : f.arity.accepts args.length
        · have hconfined : (f.program ctx.settings programs args).Confined (MadeOf nodes) := by
            cases f with
            | builtin b => exact b.program_confined ctx.settings ha
            | host f => exact hh.confined f.number args _ ha
          have happly : apply ctx (depth + 1) (.atom (.native f)) args =
              (f.program ctx.settings programs args).run (apply ctx depth) :=
            apply_native hh hcount
          rw [happly]
          exact run_ends ih hconfined (f.program_passesOn hw ctx.settings args) fun _ => .inl
        · simp only [apply, hcount]
          exact hraise rfl
      | _ => exact hraise rfl
    | _ => exact hraise rfl

end

/-- How faults come out of functions, where calls may lie `depth` deep below. -/
structure KeepsPlaces (ctx : Context) (programs : Nat → List Value → NativeProgram)
    (nodes : Expr → Prop) (among : Token → Prop) (depth : Nat) : Prop where
  /-- What goes wrong inside a function of the template has the place of a token there, whoever
  calls the function. -/
  template : ∀ (closure : Closure) (args : List Value) (s : Store), MadeOf nodes closure →
    (∀ v ∈ args, v.Within (MadeOf nodes)) → s.Within (MadeOf nodes) →
      args.length = closure.params.length →
        ∀ stop, ((apply ctx (depth + 1) (.function closure) args).outcome s).1 = .error stop →
          stop.Bound among
  /-- A fault in a function that a built-in function calls is that of the whole call, wherever the
  call is. -/
  builtin : ∀ (b : Builtin) (args : List Value) (s : Store) (site : Token),
    b.arity.accepts args.length →
      ∀ c ∈ (b.program ctx.settings args).callbacks (apply ctx depth) s,
        ∀ fault, c.result (apply ctx depth) = .error (.fault fault) →
          ((boundTo site (apply ctx (depth + 1) (.native (.builtin b)) args)).outcome s).1 =
            .error (.fault fault)
  /-- The fault of a call of any native function is that of a function that it calls, or else the
  native function raised its cause itself, and the place is the site of the call. -/
  native : ∀ (f : Native) (args : List Value) (s : Store) (site : Token),
    f.arity.accepts args.length →
      ∀ fault, ((boundTo site (apply ctx (depth + 1) (.native f) args)).outcome s).1 =
          .error (.fault fault) →
        (∃ c ∈ (f.program ctx.settings programs args).callbacks (apply ctx depth) s,
          c.result (apply ctx depth) = .error (.fault fault)) ∨
        ∃ cause, ((apply ctx (depth + 1) (.native f) args).outcome s).1 =
          .error (.raised cause) ∧ fault = site.fault cause

section

variable {nodes : Expr → Prop} {among : Token → Prop} {ctx : Context}
  {programs : Nat → List Value → NativeProgram}

theorem keepsPlaces (ht : ∀ e, nodes e → ∀ t ∈ e.ownTokens, among t)
    (hh : ctx.host.Describes programs)
    (hw : ∀ number args, (programs number args).PassesOn Stop.Loose)
    (hr : RefusesLoosely ctx.host) (depth : Nat) : KeepsPlaces ctx programs nodes among depth where
  template closure args s hm ha hs hcount stop h := by
    have happly : apply ctx (depth + 1) (.function closure) args = (do
        let scope ← innerScope closure.scope (closure.params.zip args)
        eval ctx (apply ctx depth) closure.body scope) := if_pos hcount
    rw [happly] at h
    have hp : Places nodes among ctx (apply ctx depth) :=
      ⟨ht, hh.fields, hr, apply_ends ht hh hw hr depth⟩
    exact (closure_ends hp hm ha s hs).2.1 stop h
  builtin b args s site hcount c hc fault h := by
    have happly : apply ctx (depth + 1) (.native (.builtin b)) args =
        (b.program ctx.settings args).run (apply ctx depth) := apply_native hh hcount
    have hrun := (b.program_relays ctx.settings args).stop_of_callback hc h
    rw [happly]
    exact outcome_boundTo_error.mpr ⟨.fault fault, hrun, rfl⟩
  native f args s site hcount fault h := by
    have happly : apply ctx (depth + 1) (.native f) args =
        (f.program ctx.settings programs args).run (apply ctx depth) := apply_native hh hcount
    rw [happly] at h ⊢
    obtain ⟨inner, hrun, hfault⟩ := outcome_boundTo_error.mp h
    have horigin := (f.program_passesOn hw ctx.settings args).stop_origin hrun
    cases inner with
    | raised cause => exact .inr ⟨cause, hrun, Stop.fault.inj hfault⟩
    | fault inner =>
      obtain rfl := Stop.fault.inj hfault
      exact .inl (horigin.resolve_left nofun)
    | endless => cases hfault

end

section

variable {nodes : Expr → Prop} {among : Token → Prop} {ctx : Context} {call : Invoke}
  {schedule : Schedule}

theorem runTurns_ends {known : Closure → Prop} {E : Stop → Prop}
    {turn : Value → Run (List OutputToken)} {items : List Value}
    (hi : ∀ item ∈ items, item.Within known)
    (h : ∀ item : Value, item.Within known → Ends known E (turn item) fun _ => True)
    (order : List Nat) (buffers : List (List OutputToken)) :
    Ends known E (runTurns turn items order buffers) fun _ => True := by
  induction order generalizing buffers with
  | nil => exact .pure trivial
  | cons i order ih =>
    rw [runTurns]
    cases hitem : items[i]? with
    | none => exact ih buffers
    | some item =>
      exact (h item (hi item (List.mem_of_getElem? hitem))).bind fun tokens _ => ih _

mutual

theorem execIn_ends (hp : Places nodes among ctx call)
    (stmt : Stmt) (he : ∀ part ∈ stmt.nodes, nodes part)
    (hl : ∀ line ∈ stmt.lines, line.LineOf among) (scope : Nat) :
    Ends (MadeOf nodes) (Stop.Bound among) (execIn schedule ctx call stmt scope)
      fun _ => True := by
  match stmt with
  | .expr e =>
    refine (eval_ends hp e he scope).bind fun v _ => ?_
    refine Ends.bind (P := fun _ => True)
      (.ofKeeps (.observe fun _ _ _ _ => trivial) (.observe .endless _)) fun text _ => ?_
    exact .pure trivial
  | .declare name init =>
    refine (evalOrNull_ends hp init he scope).bind fun v hv => ?_
    exact (define_ends scope name.lexeme hv).bind fun _ _ => .pure trivial
  | .block body =>
    simp only [Stmt.lines, List.forall_mem_cons] at hl
    exact (innerScope_ends scope (List.forall_mem_nil _)).bind fun inner _ =>
      execAllIn_ends hp body he hl.2 inner []
  | .ifTrue condition body =>
    simp only [Stmt.nodes, List.forall_mem_append] at he
    simp only [Stmt.lines, List.forall_mem_cons] at hl
    refine (eval_ends hp condition he.1 scope).bind fun v _ => ?_
    refine (isTruthy_ends v).bind fun _ _ => .ite ?_ (.pure trivial)
    exact (innerScope_ends scope (List.forall_mem_nil _)).bind fun inner _ =>
      execAllIn_ends hp body he.2 hl.2 inner []
  | .forEach element items body =>
    simp only [Stmt.nodes, List.forall_mem_append] at he
    simp only [Stmt.lines, List.forall_mem_cons] at hl
    have hto := hl.1.tokens element List.mem_cons_self
    rw [execIn]
    refine (eval_ends hp items he.1 scope).bind fun v hv => ?_
    refine (Ends.ofKeeps (loopItems_keeps element hv) (loopItems_stops v hto)).bind
      fun items hitems => ?_
    refine Ends.bind (P := fun _ => True) (.ofKeeps (.read fun _ _ => trivial) (.read _))
      fun order _ => ?_
    refine (runTurns_ends hitems (fun item hitem => ?_) order _).bind fun _ _ => .pure trivial
    exact (innerScope_ends scope (List.forall_mem_singleton.mpr hitem)).bind fun inner _ =>
      execAllIn_ends hp body he.2 hl.2 inner []
  | .run e => exact (eval_ends hp e he scope).bind fun _ _ => .pure trivial
  | .verbatim item =>
    simp only [Stmt.lines, List.forall_mem_singleton] at hl
    exact .ofKeeps (copy_keeps item) (copy_stops (hl.copies item rfl))
  | .insert keyword target body | .rewrite keyword target body =>
    simp only [Stmt.nodes, List.forall_mem_append] at he
    simp only [Stmt.lines, List.forall_mem_cons] at hl
    have hto := hl.1.tokens keyword List.mem_cons_self
    rw [execIn]
    refine (eval_ends hp target he.1 scope).bind fun v _ => ?_
    have hbody := (innerScope_ends scope (List.forall_mem_nil _)).bind fun inner _ =>
      execAllIn_ends hp body he.2 hl.2 inner []
    split
    · exact hbody
    · refine (innerScope_ends scope (List.forall_mem_nil _)).bind fun inner _ => ?_
      refine (execAllIn_ends hp body he.2 hl.2 inner []).bind fun tokens _ => ?_
      exact .ofKeeps (rewriteBody_keeps ctx keyword _ tokens) (rewriteBody_stops _ tokens hto)
    · exact .throw (.fault hto rfl)

theorem execAllIn_ends (hp : Places nodes among ctx call)
    (body : List Stmt) (he : ∀ part ∈ Stmt.nodesOfBody body, nodes part)
    (hl : ∀ line ∈ Stmt.linesOfBody body, line.LineOf among) (scope : Nat)
    (done : List (List OutputToken)) :
    Ends (MadeOf nodes) (Stop.Bound among) (execAllIn schedule ctx call body scope done)
      fun _ => True := by
  match body with
  | [] => exact .pure trivial
  | stmt :: body =>
    simp only [Stmt.nodesOfBody, List.forall_mem_append] at he
    simp only [Stmt.linesOfBody, List.forall_mem_append] at hl
    exact (execIn_ends hp stmt he.1 hl.1 scope).bind fun tokens _ =>
      execAllIn_ends hp body he.2 hl.2 scope (tokens :: done)

end

end

end Run

end DocTemplate
