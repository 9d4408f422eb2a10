import DocTemplate.Proofs.Run.Located
import DocTemplate.Proofs.Scope.Agreement
import DocTemplate.Proofs.Scope.Faults
import DocTemplate.Proofs.Template.Parallel

namespace DocTemplate

namespace Program

variable {p : Program}

theorem mem_tokens_of_node {e : Expr} (he : e ∈ p.nodes) : ∀ t ∈ e.ownTokens, t ∈ p.tokens :=
  fun _ ht => List.mem_append_right _ (List.mem_flatMap.mpr ⟨e, he, ht⟩)

theorem mem_tokens_of_line {line : Stmt} (hl : line ∈ p.lines) :
    ∀ t ∈ line.ownTokens, t ∈ p.tokens :=
  fun _ ht => List.mem_append_left _ (List.mem_flatMap.mpr ⟨line, hl, ht⟩)

theorem lineOf_tokens {stream : TemplateStream} (hp : parseProgram stream = .ok p) :
    ∀ line ∈ p.lines, line.LineOf (· ∈ p.tokens) :=
  fun line hl => ⟨mem_tokens_of_line hl, ((parseProgram_assembled hp).lines line hl).copies⟩

/-- The error has the place and the text of a token of the program, one that was read from a group
of the template. It is the resolver's, or the run has raised it, and it is not internal. -/
structure LocatedFailure (p : Program) (stream : TemplateStream) (globals : List String)
    (e : TemplateError) : Prop where
  located : ∃ t ∈ p.tokens, e.span = t.span ∧ e.lexeme = t.lexeme ∧
    ∃ id ∈ groupIds stream.items, t ∈ (stream.groups.lookup id).tokens
  kind : (e.kind = .grammar ∧ resolveNames p globals = .error e) ∨ e.kind = .runtime
  notFatal : e.isFatal = false

section

variable {stream : TemplateStream} {around : Surroundings}
  {programs : Nat → List Value → NativeProgram} {data : List (String × Value)} {store : Store}

theorem resolveNames_located (hp : parseProgram stream = .ok p) {globals : List String}
    {e : TemplateError} (h : resolveNames p globals = .error e) :
    LocatedFailure p stream globals e := by
  obtain ⟨fault, hfault, rfl⟩ := mapError_eq_error.mp h
  obtain ⟨t, ht, cause, rfl⟩ :=
    resolve_fails (fun _ he => mem_tokens_of_node he) (lineOf_tokens hp) globals fault hfault
  exact ⟨⟨t, ht, rfl, rfl, parseProgram_tokens hp t ht⟩, .inl ⟨rfl, h⟩, rfl⟩

theorem bound_located (hp : parseProgram stream = .ok p) {globals : List String} {stop : Stop}
    {e : TemplateError} (hb : stop.Bound (· ∈ p.tokens)) (h : stop.failure = .template e) :
    LocatedFailure p stream globals e := by
  cases hb with
  | @fault t cause ht hk =>
    obtain rfl := RenderFailure.template.inj h
    have hfatal : (cause.kind == .internal) = false := by rw [hk]; rfl
    exact ⟨⟨t, ht, rfl, rfl, parseProgram_tokens hp t ht⟩, .inr hk, hfatal⟩
  | endless => cases h

theorem renderIn_located (hp : parseProgram stream = .ok p)
    (hh : around.host.Describes programs)
    (hw : ∀ number args, (programs number args).PassesOn Stop.Loose)
    (hr : Run.RefusesLoosely around.host)
    (hd : ∀ pair ∈ data, pair.2.Within (MadeOf (· ∈ p.nodes)))
    (hs : store.Within (MadeOf (· ∈ p.nodes))) {schedule : Schedule} {e : TemplateError}
    (h : (p.renderIn schedule around data store).1 = .error (.template e)) :
    LocatedFailure p stream (globalNames data) e := by
  rw [renderIn, ← globalNames] at h
  cases hres : resolveNames p (globalNames data) with
  | error fault =>
    rw [hres] at h
    obtain rfl := RenderFailure.template.inj (Except.error.inj h)
    exact resolveNames_located hp hres
  | ok resolution =>
    rw [hres] at h
    dsimp only at h
    rw [runIn_eq] at h
    obtain ⟨stop, hstop, hfailure⟩ := mapError_eq_error.mp h
    let ctx := context around resolution store
    have hplaces : Run.Places (· ∈ p.nodes) (· ∈ p.tokens) ctx (Run.apply ctx around.depth) :=
      ⟨fun _ => mem_tokens_of_node, hh.fields, hr,
        Run.apply_ends (fun _ => mem_tokens_of_node) hh hw hr around.depth⟩
    have hends : Run.Ends (MadeOf (· ∈ p.nodes)) (Stop.Bound (· ∈ p.tokens))
        (Run.execAllIn schedule ctx (Run.apply ctx around.depth) p.body ctx.globals [])
        fun _ => True :=
      Run.execAllIn_ends hplaces p.body (fun _ he => he) (lineOf_tokens hp) ctx.globals []
    have hbound := (hends _ (startStore_within hd hs)).2.1 stop hstop
    exact bound_located hp hbound hfailure

/-- Whatever the order of loop turns, a rendering that fails tells a token of the template. What
goes wrong in a function that a native function calls is told at a token of the inner function.

The functions in the data and the store are those of the program: a function is kept as the number
of an expression of the program that is rendered. Host functions make no functions of a template
up. What they and host objects refuse is told in words that have no place of their own, or it is
what a function that they called has failed with. A run without an end gives no error. -/
theorem render_fails_located (hp : parseProgram stream = .ok p)
    (hh : around.host.Describes programs)
    (hw : ∀ number args, (programs number args).PassesOn Stop.Loose)
    (hr : Run.RefusesLoosely around.host)
    (hd : ∀ pair ∈ data, pair.2.Within (MadeOf (· ∈ p.nodes)))
    (hs : store.Within (MadeOf (· ∈ p.nodes))) :
    (∀ e, ((p.render around data store).1 = .error (.template e) ∨
        ∃ schedule, (p.renderIn schedule around data store).1 = .error (.template e)) →
      LocatedFailure p stream (globalNames data) e) ∧
      ∀ resolution globals depth,
        Run.KeepsPlaces ⟨resolution, around.host, around.settings, globals⟩ programs
          (· ∈ p.nodes) (· ∈ p.tokens) depth := by
  refine ⟨fun e h => ?_, fun resolution globals depth => ?_⟩
  · rcases h with h | ⟨schedule, h⟩
    · rw [← renderIn_inOrder] at h
      exact renderIn_located hp hh hw hr hd hs h
    · exact renderIn_located hp hh hw hr hd hs h
  · exact Run.keepsPlaces (fun _ => mem_tokens_of_node) hh hw hr depth

end

def callWithZero : List Value → NativeProgram
  | f :: _ => .call f [.int 0] .done
  | [] => .done (.error (.raised (.host "nothing to call")))

theorem callWithZero_describes : (hosting callWithZero).host.Describes fun _ => callWithZero := by
  refine ⟨fun _ _ _ => rfl, fun _ args known ha => ?_, fun _ => ⟨nofun, nofun⟩⟩
  cases args with
  | nil => trivial
  | cons f args =>
    have hzero : (Value.int 0).Within known := Value.within_of_closures rfl
    refine ⟨ha f List.mem_cons_self, List.forall_mem_singleton.mpr hzero, ?_⟩
    intro known' _ result hresult
    cases result with
    | ok v => exact hresult v rfl
    | error stop => trivial

theorem callWithZero_passesOn (args : List Value) : (callWithZero args).PassesOn Stop.Loose := by
  cases args with
  | nil =>
    intro stop h
    obtain rfl := Except.error.inj h
    exact .raised rfl
  | cons _ _ => exact fun _ _ h => .inr h

/-- `{f(x -> 10 / x)}` -/
def divisionInFunction : TemplateStream where
  items := [.group 0]
  groups := #[keptFunction.group .placeholder [
    ⟨.identifier, "f", ⟨1, 2⟩, none⟩, ⟨.leftParen, "(", ⟨2, 3⟩, none⟩,
    ⟨.identifier, "x", ⟨3, 4⟩, none⟩, ⟨.arrow, "->", ⟨5, 7⟩, none⟩,
    ⟨.number, "10", ⟨8, 10⟩, some (.int 10)⟩, ⟨.slash, "/", ⟨11, 12⟩, none⟩,
    ⟨.identifier, "x", ⟨13, 14⟩, none⟩, ⟨.rightParen, ")", ⟨14, 15⟩, none⟩]]

/-- A program, and the error of its rendering when the host function is `f`. -/
def failure? (source : TemplateStream) (f : List Value → NativeProgram) :
    Option (Program × TemplateError) := do
  let p ← (parseProgram source).toOption
  match (p.render (hosting f) hostData .empty).1 with
  | .error (.template e) => return (p, e)
  | _ => none

theorem of_failure? {source : TemplateStream} {f : List Value → NativeProgram} {e : TemplateError}
    (h : failure? source f = some (p, e)) :
    parseProgram source = .ok p ∧
      (p.render (hosting f) hostData .empty).1 = .error (.template e) := by
  obtain ⟨p', hp, h⟩ := Option.bind_eq_some_iff.mp h
  split at h
  · rename_i e' he
    obtain ⟨rfl, rfl⟩ := Prod.mk.inj (Option.some.inj h)
    exact ⟨ok_of_toOption hp, he⟩
  · cases h

/-- A host function calls back, and the fault is at the division, not at the call. -/
theorem render_fails_located_callback :
    ∃ p e, parseProgram divisionInFunction = .ok p ∧
      (p.render (hosting callWithZero) hostData .empty).1 = .error (.template e) ∧
        e = ⟨.runtime, "Division by zero.", ⟨11, 12⟩, "/"⟩ ∧
          LocatedFailure p divisionInFunction (globalNames hostData) e := by
  have hfailure : (failure? divisionInFunction callWithZero).map Prod.snd =
      some ⟨.runtime, "Division by zero.", ⟨11, 12⟩, "/"⟩ := by
    decide +kernel
  obtain ⟨⟨p, e⟩, hfailure, he⟩ := Option.map_eq_some_iff.mp hfailure
  obtain ⟨hp, hr⟩ := of_failure? hfailure
  have h := @render_fails_located p divisionInFunction (hosting callWithZero) _ hostData .empty hp
    callWithZero_describes (fun _ => callWithZero_passesOn) nofun
    (List.forall_mem_singleton.mpr (Value.within_of_closures rfl)) .empty
  exact ⟨p, e, hp, hr, he, h.1 e (.inl hr)⟩

/-- A host function that makes up an internal fault without a place is not corrected. -/
theorem render_fails_unlocated :
    ∃ p e, parseProgram divisionInFunction = .ok p ∧
      (p.render (hosting fun _ => .done (.error (.fault ⟨.looseGroup, .point 0, ""⟩)))
        hostData .empty).1 = .error (.template e) ∧
      e.isFatal = true ∧ ∀ t ∈ p.tokens, e.lexeme ≠ t.lexeme := by
  have hfailure : (failure? divisionInFunction fun _ =>
      .done (.error (.fault ⟨.looseGroup, .point 0, ""⟩))).map (fun (p, e) =>
        (e.isFatal, p.tokens.all fun t => e.lexeme ≠ t.lexeme)) = some (true, true) := by
    decide +kernel
  obtain ⟨⟨p, e⟩, hfailure, he⟩ := Option.map_eq_some_iff.mp hfailure
  obtain ⟨hfatal, htokens⟩ := Prod.mk.inj he
  obtain ⟨hp, hr⟩ := of_failure? hfailure
  exact ⟨p, e, hp, hr, hfatal, fun t ht => of_decide_eq_true (List.all_eq_true.mp htokens t ht)⟩

end Program

end DocTemplate
