import DocTemplate.Proofs.Outcome
import DocTemplate.Template.Render

namespace DocTemplate

namespace Resolver

/-- Two states of a walk that differ in the global scope at most. -/
structure Alike (r s : Resolver) : Prop where
  locals : r.locals = s.locals
  hops : r.hops = s.hops

variable {r s : Resolver}

theorem Alike.put (h : r.Alike s) (name : String) (ready : Bool) :
    (r.put name ready).Alike (s.put name ready) := by
  obtain ⟨locals, globals, hops⟩ := r
  obtain ⟨_, globals', _⟩ := s
  obtain ⟨rfl, rfl⟩ := h
  cases locals with
  | nil => exact ⟨rfl, rfl⟩
  | cons scope scopes => exact ⟨rfl, rfl⟩

theorem Alike.define (h : r.Alike s) (name : String) : (r.define name).Alike (s.define name) :=
  h.put name true

theorem Alike.record (h : r.Alike s) (node : Nat) (name : String) :
    (r.record node name).Alike (s.record node name) := by
  refine ⟨h.locals, ?_⟩
  rw [Resolver.record, Resolver.record, h.locals, h.hops]

theorem Alike.enter (h : r.Alike s) : r.enter.Alike s.enter :=
  ⟨congrArg (List.cons []) h.locals, h.hops⟩

theorem Alike.leave (h : r.Alike s) : r.leave.Alike s.leave :=
  ⟨congrArg List.tail h.locals, h.hops⟩

theorem Alike.isBeingDeclared (h : r.Alike s) (name : String) :
    r.isBeingDeclared name = s.isBeingDeclared name := by
  rw [Resolver.isBeingDeclared, Resolver.isBeingDeclared, h.locals]

theorem Alike.declare (h : r.Alike s) (name : Token) :
    Results Alike (r.declare name) (s.declare name) := by
  rw [Resolver.declare, Resolver.declare, ← h.locals]
  split
  · split
    · exact .error _
    · exact .ok (h.put name.lexeme false)
  · exact .ok h

theorem Alike.addParams (h : r.Alike s) (params : List Token) :
    Results Alike (r.addParams params) (s.addParams params) := by
  induction params generalizing r s with
  | nil => exact .ok h
  | cons p params ih =>
    rw [Resolver.addParams, Resolver.addParams, ← h.locals]
    split
    · split
      · exact .error _
      · exact ih (h.define p.lexeme)
    · exact ih (h.define p.lexeme)

mutual

theorem resolveExpr_alike (e : Expr) (r s : Resolver) (h : r.Alike s) :
    Results Alike (resolveExpr e r) (resolveExpr e s) := by
  match e with
  | .constant _ _ => exact .ok h
  | .name site token =>
    rw [resolveExpr, resolveExpr, h.isBeingDeclared]
    split
    · exact .error _
    · exact .ok (h.record site.id token.lexeme)
  | .assign site token value =>
    exact (resolveExpr_alike value r s h).bind fun r s h => .ok (h.record site.id token.lexeme)
  | .unary _ _ _ operand => exact resolveExpr_alike operand r s h
  | .binary _ _ _ left right =>
    exact (resolveExpr_alike left r s h).bind fun r s h => resolveExpr_alike right r s h
  | .group _ inner => exact resolveExpr_alike inner r s h
  | .call _ callee _ args =>
    exact (resolveExpr_alike callee r s h).bind fun r s h => resolveExprs_alike args r s h
  | .get _ object _ _ => exact resolveExpr_alike object r s h
  | .set _ object _ value =>
    exact (resolveExpr_alike value r s h).bind fun r s h => resolveExpr_alike object r s h
  | .choose _ branches otherwise =>
    exact (resolveBranches_alike branches r s h).bind fun r s h =>
      resolveOptional_alike otherwise r s h
  | .lambda _ params body =>
    refine (h.enter.addParams params).bind fun r s h => ?_
    exact (resolveExpr_alike body r s h).bind fun _ _ h => .ok h.leave
  | .list _ items => exact resolveExprs_alike items r s h

theorem resolveExprs_alike (es : List Expr) (r s : Resolver) (h : r.Alike s) :
    Results Alike (resolveExprs es r) (resolveExprs es s) := by
  match es with
  | [] => exact .ok h
  | e :: es => exact (resolveExpr_alike e r s h).bind fun r s h => resolveExprs_alike es r s h

theorem resolveBranches_alike (branches : List (Expr × Expr)) (r s : Resolver) (h : r.Alike s) :
    Results Alike (resolveBranches branches r) (resolveBranches branches s) := by
  match branches with
  | [] => exact .ok h
  | (condition, result) :: branches =>
    refine (resolveExpr_alike condition r s h).bind fun r s h => ?_
    exact (resolveExpr_alike result r s h).bind fun r s h => resolveBranches_alike branches r s h

theorem resolveOptional_alike (e : Option Expr) (r s : Resolver) (h : r.Alike s) :
    Results Alike (resolveOptional e r) (resolveOptional e s) := by
  match e with
  | none => exact .ok h
  | some e => exact resolveExpr_alike e r s h

end

mutual

theorem resolveStmt_alike (stmt : Stmt) (r s : Resolver) (h : r.Alike s) :
    Results Alike (resolveStmt stmt r) (resolveStmt stmt s) := by
  match stmt with
  | .expr e | .run e => exact resolveExpr_alike e r s h
  | .declare name init =>
    refine (h.declare name).bind fun r s h => ?_
    exact (resolveOptional_alike init r s h).bind fun _ _ h => .ok (h.define name.lexeme)
  | .block body =>
    exact (resolveStmts_alike body _ _ h.enter).bind fun _ _ h => .ok h.leave
  | .ifTrue e body | .insert _ e body | .rewrite _ e body =>
    refine (resolveExpr_alike e r s h).bind fun r s h => ?_
    exact (resolveStmts_alike body _ _ h.enter).bind fun _ _ h => .ok h.leave
  | .forEach element e body =>
    refine (resolveExpr_alike e r s h).bind fun r s h => ?_
    exact (resolveStmts_alike body _ _ (h.enter.define element.lexeme)).bind fun _ _ h =>
      .ok h.leave
  | .verbatim _ => exact .ok h

theorem resolveStmts_alike (body : List Stmt) (r s : Resolver) (h : r.Alike s) :
    Results Alike (resolveStmts body r) (resolveStmts body s) := by
  match body with
  | [] => exact .ok h
  | stmt :: body =>
    exact (resolveStmt_alike stmt r s h).bind fun r s h => resolveStmts_alike body r s h

end

end Resolver

theorem resolve_congr (p : Program) (globals globals' : List String) :
    resolve p globals = resolve p globals' := by
  let start (globals : List String) : Resolver :=
    ⟨[], globals.map (·, true), Array.replicate p.nodeCount none⟩
  have hwalk : Results Resolver.Alike (Resolver.resolveStmts p.body (start globals))
      (Resolver.resolveStmts p.body (start globals')) :=
    Resolver.resolveStmts_alike p.body _ _ ⟨rfl, rfl⟩
  exact Results.eq (hwalk.bind fun r s h => .ok (congrArg Resolution.mk h.hops))

theorem resolveNames_congr (p : Program) (globals globals' : List String) :
    resolveNames p globals = resolveNames p globals' := by
  rw [resolveNames, resolveNames, resolve_congr p globals globals']

namespace Program

/-- Names are resolved alike whatever the global names are, down to the fault when they cannot be.
So a rendering may start from the result that was found for any other data. -/
theorem resolve_independent (p : Program) :
    (∀ globals globals', resolve p globals = resolve p globals') ∧
    ∀ names schedule around data store,
      (p.render around data store =
        match resolveNames p names with
        | .ok resolution => p.run around resolution data store
        | .error e => (.error (.template e), store)) ∧
      p.renderIn schedule around data store =
        match resolveNames p names with
        | .ok resolution => p.runIn schedule around resolution data store
        | .error e => (.error (.template e), store) := by
  refine ⟨resolve_congr p, fun names schedule around data store => ?_⟩
  rw [resolveNames_congr p names (Builtin.all.map Builtin.name ++ data.map Prod.fst)]
  exact ⟨rfl, rfl⟩

end Program

end DocTemplate
