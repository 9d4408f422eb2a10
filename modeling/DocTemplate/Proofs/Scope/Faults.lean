import DocTemplate.Proofs.Program.Assembly
import DocTemplate.Program.Resolve

namespace DocTemplate

def FailsAt {κ α : Type} (among : Token → Prop) (result : Except (Fault κ) α) : Prop :=
  ∀ f, result = .error f → ∃ t, among t ∧ ∃ cause, f = t.fault cause

namespace FailsAt

variable {κ α β : Type} {among : Token → Prop} {result : Except (Fault κ) α}

theorem ok (a : α) : FailsAt among (.ok a : Except (Fault κ) α) := fun _ => nofun

theorem error {t : Token} (ht : among t) (cause : κ) :
    FailsAt among (.error (t.fault cause) : Except (Fault κ) α) :=
  fun _ h => ⟨t, ht, cause, (Except.error.inj h).symm⟩

theorem bind {f : α → Except (Fault κ) β} (h : FailsAt among result)
    (hf : ∀ a, FailsAt among (f a)) : FailsAt among (result >>= f) :=
  forall_bind_error h hf

end FailsAt

namespace Resolver

variable {among : Token → Prop}

theorem declare_fails (r : Resolver) {name : Token} (ht : among name) :
    FailsAt among (r.declare name) := by
  unfold declare
  split
  · split
    · exact .error ht _
    · exact .ok _
  · exact .ok _

theorem addParams_fails (params : List Token) (ht : ∀ t ∈ params, among t) (r : Resolver) :
    FailsAt among (r.addParams params) := by
  induction params generalizing r with
  | nil => exact .ok r
  | cons p params ih =>
    obtain ⟨hp, hparams⟩ := List.forall_mem_cons.mp ht
    unfold addParams
    split
    · split
      · exact .error hp _
      · exact ih hparams _
    · exact ih hparams _

mutual

theorem resolveExpr_fails (e : Expr) (he : ∀ part ∈ e.nodes, ∀ t ∈ part.ownTokens, among t)
    (r : Resolver) : FailsAt among (resolveExpr e r) := by
  match e with
  | .constant _ _ => exact .ok r
  | .name site token =>
    simp only [Expr.nodes, List.forall_mem_cons] at he
    rw [resolveExpr]
    split
    · exact .error (he.1 token List.mem_cons_self) _
    · exact .ok _
  | .assign _ _ value =>
    simp only [Expr.nodes, List.forall_mem_cons] at he
    exact (resolveExpr_fails value he.2 r).bind fun _ => .ok _
  | .unary _ _ _ operand =>
    simp only [Expr.nodes, List.forall_mem_cons] at he
    exact resolveExpr_fails operand he.2 r
  | .binary _ _ _ left right =>
    simp only [Expr.nodes, List.forall_mem_cons, List.forall_mem_append] at he
    exact (resolveExpr_fails left he.1.2 r).bind fun r => resolveExpr_fails right he.2 r
  | .group _ inner =>
    simp only [Expr.nodes, List.forall_mem_cons] at he
    exact resolveExpr_fails inner he.2 r
  | .call _ callee _ args =>
    simp only [Expr.nodes, List.forall_mem_cons, List.forall_mem_append] at he
    exact (resolveExpr_fails callee he.1.2 r).bind fun r => resolveExprs_fails args he.2 r
  | .get _ object _ _ =>
    simp only [Expr.nodes, List.forall_mem_cons] at he
    exact resolveExpr_fails object he.2 r
  | .set _ object _ value =>
    simp only [Expr.nodes, List.forall_mem_cons, List.forall_mem_append] at he
    exact (resolveExpr_fails value he.2 r).bind fun r => resolveExpr_fails object he.1.2 r
  | .choose _ branches otherwise =>
    simp only [Expr.nodes, List.forall_mem_cons, List.forall_mem_append] at he
    exact (resolveBranches_fails branches he.1.2 r).bind fun r =>
      resolveOptional_fails otherwise he.2 r
  | .lambda _ params body =>
    simp only [Expr.nodes, List.forall_mem_cons] at he
    refine (addParams_fails params he.1 r.enter).bind fun r => ?_
    exact (resolveExpr_fails body he.2 r).bind fun _ => .ok _
  | .list _ items =>
    simp only [Expr.nodes, List.forall_mem_cons] at he
    exact resolveExprs_fails items he.2 r

theorem resolveExprs_fails (es : List Expr)
    (he : ∀ part ∈ Expr.nodesOfItems es, ∀ t ∈ part.ownTokens, among t) (r : Resolver) :
    FailsAt among (resolveExprs es r) := by
  match es with
  | [] => exact .ok r
  | e :: es =>
    simp only [Expr.nodesOfItems, List.forall_mem_append] at he
    exact (resolveExpr_fails e he.1 r).bind fun r => resolveExprs_fails es he.2 r

theorem resolveBranches_fails (branches : List (Expr × Expr))
    (he : ∀ part ∈ Expr.nodesOfBranches branches, ∀ t ∈ part.ownTokens, among t)
    (r : Resolver) : FailsAt among (resolveBranches branches r) := by
  match branches with
  | [] => exact .ok r
  | (condition, result) :: branches =>
    simp only [Expr.nodesOfBranches, List.forall_mem_append] at he
    refine (resolveExpr_fails condition he.1.1 r).bind fun r => ?_
    exact (resolveExpr_fails result he.1.2 r).bind fun r => resolveBranches_fails branches he.2 r

theorem resolveOptional_fails (e : Option Expr)
    (he : ∀ part ∈ Expr.nodesOfOptional e, ∀ t ∈ part.ownTokens, among t) (r : Resolver) :
    FailsAt among (resolveOptional e r) := by
  match e with
  | none => exact .ok r
  | some e => exact resolveExpr_fails e he r

end

mutual

theorem resolveStmt_fails (stmt : Stmt)
    (he : ∀ part ∈ stmt.nodes, ∀ t ∈ part.ownTokens, among t)
    (hl : ∀ line ∈ stmt.lines, line.LineOf among) (r : Resolver) :
    FailsAt among (resolveStmt stmt r) := by
  match stmt with
  | .expr e | .run e => exact resolveExpr_fails e he r
  | .declare name init =>
    simp only [Stmt.lines, List.forall_mem_cons] at hl
    refine (declare_fails r (hl.1.tokens name List.mem_cons_self)).bind fun r => ?_
    exact (resolveOptional_fails init he r).bind fun _ => .ok _
  | .block body =>
    simp only [Stmt.lines, List.forall_mem_cons] at hl
    exact (resolveStmts_fails body he hl.2 r.enter).bind fun _ => .ok _
  | .ifTrue e body | .insert _ e body | .rewrite _ e body =>
    simp only [Stmt.nodes, List.forall_mem_append] at he
    simp only [Stmt.lines, List.forall_mem_cons] at hl
    refine (resolveExpr_fails e he.1 r).bind fun r => ?_
    exact (resolveStmts_fails body he.2 hl.2 r.enter).bind fun _ => .ok _
  | .forEach element e body =>
    simp only [Stmt.nodes, List.forall_mem_append] at he
    simp only [Stmt.lines, List.forall_mem_cons] at hl
    refine (resolveExpr_fails e he.1 r).bind fun r => ?_
    exact (resolveStmts_fails body he.2 hl.2 _).bind fun _ => .ok _
  | .verbatim _ => exact .ok r

theorem resolveStmts_fails (body : List Stmt)
    (he : ∀ part ∈ Stmt.nodesOfBody body, ∀ t ∈ part.ownTokens, among t)
    (hl : ∀ line ∈ Stmt.linesOfBody body, line.LineOf among) (r : Resolver) :
    FailsAt among (resolveStmts body r) := by
  match body with
  | [] => exact .ok r
  | stmt :: body =>
    simp only [Stmt.nodesOfBody, List.forall_mem_append] at he
    simp only [Stmt.linesOfBody, List.forall_mem_append] at hl
    exact (resolveStmt_fails stmt he.1 hl.1 r).bind fun r => resolveStmts_fails body he.2 hl.2 r

end

end Resolver

theorem resolve_fails {p : Program} {among : Token → Prop}
    (he : ∀ part ∈ p.nodes, ∀ t ∈ part.ownTokens, among t)
    (hl : ∀ line ∈ p.lines, line.LineOf among) (globals : List String) :
    FailsAt among (resolve p globals) :=
  (Resolver.resolveStmts_fails p.body he hl _).bind fun _ => .ok _

end DocTemplate
