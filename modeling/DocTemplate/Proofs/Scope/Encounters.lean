import DocTemplate.Proofs.Program.Assembly
import DocTemplate.Proofs.Scope.Visit
import Mathlib.Data.List.Perm.Subperm

namespace DocTemplate

structure Encounter where
  node : Nat
  locals : List NameScope

/-- A walk of the resolver: what it meets, and how it ends. -/
structure Walk where
  met : List Encounter
  result : Except ScopeFault Resolver

namespace Walk

def step (result : Except ScopeFault Resolver) : Walk := ⟨[], result⟩

def andThen (w : Walk) (next : Resolver → Walk) : Walk :=
  match w.result with
  | .ok r => ⟨w.met ++ (next r).met, (next r).result⟩
  | .error fault => ⟨w.met, .error fault⟩

def meet (e : Expr) (r : Resolver) (w : Walk) : Walk := ⟨⟨e.site.id, r.locals⟩ :: w.met, w.result⟩

end Walk

namespace Resolver

mutual

def walkExpr : Expr → Resolver → Walk
  | e@(.constant _ _), r => .meet e r (.step (.ok r))
  | e@(.name _ _), r => .meet e r (.step (resolveExpr e r))
  | e@(.assign site token value), r =>
    .meet e r ((walkExpr value r).andThen fun r => .step (.ok (r.record site.id token.lexeme)))
  | e@(.unary _ _ _ operand), r => .meet e r (walkExpr operand r)
  | e@(.binary _ _ _ left right), r => .meet e r ((walkExpr left r).andThen (walkExpr right))
  | e@(.group _ inner), r => .meet e r (walkExpr inner r)
  | e@(.call _ callee _ args), r => .meet e r ((walkExpr callee r).andThen (walkExprs args))
  | e@(.get _ object _ _), r => .meet e r (walkExpr object r)
  | e@(.set _ object _ value), r => .meet e r ((walkExpr value r).andThen (walkExpr object))
  | e@(.choose _ branches otherwise), r =>
    .meet e r ((walkBranches branches r).andThen (walkOptional otherwise))
  | e@(.lambda _ params body), r =>
    .meet e r ((Walk.step (r.enter.addParams params)).andThen fun r =>
      (walkExpr body r).andThen fun r => .step (.ok r.leave))
  | e@(.list _ items), r => .meet e r (walkExprs items r)

def walkExprs : List Expr → Resolver → Walk
  | [], r => .step (.ok r)
  | e :: es, r => (walkExpr e r).andThen (walkExprs es)

def walkBranches : List (Expr × Expr) → Resolver → Walk
  | [], r => .step (.ok r)
  | (condition, result) :: branches, r =>
    (walkExpr condition r).andThen fun r => (walkExpr result r).andThen (walkBranches branches)

def walkOptional : Option Expr → Resolver → Walk
  | none, r => .step (.ok r)
  | some e, r => walkExpr e r

end

mutual

def walkStmt : Stmt → Resolver → Walk
  | .expr e, r => walkExpr e r
  | .run e, r => walkExpr e r
  | .declare name init, r =>
    (Walk.step (r.declare name)).andThen fun r =>
      (walkOptional init r).andThen fun r => .step (.ok (r.define name.lexeme))
  | .block body, r => (walkStmts body r.enter).andThen fun r => .step (.ok r.leave)
  | .ifTrue condition body, r =>
    (walkExpr condition r).andThen fun r =>
      (walkStmts body r.enter).andThen fun r => .step (.ok r.leave)
  | .forEach element items body, r =>
    (walkExpr items r).andThen fun r =>
      (walkStmts body (r.enter.define element.lexeme)).andThen fun r => .step (.ok r.leave)
  | .insert _ rewriter body, r =>
    (walkExpr rewriter r).andThen fun r =>
      (walkStmts body r.enter).andThen fun r => .step (.ok r.leave)
  | .rewrite _ rewriter body, r =>
    (walkExpr rewriter r).andThen fun r =>
      (walkStmts body r.enter).andThen fun r => .step (.ok r.leave)
  | .verbatim _, r => .step (.ok r)

def walkStmts : List Stmt → Resolver → Walk
  | [], r => .step (.ok r)
  | s :: ss, r => (walkStmt s r).andThen (walkStmts ss)

end

end Resolver

def Program.walk (p : Program) (globals : List String) : Walk :=
  Resolver.walkStmts p.body (p.resolver globals)

/-- A walk with this result, which meets nodes among these at most once each, and all of them when
no fault stops it. -/
structure Walk.Covers (w : Walk) (result : Except ScopeFault Resolver) (nodes : List Expr) :
    Prop where
  result_eq : w.result = result
  once : (w.met.map (·.node)).Subperm (nodes.map (·.site.id))
  all : result.isOk → (w.met.map (·.node)).Perm (nodes.map (·.site.id))

namespace Walk.Covers

variable {w : Walk} {result : Except ScopeFault Resolver} {nodes nodes' : List Expr}
  {next : Resolver → Walk} {f : Resolver → Except ScopeFault Resolver}

theorem step (result : Except ScopeFault Resolver) : (Walk.step result).Covers result [] :=
  ⟨rfl, .refl _, fun _ => .refl _⟩

theorem meet (h : w.Covers result nodes) (e : Expr) (r : Resolver) :
    (Walk.meet e r w).Covers result (e :: nodes) :=
  ⟨h.result_eq, (List.subperm_cons _).mpr h.once, fun hr => (h.all hr).cons _⟩

theorem perm (h : w.Covers result nodes) (hp : nodes.Perm nodes') : w.Covers result nodes' :=
  ⟨h.result_eq, h.once.trans (hp.map _).subperm, fun hr => (h.all hr).trans (hp.map _)⟩

theorem andThen (h : w.Covers result nodes) (hn : ∀ r, (next r).Covers (f r) nodes') :
    (w.andThen next).Covers (result >>= f) (nodes ++ nodes') := by
  obtain ⟨met, _⟩ := w
  obtain ⟨heq, honce, hall⟩ := h
  obtain rfl := heq
  rename_i result
  cases result with
  | ok r =>
    have hr := hn r
    refine ⟨hr.result_eq, ?_, fun hf => ?_⟩
    · rw [Walk.andThen, List.map_append, List.map_append]
      exact honce.append hr.once
    · rw [Walk.andThen, List.map_append, List.map_append]
      exact (hall rfl).append (hr.all hf)
  | error fault =>
    refine ⟨rfl, ?_, fun hf => nomatch hf⟩
    rw [List.map_append]
    exact honce.trans (List.sublist_append_left _ _).subperm

theorem andStep (h : w.Covers result nodes) (f : Resolver → Except ScopeFault Resolver) :
    (w.andThen fun r => .step (f r)).Covers (result >>= f) nodes :=
  List.append_nil nodes ▸ h.andThen fun r => .step (f r)

end Walk.Covers

namespace Resolver

mutual

theorem walkExpr_covers (e : Expr) (r : Resolver) :
    (walkExpr e r).Covers (resolveExpr e r) e.nodes := by
  cases e with
  | constant site value => exact (Walk.Covers.step _).meet _ r
  | name site token => exact (Walk.Covers.step _).meet _ r
  | assign site token value =>
    rw [walkExpr, resolveExpr, Expr.nodes]
    exact ((walkExpr_covers value r).andStep _).meet _ r
  | unary site op token operand =>
    rw [walkExpr, resolveExpr, Expr.nodes]
    exact (walkExpr_covers operand r).meet _ r
  | binary site op token left right =>
    rw [walkExpr, resolveExpr, Expr.nodes]
    exact ((walkExpr_covers left r).andThen (walkExpr_covers right)).meet _ r
  | group site inner =>
    rw [walkExpr, resolveExpr, Expr.nodes]
    exact (walkExpr_covers inner r).meet _ r
  | call site callee paren args =>
    rw [walkExpr, resolveExpr, Expr.nodes]
    exact ((walkExpr_covers callee r).andThen (walkExprs_covers args)).meet _ r
  | get site object token optional =>
    rw [walkExpr, resolveExpr, Expr.nodes]
    exact (walkExpr_covers object r).meet _ r
  | set site object token value =>
    rw [walkExpr, resolveExpr, Expr.nodes]
    -- the value comes first here
    exact (((walkExpr_covers value r).andThen (walkExpr_covers object)).perm
      List.perm_append_comm).meet _ r
  | choose site branches otherwise =>
    rw [walkExpr, resolveExpr, Expr.nodes]
    exact ((walkBranches_covers branches r).andThen (walkOptional_covers otherwise)).meet _ r
  | lambda site params body =>
    rw [walkExpr, resolveExpr, Expr.nodes]
    exact ((Walk.Covers.step _).andThen fun r => (walkExpr_covers body r).andStep _).meet _ r
  | list site items =>
    rw [walkExpr, resolveExpr, Expr.nodes]
    exact (walkExprs_covers items r).meet _ r

theorem walkExprs_covers (es : List Expr) (r : Resolver) :
    (walkExprs es r).Covers (resolveExprs es r) (Expr.nodesOfItems es) := by
  cases es with
  | nil => exact .step _
  | cons e es =>
    rw [walkExprs, resolveExprs, Expr.nodesOfItems]
    exact (walkExpr_covers e r).andThen (walkExprs_covers es)

theorem walkBranches_covers (branches : List (Expr × Expr)) (r : Resolver) :
    (walkBranches branches r).Covers (resolveBranches branches r)
      (Expr.nodesOfBranches branches) := by
  match branches with
  | [] => exact .step _
  | (condition, result) :: branches =>
    rw [walkBranches, resolveBranches, Expr.nodesOfBranches, List.append_assoc]
    exact (walkExpr_covers condition r).andThen fun r =>
      (walkExpr_covers result r).andThen (walkBranches_covers branches)

theorem walkOptional_covers (e : Option Expr) (r : Resolver) :
    (walkOptional e r).Covers (resolveOptional e r) (Expr.nodesOfOptional e) := by
  match e with
  | none => exact .step _
  | some e => exact walkExpr_covers e r

end

mutual

theorem walkStmt_covers (s : Stmt) (r : Resolver) :
    (walkStmt s r).Covers (resolveStmt s r) s.nodes := by
  cases s with
  | expr e => exact walkExpr_covers e r
  | run e => exact walkExpr_covers e r
  | declare name init =>
    rw [walkStmt, resolveStmt, Stmt.nodes]
    exact (Walk.Covers.step _).andThen fun r => (walkOptional_covers init r).andStep _
  | block body =>
    rw [walkStmt, resolveStmt, Stmt.nodes]
    exact (walkStmts_covers body _).andStep _
  | ifTrue condition body =>
    rw [walkStmt, resolveStmt, Stmt.nodes]
    exact (walkExpr_covers condition r).andThen fun r => (walkStmts_covers body _).andStep _
  | forEach element items body =>
    rw [walkStmt, resolveStmt, Stmt.nodes]
    exact (walkExpr_covers items r).andThen fun r => (walkStmts_covers body _).andStep _
  | insert keyword rewriter body =>
    rw [walkStmt, resolveStmt, Stmt.nodes]
    exact (walkExpr_covers rewriter r).andThen fun r => (walkStmts_covers body _).andStep _
  | rewrite keyword rewriter body =>
    rw [walkStmt, resolveStmt, Stmt.nodes]
    exact (walkExpr_covers rewriter r).andThen fun r => (walkStmts_covers body _).andStep _
  | verbatim item => exact .step _

theorem walkStmts_covers (ss : List Stmt) (r : Resolver) :
    (walkStmts ss r).Covers (resolveStmts ss r) (Stmt.nodesOfBody ss) := by
  cases ss with
  | nil => exact .step _
  | cons s ss =>
    rw [walkStmts, resolveStmts, Stmt.nodesOfBody]
    exact (walkStmt_covers s r).andThen (walkStmts_covers ss)

end

end Resolver

end DocTemplate
