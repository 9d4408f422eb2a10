import DocTemplate.Program.Nodes
import DocTemplate.Program.Resolve
import DocTemplate.Proofs.Outcome

namespace DocTemplate

/-- What has a scope of its own: the body of a statement, and a function. -/
inductive Region where
  | body (s : Stmt)
  | function (params : List String) (body : Expr)

def Region.statements : Region → List Stmt
  | .body (.block ss) | .body (.ifTrue _ ss) | .body (.forEach _ _ ss) | .body (.insert _ _ ss)
  | .body (.rewrite _ _ ss) => ss
  | _ => []

/-- A place where the resolver meets a name, with the regions around it and the local scopes that
are pushed there, both innermost first. -/
structure Visit where
  node : Nat
  name : String
  around : List Region
  locals : List NameScope

def Visit.record (hops : Array (Option Nat)) (v : Visit) : Array (Option Nat) :=
  hops.modify v.node fun _ => Resolver.distance? v.name v.locals

namespace Resolver

def after (r : Resolver) (result : Except ScopeFault Resolver) : Resolver :=
  match result with
  | .ok r' => r'
  | .error _ => r

theorem after_ok {r r' : Resolver} {result : Except ScopeFault Resolver} (h : result = .ok r') :
    r.after result = r' := by
  rw [h]
  rfl

mutual

def visitsExpr : Expr → List Region → Resolver → List Visit
  | .constant _ _, _, _ => []
  | .name site token, around, r => [⟨site.id, token.lexeme, around, r.locals⟩]
  | .assign site token value, around, r =>
    visitsExpr value around r ++
      [⟨site.id, token.lexeme, around, (r.after (resolveExpr value r)).locals⟩]
  | .unary _ _ _ operand, around, r => visitsExpr operand around r
  | .binary _ _ _ left right, around, r =>
    visitsExpr left around r ++ visitsExpr right around (r.after (resolveExpr left r))
  | .group _ inner, around, r => visitsExpr inner around r
  | .call _ callee _ args, around, r =>
    visitsExpr callee around r ++ visitsExprs args around (r.after (resolveExpr callee r))
  | .get _ object _ _, around, r => visitsExpr object around r
  | .set _ object _ value, around, r =>
    visitsExpr value around r ++ visitsExpr object around (r.after (resolveExpr value r))
  | .choose _ branches otherwise, around, r =>
    visitsBranches branches around r ++
      visitsOptional otherwise around (r.after (resolveBranches branches r))
  | .lambda _ params body, around, r =>
    visitsExpr body (.function (params.map Token.lexeme) body :: around)
      (r.enter.after (r.enter.addParams params))
  | .list _ items, around, r => visitsExprs items around r

def visitsExprs : List Expr → List Region → Resolver → List Visit
  | [], _, _ => []
  | e :: es, around, r =>
    visitsExpr e around r ++ visitsExprs es around (r.after (resolveExpr e r))

def visitsBranches : List (Expr × Expr) → List Region → Resolver → List Visit
  | [], _, _ => []
  | (condition, result) :: branches, around, r =>
    let given := r.after (resolveExpr condition r)
    visitsExpr condition around r ++ visitsExpr result around given ++
      visitsBranches branches around (given.after (resolveExpr result given))

def visitsOptional : Option Expr → List Region → Resolver → List Visit
  | none, _, _ => []
  | some e, around, r => visitsExpr e around r

end

mutual

def visitsStmt : Stmt → List Region → Resolver → List Visit
  | .expr e, around, r => visitsExpr e around r
  | .run e, around, r => visitsExpr e around r
  | .declare name init, around, r => visitsOptional init around (r.after (r.declare name))
  | s@(.block body), around, r => visitsStmts body (.body s :: around) r.enter
  | s@(.ifTrue condition body), around, r =>
    visitsExpr condition around r ++
      visitsStmts body (.body s :: around) (r.after (resolveExpr condition r)).enter
  | s@(.forEach element items body), around, r =>
    visitsExpr items around r ++
      visitsStmts body (.body s :: around)
        ((r.after (resolveExpr items r)).enter.define element.lexeme)
  | s@(.insert _ rewriter body), around, r =>
    visitsExpr rewriter around r ++
      visitsStmts body (.body s :: around) (r.after (resolveExpr rewriter r)).enter
  | s@(.rewrite _ rewriter body), around, r =>
    visitsExpr rewriter around r ++
      visitsStmts body (.body s :: around) (r.after (resolveExpr rewriter r)).enter
  | .verbatim _, _, _ => []

def visitsStmts : List Stmt → List Region → Resolver → List Visit
  | [], _, _ => []
  | s :: ss, around, r =>
    visitsStmt s around r ++ visitsStmts ss around (r.after (resolveStmt s r))

end

end Resolver

def Program.resolver (p : Program) (globals : List String) : Resolver :=
  ⟨[], globals.map (·, true), Array.replicate p.nodeCount none⟩

/-- All that the resolver meets in a program. -/
def Program.visits (p : Program) (globals : List String) : List Visit :=
  Resolver.visitsStmts p.body [] (p.resolver globals)

def NameScope.ofParams (params : List String) : NameScope :=
  params.foldl (fun scope name => scope.put name true) []

def pending (name : String) : List NameScope → List NameScope
  | scope :: scopes => scope.put name false :: scopes
  | [] => []

namespace Expr

mutual

def visits : Expr → List Region → List NameScope → List Visit
  | .constant _ _, _, _ => []
  | .name site token, around, locals => [⟨site.id, token.lexeme, around, locals⟩]
  | .assign site token value, around, locals =>
    visits value around locals ++ [⟨site.id, token.lexeme, around, locals⟩]
  | .unary _ _ _ operand, around, locals => visits operand around locals
  | .binary _ _ _ left right, around, locals =>
    visits left around locals ++ visits right around locals
  | .group _ inner, around, locals => visits inner around locals
  | .call _ callee _ args, around, locals =>
    visits callee around locals ++ visitsOfItems args around locals
  | .get _ object _ _, around, locals => visits object around locals
  | .set _ object _ value, around, locals =>
    visits value around locals ++ visits object around locals
  | .choose _ branches otherwise, around, locals =>
    visitsOfBranches branches around locals ++ visitsOfOptional otherwise around locals
  | .lambda _ params body, around, locals =>
    visits body (.function (params.map Token.lexeme) body :: around)
      (.ofParams (params.map Token.lexeme) :: locals)
  | .list _ items, around, locals => visitsOfItems items around locals

def visitsOfItems : List Expr → List Region → List NameScope → List Visit
  | [], _, _ => []
  | e :: es, around, locals => visits e around locals ++ visitsOfItems es around locals

def visitsOfBranches : List (Expr × Expr) → List Region → List NameScope → List Visit
  | [], _, _ => []
  | (condition, result) :: branches, around, locals =>
    visits condition around locals ++ visits result around locals ++
      visitsOfBranches branches around locals

def visitsOfOptional : Option Expr → List Region → List NameScope → List Visit
  | none, _, _ => []
  | some e, around, locals => visits e around locals

end

end Expr

namespace Stmt

def localsAfter : Stmt → List NameScope → List NameScope
  | .declare name _, scope :: scopes =>
    ((scope.put name.lexeme false).put name.lexeme true) :: scopes
  | _, locals => locals

def localsAfterBody (body : List Stmt) (locals : List NameScope) : List NameScope :=
  body.foldl (fun locals s => s.localsAfter locals) locals

theorem localsAfterBody_tail (body : List Stmt) (locals : List NameScope) :
    (localsAfterBody body locals).tail = locals.tail := by
  induction body generalizing locals with
  | nil => rfl
  | cons s body ih =>
    have hs : (s.localsAfter locals).tail = locals.tail := by cases s <;> cases locals <;> rfl
    rw [← hs]
    exact ih _

mutual

def visits : Stmt → List Region → List NameScope → List Visit
  | .expr e, around, locals => e.visits around locals
  | .run e, around, locals => e.visits around locals
  | .declare name init, around, locals =>
    Expr.visitsOfOptional init around (pending name.lexeme locals)
  | s@(.block body), around, locals => visitsOfBody body (.body s :: around) ([] :: locals)
  | s@(.ifTrue condition body), around, locals =>
    condition.visits around locals ++ visitsOfBody body (.body s :: around) ([] :: locals)
  | s@(.forEach element items body), around, locals =>
    items.visits around locals ++
      visitsOfBody body (.body s :: around) ([(element.lexeme, true)] :: locals)
  | s@(.insert _ rewriter body), around, locals =>
    rewriter.visits around locals ++ visitsOfBody body (.body s :: around) ([] :: locals)
  | s@(.rewrite _ rewriter body), around, locals =>
    rewriter.visits around locals ++ visitsOfBody body (.body s :: around) ([] :: locals)
  | .verbatim _, _, _ => []

def visitsOfBody : List Stmt → List Region → List NameScope → List Visit
  | [], _, _ => []
  | s :: ss, around, locals =>
    visits s around locals ++ visitsOfBody ss around (localsAfter s locals)

end

end Stmt

namespace Resolver

def recorded (r : Resolver) (visits : List Visit) : Resolver :=
  { r with hops := visits.foldl Visit.record r.hops }

@[simp] theorem locals_recorded (r : Resolver) (visits : List Visit) :
    (r.recorded visits).locals = r.locals := rfl

@[simp] theorem recorded_recorded (r : Resolver) (vs ws : List Visit) :
    (r.recorded vs).recorded ws = r.recorded (vs ++ ws) := by
  simp [recorded]

theorem addParams_ok {r r' : Resolver} {params : List Token} {scope : NameScope}
    {scopes : List NameScope} (hl : r.locals = scope :: scopes)
    (h : r.addParams params = .ok r') :
    r' = { r with
      locals := (params.map Token.lexeme).foldl (fun scope name => scope.put name true) scope ::
        scopes } := by
  induction params generalizing r scope with
  | nil =>
    obtain rfl := Except.ok.inj h
    rw [List.map_nil, List.foldl_nil, ← hl]
  | cons p params ih =>
    rw [addParams, hl] at h
    dsimp only at h
    split at h
    · cases h
    · have hd : (r.define p.lexeme).locals = scope.put p.lexeme true :: scopes := by
        rw [define, put, hl]
      have hr := ih hd h
      rw [hr, define, put, hl]
      rfl

theorem addParams_enter_ok {r r' : Resolver} {params : List Token}
    (h : r.enter.addParams params = .ok r') :
    r' = { r with locals := .ofParams (params.map Token.lexeme) :: r.locals } :=
  addParams_ok (r := r.enter) rfl h

/-- A walk over an expression met what the text tells, and wrote it down. -/
def Follows (r : Resolver) (found told : List Visit) (r' : Resolver) : Prop :=
  found = told ∧ r' = r.recorded told

theorem Follows.locals {r r' : Resolver} {vs ws : List Visit} (h : r.Follows vs ws r') :
    r'.locals = r.locals := by
  rw [h.2, locals_recorded]

theorem Follows.append {r r₁ r' : Resolver} {vs ws vs' ws' : List Visit}
    (hv : r.Follows vs vs' r₁) (hw : r₁.Follows ws ws' r') :
    r.Follows (vs ++ ws) (vs' ++ ws') r' := by
  obtain ⟨rfl, rfl⟩ := hv
  obtain ⟨rfl, rfl⟩ := hw
  exact ⟨rfl, r.recorded_recorded vs ws⟩

mutual

theorem resolveExpr_follows (e : Expr) (around : List Region) (r r' : Resolver)
    (h : resolveExpr e r = .ok r') :
    r.Follows (visitsExpr e around r) (e.visits around r.locals) r' := by
  cases e with
  | constant site value =>
    obtain rfl := Except.ok.inj h
    exact ⟨rfl, rfl⟩
  | name site token =>
    rw [resolveExpr] at h
    split at h
    · cases h
    · obtain rfl := Except.ok.inj h
      exact ⟨rfl, rfl⟩
  | assign site token value =>
    obtain ⟨r₁, hv, h⟩ := bind_eq_ok.mp h
    obtain rfl := Except.ok.inj h
    have hf := resolveExpr_follows value around r r₁ hv
    rw [visitsExpr, Expr.visits, after_ok hv, hf.locals]
    refine hf.append ⟨rfl, ?_⟩
    rw [← hf.locals]
    rfl
  | unary site op token operand => exact resolveExpr_follows operand around r r' h
  | binary site op token left right =>
    obtain ⟨r₁, hl, h⟩ := bind_eq_ok.mp h
    have hf := resolveExpr_follows left around r r₁ hl
    have hg := resolveExpr_follows right around r₁ r' h
    rw [visitsExpr, Expr.visits, after_ok hl]
    rw [hf.locals] at hg
    exact hf.append hg
  | group site inner => exact resolveExpr_follows inner around r r' h
  | call site callee paren args =>
    obtain ⟨r₁, hc, h⟩ := bind_eq_ok.mp h
    have hf := resolveExpr_follows callee around r r₁ hc
    have hg := resolveExprs_follows args around r₁ r' h
    rw [visitsExpr, Expr.visits, after_ok hc]
    rw [hf.locals] at hg
    exact hf.append hg
  | get site object name optional => exact resolveExpr_follows object around r r' h
  | set site object name value =>
    obtain ⟨r₁, hv, h⟩ := bind_eq_ok.mp h
    have hf := resolveExpr_follows value around r r₁ hv
    have hg := resolveExpr_follows object around r₁ r' h
    rw [visitsExpr, Expr.visits, after_ok hv]
    rw [hf.locals] at hg
    exact hf.append hg
  | choose site branches otherwise =>
    obtain ⟨r₁, hb, h⟩ := bind_eq_ok.mp h
    have hf := resolveBranches_follows branches around r r₁ hb
    have hg := resolveOptional_follows otherwise around r₁ r' h
    rw [visitsExpr, Expr.visits, after_ok hb]
    rw [hf.locals] at hg
    exact hf.append hg
  | lambda site params body =>
    obtain ⟨r₁, hp, h⟩ := bind_eq_ok.mp h
    obtain ⟨r₂, hb, h⟩ := bind_eq_ok.mp h
    obtain rfl := Except.ok.inj h
    have hf :=
      resolveExpr_follows body (.function (params.map Token.lexeme) body :: around) r₁ r₂ hb
    rw [visitsExpr, Expr.visits, after_ok hp]
    obtain rfl := addParams_enter_ok hp
    refine ⟨hf.1, ?_⟩
    rw [hf.2]
    rfl
  | list site items => exact resolveExprs_follows items around r r' h

theorem resolveExprs_follows (es : List Expr) (around : List Region) (r r' : Resolver)
    (h : resolveExprs es r = .ok r') :
    r.Follows (visitsExprs es around r) (Expr.visitsOfItems es around r.locals) r' := by
  cases es with
  | nil =>
    obtain rfl := Except.ok.inj h
    exact ⟨rfl, rfl⟩
  | cons e es =>
    obtain ⟨r₁, he, h⟩ := bind_eq_ok.mp h
    have hf := resolveExpr_follows e around r r₁ he
    have hg := resolveExprs_follows es around r₁ r' h
    rw [visitsExprs, Expr.visitsOfItems, after_ok he]
    rw [hf.locals] at hg
    exact hf.append hg

theorem resolveBranches_follows (branches : List (Expr × Expr)) (around : List Region)
    (r r' : Resolver) (h : resolveBranches branches r = .ok r') :
    r.Follows (visitsBranches branches around r)
      (Expr.visitsOfBranches branches around r.locals) r' := by
  match branches with
  | [] =>
    obtain rfl := Except.ok.inj h
    exact ⟨rfl, rfl⟩
  | (condition, result) :: branches =>
    obtain ⟨r₁, hc, h⟩ := bind_eq_ok.mp h
    obtain ⟨r₂, hr, h⟩ := bind_eq_ok.mp h
    have hf := resolveExpr_follows condition around r r₁ hc
    have hg := resolveExpr_follows result around r₁ r₂ hr
    have hk := resolveBranches_follows branches around r₂ r' h
    rw [visitsBranches, Expr.visitsOfBranches, after_ok hc]
    rw [hf.locals] at hg
    rw [hg.locals, hf.locals] at hk
    rw [after_ok hr]
    exact (hf.append hg).append hk

theorem resolveOptional_follows (e : Option Expr) (around : List Region) (r r' : Resolver)
    (h : resolveOptional e r = .ok r') :
    r.Follows (visitsOptional e around r) (Expr.visitsOfOptional e around r.locals) r' := by
  match e with
  | none =>
    obtain rfl := Except.ok.inj h
    exact ⟨rfl, rfl⟩
  | some e => exact resolveExpr_follows e around r r' h

end

/-- A walk over statements met what the text tells and wrote it down. Global names are none of its
concern. -/
structure FollowsOn (r : Resolver) (locals : List NameScope) (found told : List Visit)
    (r' : Resolver) : Prop where
  found : found = told
  locals : r'.locals = locals
  hops : r'.hops = told.foldl Visit.record r.hops

theorem Follows.on {r r' : Resolver} {vs ws : List Visit} (h : r.Follows vs ws r') :
    r.FollowsOn r.locals vs ws r' :=
  ⟨h.1, h.locals, by rw [h.2]; rfl⟩

theorem FollowsOn.append {r r₁ r' : Resolver} {locals locals' : List NameScope}
    {vs ws vs' ws' : List Visit} (hv : r.FollowsOn locals vs vs' r₁)
    (hw : r₁.FollowsOn locals' ws ws' r') : r.FollowsOn locals' (vs ++ ws) (vs' ++ ws') r' := by
  refine ⟨by rw [hv.found, hw.found], hw.locals, ?_⟩
  rw [hw.hops, hv.hops, List.foldl_append]

theorem declare_ok {r r' : Resolver} {name : Token} (h : r.declare name = .ok r') :
    r'.locals = pending name.lexeme r.locals ∧ r'.hops = r.hops := by
  unfold declare at h
  cases hl : r.locals with
  | nil =>
    rw [hl] at h
    obtain rfl := Except.ok.inj h
    exact ⟨hl, rfl⟩
  | cons scope scopes =>
    rw [hl] at h
    dsimp only at h
    split at h
    · cases h
    · obtain rfl := Except.ok.inj h
      rw [put, hl]
      exact ⟨rfl, rfl⟩

theorem declaration_follows {r r₁ r₂ : Resolver} {name : Token} {init : Option Expr}
    {vs ws : List Visit} (hd : r.declare name = .ok r₁) (h : r₁.Follows vs ws r₂) :
    r.FollowsOn ((Stmt.declare name init).localsAfter r.locals) vs ws (r₂.define name.lexeme) := by
  obtain ⟨hl, hh⟩ := declare_ok hd
  have hl₂ := h.locals.trans hl
  have hh₂ : r₂.hops = ws.foldl Visit.record r.hops := by
    rw [h.2, ← hh]
    rfl
  cases hr : r.locals with
  | nil =>
    rw [hr, pending] at hl₂
    rw [define, put, hl₂]
    exact ⟨h.1, rfl, hh₂⟩
  | cons scope scopes =>
    rw [hr, pending] at hl₂
    rw [define, put, hl₂]
    exact ⟨h.1, rfl, hh₂⟩

theorem Follows.scoped {r r₀ r₁ r₂ : Resolver} {scope : NameScope} {body : List Stmt}
    {around : List Region} {vs vs' ws : List Visit} (hr : r.Follows vs vs' r₁)
    (h : r₀.FollowsOn (Stmt.localsAfterBody body r₀.locals) ws
      (Stmt.visitsOfBody body around r₀.locals) r₂)
    (hl : r₀.locals = scope :: r₁.locals) (hh : r₀.hops = r₁.hops) :
    r.FollowsOn r.locals (vs ++ ws)
      (vs' ++ Stmt.visitsOfBody body around (scope :: r.locals)) r₂.leave := by
  rw [hr.locals] at hl
  rw [hl] at h
  refine ⟨by rw [hr.1, h.found], ?_, ?_⟩
  · rw [Resolver.leave, h.locals, Stmt.localsAfterBody_tail, List.tail_cons]
  · have hr₁ : r₁.hops = vs'.foldl Visit.record r.hops := by
      rw [hr.2]
      rfl
    rw [List.foldl_append, ← hr₁, ← hh]
    exact h.hops

mutual

theorem resolveStmt_follows (s : Stmt) (around : List Region) (r r' : Resolver)
    (h : resolveStmt s r = .ok r') :
    r.FollowsOn (s.localsAfter r.locals) (visitsStmt s around r) (s.visits around r.locals) r' := by
  cases s with
  | expr e => exact (resolveExpr_follows e around r r' h).on
  | run e => exact (resolveExpr_follows e around r r' h).on
  | declare name init =>
    obtain ⟨r₁, hd, h⟩ := bind_eq_ok.mp h
    obtain ⟨r₂, hi, h⟩ := bind_eq_ok.mp h
    obtain rfl := Except.ok.inj h
    have hf := resolveOptional_follows init around r₁ r₂ hi
    rw [(declare_ok hd).1] at hf
    rw [visitsStmt, Stmt.visits, after_ok hd]
    exact declaration_follows hd hf
  | block body =>
    obtain ⟨r₁, hb, h⟩ := bind_eq_ok.mp h
    obtain rfl := Except.ok.inj h
    have hf : r.Follows [] [] r := ⟨rfl, rfl⟩
    have hg := resolveStmts_follows body (.body (.block body) :: around) r.enter r₁ hb
    exact hf.scoped hg rfl rfl
  | ifTrue condition body =>
    obtain ⟨r₁, hc, h⟩ := bind_eq_ok.mp h
    obtain ⟨r₂, hb, h⟩ := bind_eq_ok.mp h
    obtain rfl := Except.ok.inj h
    have hf := resolveExpr_follows condition around r r₁ hc
    have hg := resolveStmts_follows body (.body (.ifTrue condition body) :: around) r₁.enter r₂ hb
    rw [visitsStmt, Stmt.visits, after_ok hc]
    exact hf.scoped hg rfl rfl
  | forEach element items body =>
    obtain ⟨r₁, hi, h⟩ := bind_eq_ok.mp h
    obtain ⟨r₂, hb, h⟩ := bind_eq_ok.mp h
    obtain rfl := Except.ok.inj h
    have hf := resolveExpr_follows items around r r₁ hi
    have hg := resolveStmts_follows body (.body (.forEach element items body) :: around)
      (r₁.enter.define element.lexeme) r₂ hb
    rw [visitsStmt, Stmt.visits, after_ok hi]
    exact hf.scoped hg rfl rfl
  | insert keyword rewriter body =>
    obtain ⟨r₁, hw, h⟩ := bind_eq_ok.mp h
    obtain ⟨r₂, hb, h⟩ := bind_eq_ok.mp h
    obtain rfl := Except.ok.inj h
    have hf := resolveExpr_follows rewriter around r r₁ hw
    have hg := resolveStmts_follows body (.body (.insert keyword rewriter body) :: around)
      r₁.enter r₂ hb
    rw [visitsStmt, Stmt.visits, after_ok hw]
    exact hf.scoped hg rfl rfl
  | rewrite keyword rewriter body =>
    obtain ⟨r₁, hw, h⟩ := bind_eq_ok.mp h
    obtain ⟨r₂, hb, h⟩ := bind_eq_ok.mp h
    obtain rfl := Except.ok.inj h
    have hf := resolveExpr_follows rewriter around r r₁ hw
    have hg := resolveStmts_follows body (.body (.rewrite keyword rewriter body) :: around)
      r₁.enter r₂ hb
    rw [visitsStmt, Stmt.visits, after_ok hw]
    exact hf.scoped hg rfl rfl
  | verbatim item =>
    obtain rfl := Except.ok.inj h
    exact ⟨rfl, rfl, rfl⟩

theorem resolveStmts_follows (ss : List Stmt) (around : List Region) (r r' : Resolver)
    (h : resolveStmts ss r = .ok r') :
    r.FollowsOn (Stmt.localsAfterBody ss r.locals) (visitsStmts ss around r)
      (Stmt.visitsOfBody ss around r.locals) r' := by
  cases ss with
  | nil =>
    obtain rfl := Except.ok.inj h
    exact ⟨rfl, rfl, rfl⟩
  | cons s ss =>
    obtain ⟨r₁, hs, h⟩ := bind_eq_ok.mp h
    have hf := resolveStmt_follows s around r r₁ hs
    have hg := resolveStmts_follows ss around r₁ r' h
    rw [visitsStmts, Stmt.visitsOfBody, after_ok hs]
    rw [hf.locals] at hg
    exact hf.append hg

end

end Resolver

end DocTemplate
