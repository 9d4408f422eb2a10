import DocTemplate.Proofs.Scope.Relabel

namespace DocTemplate

namespace NameScope

variable {ρ : Relabeling} {own : Bool}

def relabel (ρ : Relabeling) (own : Bool) (scope : NameScope) : NameScope :=
  scope.map fun entry => (ρ.key own entry.1, entry.2)

theorem relabel_false (scope : NameScope) : scope.relabel ρ false = scope := List.map_id scope

theorem ready?_relabel (scope : NameScope) (name : String) :
    (scope.relabel ρ own).ready? name = scope.ready? (ρ.key own name) := by
  induction scope with
  | nil => rfl
  | cons entry scope ih =>
    rw [relabel, ready?, ready?, List.map_cons, List.lookup_cons, List.lookup_cons]
    have hk : (name == ρ.key own entry.1) = (ρ.key own name == entry.1) := by
      rw [Bool.eq_iff_iff, beq_iff_eq, beq_iff_eq, ← ρ.key_inj own, ρ.key_key]
    rw [hk]
    split
    · rfl
    · exact ih

theorem declares_relabel (scope : NameScope) (name : String) :
    (scope.relabel ρ own).declares name = scope.declares (ρ.key own name) := by
  rw [relabel, declares, declares, List.any_map]
  refine congrArg scope.any (funext fun entry => ?_)
  change (ρ.key own entry.1 == name) = (entry.1 == ρ.key own name)
  rw [Bool.eq_iff_iff, beq_iff_eq, beq_iff_eq, ← ρ.key_inj own, ρ.key_key]

theorem ready?_eq_none {scope : NameScope} {name : String} (h : scope.declares name = false) :
    scope.ready? name = none := by
  induction scope with
  | nil => rfl
  | cons entry scope ih =>
    rw [declares, List.any_cons, Bool.or_eq_false_iff] at h
    rw [ready?, List.lookup_cons, BEq.comm, h.1]
    exact ih h.2

end NameScope

def Clear (name : String) (locals : List NameScope) : Prop :=
  ∀ scope ∈ locals, scope.declares name = false

/-- The scopes around a place with the new name, where `marks` tells which of them are scopes of
the variable. They are counted from outside, and the global one is number zero. -/
def relabelLocals (ρ : Relabeling) (marks : Nat → Bool) : List NameScope → List NameScope
  | [] => []
  | scope :: scopes => scope.relabel ρ (marks (scopes.length + 1)) :: relabelLocals ρ marks scopes

structure Bounded (marks : Nat → Bool) (depth : Nat) : Prop where
  global : marks 0 = false
  inner : ∀ j, depth < j → marks j = false

structure Inside (marks marks' : Nat → Bool) (depth : Nat) : Prop where
  agree : ∀ j ≤ depth, marks' j = marks j
  inner : ∀ j, depth + 1 < j → marks' j = false

/-- The resolver finds the name in a scope of the variable. -/
def Binds (ρ : Relabeling) (marks : Nat → Bool) (locals : List NameScope) (name : String) : Prop :=
  name = ρ.old ∧ ∃ d, Resolver.distance? name locals = some d ∧ marks (locals.length - d) = true

/-- The resolution tells where the name of the visit is found, and the node gets the new name just
when that is a scope of the variable. -/
structure Visit.Suits (resolution : Resolution) (ρ : Relabeling) (marks : Nat → Bool)
    (v : Visit) : Prop where
  resolved : resolution.get? v.node = Resolver.distance? v.name v.locals
  name : v.name ≠ ρ.fresh
  clear : Clear ρ.fresh v.locals
  bound : v.node ∈ ρ.nodes ↔ Binds ρ marks v.locals v.name

/-- What a name at a place becomes. -/
structure Becomes (ρ : Relabeling) (marks : Nat → Bool) (locals : List NameScope)
    (name name' : String) : Prop where
  ne : name ≠ ρ.fresh
  clear : Clear ρ.fresh locals
  eq : Binds ρ marks locals name ∧ name' = ρ.fresh ∨ ¬ Binds ρ marks locals name ∧ name' = name

section

variable {resolution : Resolution} {ρ : Relabeling} {marks marks' : Nat → Bool} {depth : Nat}
variable {locals : List NameScope} {scope : NameScope} {around : List Region}

theorem Bounded.mono (h : Bounded marks depth) : Bounded marks (depth + 1) :=
  ⟨h.global, fun j hj => h.inner j (Nat.lt_of_succ_lt hj)⟩

theorem Inside.bounded (h : Inside marks marks' depth) (hb : Bounded marks depth) :
    Bounded marks' (depth + 1) :=
  ⟨(h.agree 0 (Nat.zero_le _)).trans hb.global, h.inner⟩

theorem relabelLocals_congr (h : ∀ j ≤ locals.length, marks' j = marks j) :
    relabelLocals ρ marks' locals = relabelLocals ρ marks locals := by
  induction locals with
  | nil => rfl
  | cons scope scopes ih =>
    rw [relabelLocals, relabelLocals, h (scopes.length + 1) (Nat.le_refl _),
      ih fun j hj => h j (Nat.le_succ_of_le hj)]

theorem tail_relabelLocals (ρ : Relabeling) (marks : Nat → Bool) (locals : List NameScope) :
    (relabelLocals ρ marks locals).tail = relabelLocals ρ marks locals.tail := by
  cases locals <;> rfl

theorem Visit.Suits.becomes {node : Nat} {token : Token}
    (h : Suits resolution ρ marks ⟨node, token.lexeme, around, locals⟩) :
    Becomes ρ marks locals token.lexeme (ρ.use node token).lexeme := by
  refine ⟨h.name, h.clear, ?_⟩
  rw [ρ.lexeme_use]
  by_cases hn : node ∈ ρ.nodes
  · exact .inl ⟨h.bound.mp hn, if_pos hn⟩
  · exact .inr ⟨fun hb => hn (h.bound.mpr hb), if_neg hn⟩

theorem binds_cons_of_declares {name : String} (hs : scope.declares name = true) :
    Binds ρ marks (scope :: locals) name ↔
      name = ρ.old ∧ marks (locals.length + 1) = true := by
  have hd : Resolver.distance? name (scope :: locals) = some 0 := by
    rw [Resolver.distance?, if_pos hs]
  constructor
  · rintro ⟨ho, d, hd', hm⟩
    obtain rfl : d = 0 := Option.some.inj (hd'.symm.trans hd)
    exact ⟨ho, hm⟩
  · rintro ⟨ho, hm⟩
    exact ⟨ho, 0, hd, hm⟩

theorem binds_cons_of_not_declares {name : String} (hs : scope.declares name = false) :
    Binds ρ marks (scope :: locals) name ↔ Binds ρ marks locals name := by
  have hd : Resolver.distance? name (scope :: locals) =
      (Resolver.distance? name locals).map (· + 1) := by
    rw [Resolver.distance?, hs]
    rfl
  refine and_congr_right fun _ => ?_
  rw [hd]
  constructor
  · rintro ⟨_, hd, hm⟩
    obtain ⟨d, hd', rfl⟩ := Option.map_eq_some_iff.mp hd
    rw [List.length_cons, Nat.add_sub_add_right] at hm
    exact ⟨d, hd', hm⟩
  · rintro ⟨d, hd, hm⟩
    refine ⟨d + 1, by rw [hd]; rfl, ?_⟩
    rw [List.length_cons, Nat.add_sub_add_right]
    exact hm

namespace Becomes

variable {name name' : String}

/-- In the innermost scope, the new name stands for what the old one stands for in the scope as it
was, or else neither stands for anything. -/
theorem key (h : Becomes ρ marks (scope :: locals) name name') :
    ρ.key (marks (locals.length + 1)) name' = name ∨
      ρ.key (marks (locals.length + 1)) name' = ρ.fresh ∧ scope.declares name = false := by
  obtain ⟨hb, rfl⟩ | ⟨hb, rfl⟩ := h.eq
  · cases hm : marks (locals.length + 1) with
    | true => exact .inl ((ρ.key_true_fresh).trans hb.1.symm)
    | false =>
      refine .inr ⟨rfl, Bool.eq_false_iff.mpr fun hs => ?_⟩
      exact Bool.false_ne_true (hm.symm.trans ((binds_cons_of_declares hs).mp hb).2)
  · cases hm : marks (locals.length + 1) with
    | false => exact .inl rfl
    | true =>
      by_cases ho : name' = ρ.old
      · refine .inr ⟨ho ▸ ρ.key_true_old, Bool.eq_false_iff.mpr fun hs => ?_⟩
        exact hb ((binds_cons_of_declares hs).mpr ⟨ho, hm⟩)
      · exact .inl (ρ.key_of_ne true ho h.ne)

theorem tail (h : Becomes ρ marks (scope :: locals) name name')
    (hs : scope.declares name = false) : Becomes ρ marks locals name name' :=
  ⟨h.ne, fun scope hm => h.clear scope (List.mem_cons_of_mem _ hm), by
    rw [← binds_cons_of_not_declares hs]
    exact h.eq⟩

theorem declares (h : Becomes ρ marks (scope :: locals) name name') :
    (scope.relabel ρ (marks (locals.length + 1))).declares name' = scope.declares name := by
  rw [NameScope.declares_relabel]
  obtain hk | ⟨hk, hs⟩ := h.key
  · rw [hk]
  · rw [hk, hs]
    exact h.clear scope List.mem_cons_self

theorem distance? (h : Becomes ρ marks locals name name') :
    Resolver.distance? name' (relabelLocals ρ marks locals) = Resolver.distance? name locals := by
  induction locals with
  | nil => rfl
  | cons scope scopes ih =>
    rw [relabelLocals, Resolver.distance?, Resolver.distance?, h.declares]
    cases hs : scope.declares name with
    | true => rfl
    | false => rw [ih (h.tail hs)]

theorem isBeingDeclared (r : Resolver) (h : Becomes ρ marks r.locals name name') :
    Resolver.isBeingDeclared { r with locals := relabelLocals ρ marks r.locals } name' =
      r.isBeingDeclared name := by
  obtain ⟨locals, globals, hops⟩ := r
  cases locals with
  | nil => rfl
  | cons scope scopes =>
    change ((scope.relabel ρ _).ready? name' == some false) = (scope.ready? name == some false)
    rw [NameScope.ready?_relabel]
    obtain hk | ⟨hk, hs⟩ := h.key
    · rw [hk]
    · rw [hk, NameScope.ready?_eq_none hs,
        NameScope.ready?_eq_none (h.clear scope List.mem_cons_self)]

end Becomes

namespace Resolver

variable {r r' : Resolver}

def relabel (ρ : Relabeling) (marks : Nat → Bool) (r : Resolver) : Resolver :=
  { r with locals := relabelLocals ρ marks r.locals }

theorem record_relabel {node : Nat} {token : Token}
    (h : Visit.Suits resolution ρ marks ⟨node, token.lexeme, around, r.locals⟩) :
    (r.relabel ρ marks).record node (ρ.use node token).lexeme =
      (r.record node token.lexeme).relabel ρ marks := by
  rw [record, relabel, h.becomes.distance?]
  rfl

theorem addParams_around {params : List Token} {globals : NameScope} {hops : Array (Option Nat)}
    {scopes : List NameScope} (scopes' : List NameScope)
    (h : addParams ⟨scope :: scopes, globals, hops⟩ params = .ok r') :
    addParams ⟨scope :: scopes', globals, hops⟩ params =
      .ok ⟨(params.map Token.lexeme).foldl (fun scope name => scope.put name true) scope :: scopes',
        globals, hops⟩ := by
  induction params generalizing scope with
  | nil => rfl
  | cons p params ih =>
    rw [addParams] at h ⊢
    dsimp only at h ⊢
    split at h
    · cases h
    · rename_i hp
      rw [if_neg hp]
      exact ih h

theorem addParams_relabel {params : List Token} (hm : Bounded marks r.locals.length)
    (h : r.enter.addParams params = .ok r') :
    (r.relabel ρ marks).enter.addParams params = .ok (r'.relabel ρ marks) := by
  obtain rfl := addParams_enter_ok h
  refine (addParams_around (relabelLocals ρ marks r.locals) h).trans ?_
  have ho : marks (r.locals.length + 1) = false := hm.inner _ (Nat.lt_succ_self _)
  rw [relabel, relabelLocals, ho, NameScope.relabel_false]
  rfl

mutual

theorem resolveExpr_relabel (e : Expr) (around : List Region) (r r' : Resolver)
    (hm : Bounded marks r.locals.length)
    (hv : ∀ v ∈ e.visits around r.locals, v.Suits resolution ρ marks)
    (h : resolveExpr e r = .ok r') :
    resolveExpr (e.relabel ρ) (r.relabel ρ marks) = .ok (r'.relabel ρ marks) := by
  cases e with
  | constant site value =>
    obtain rfl := Except.ok.inj h
    rfl
  | name site token =>
    have hs := hv _ List.mem_cons_self
    rw [resolveExpr] at h
    rw [Expr.relabel, resolveExpr, relabel, hs.becomes.isBeingDeclared]
    split at h
    · cases h
    · rename_i hd
      obtain rfl := Except.ok.inj h
      rw [if_neg hd]
      exact congrArg Except.ok (record_relabel hs)
  | assign site token value =>
    obtain ⟨hvs, hva⟩ := List.forall_mem_append.mp hv
    obtain ⟨r₁, hr, h⟩ := bind_eq_ok.mp h
    obtain rfl := Except.ok.inj h
    have hs := hva _ List.mem_cons_self
    rw [Expr.relabel, resolveExpr, resolveExpr_relabel value around r r₁ hm hvs hr]
    rw [← (resolveExpr_follows value around r r₁ hr).locals] at hs
    exact congrArg Except.ok (record_relabel hs)
  | unary site op token operand => exact resolveExpr_relabel operand around r r' hm hv h
  | binary site op token left right =>
    obtain ⟨hvl, hvr⟩ := List.forall_mem_append.mp hv
    obtain ⟨r₁, hl, h⟩ := bind_eq_ok.mp h
    have hlocals := (resolveExpr_follows left around r r₁ hl).locals
    rw [Expr.relabel, resolveExpr, resolveExpr_relabel left around r r₁ hm hvl hl]
    exact resolveExpr_relabel right around r₁ r' (hlocals ▸ hm) (hlocals ▸ hvr) h
  | group site inner => exact resolveExpr_relabel inner around r r' hm hv h
  | call site callee paren args =>
    obtain ⟨hvc, hva⟩ := List.forall_mem_append.mp hv
    obtain ⟨r₁, hc, h⟩ := bind_eq_ok.mp h
    have hlocals := (resolveExpr_follows callee around r r₁ hc).locals
    rw [Expr.relabel, resolveExpr, resolveExpr_relabel callee around r r₁ hm hvc hc]
    exact resolveExprs_relabel args around r₁ r' (hlocals ▸ hm) (hlocals ▸ hva) h
  | get site object name optional => exact resolveExpr_relabel object around r r' hm hv h
  | set site object name value =>
    obtain ⟨hvv, hvo⟩ := List.forall_mem_append.mp hv
    obtain ⟨r₁, hr, h⟩ := bind_eq_ok.mp h
    have hlocals := (resolveExpr_follows value around r r₁ hr).locals
    rw [Expr.relabel, resolveExpr, resolveExpr_relabel value around r r₁ hm hvv hr]
    exact resolveExpr_relabel object around r₁ r' (hlocals ▸ hm) (hlocals ▸ hvo) h
  | choose site branches otherwise =>
    obtain ⟨hvb, hvo⟩ := List.forall_mem_append.mp hv
    obtain ⟨r₁, hb, h⟩ := bind_eq_ok.mp h
    have hlocals := (resolveBranches_follows branches around r r₁ hb).locals
    rw [Expr.relabel, resolveExpr, resolveBranches_relabel branches around r r₁ hm hvb hb]
    exact resolveOptional_relabel otherwise around r₁ r' (hlocals ▸ hm) (hlocals ▸ hvo) h
  | lambda site params body =>
    obtain ⟨r₁, hp, h⟩ := bind_eq_ok.mp h
    obtain ⟨r₂, hb, h⟩ := bind_eq_ok.mp h
    obtain rfl := Except.ok.inj h
    rw [Expr.relabel, resolveExpr, addParams_relabel hm hp]
    obtain rfl := addParams_enter_ok hp
    have hr := resolveExpr_relabel body (.function (params.map Token.lexeme) body :: around)
      { r with locals := .ofParams (params.map Token.lexeme) :: r.locals } r₂ hm.mono hv hb
    refine (congrArg (· >>= fun r => Except.ok r.leave) hr).trans (congrArg Except.ok ?_)
    rw [leave, leave, relabel, relabel, tail_relabelLocals]
  | list site items => exact resolveExprs_relabel items around r r' hm hv h

theorem resolveExprs_relabel (es : List Expr) (around : List Region) (r r' : Resolver)
    (hm : Bounded marks r.locals.length)
    (hv : ∀ v ∈ Expr.visitsOfItems es around r.locals, v.Suits resolution ρ marks)
    (h : resolveExprs es r = .ok r') :
    resolveExprs (Expr.relabelItems ρ es) (r.relabel ρ marks) = .ok (r'.relabel ρ marks) := by
  cases es with
  | nil =>
    obtain rfl := Except.ok.inj h
    rfl
  | cons e es =>
    obtain ⟨hve, hvs⟩ := List.forall_mem_append.mp hv
    obtain ⟨r₁, he, h⟩ := bind_eq_ok.mp h
    have hlocals := (resolveExpr_follows e around r r₁ he).locals
    rw [Expr.relabelItems, resolveExprs, resolveExpr_relabel e around r r₁ hm hve he]
    exact resolveExprs_relabel es around r₁ r' (hlocals ▸ hm) (hlocals ▸ hvs) h

theorem resolveBranches_relabel (branches : List (Expr × Expr)) (around : List Region)
    (r r' : Resolver) (hm : Bounded marks r.locals.length)
    (hv : ∀ v ∈ Expr.visitsOfBranches branches around r.locals, v.Suits resolution ρ marks)
    (h : resolveBranches branches r = .ok r') :
    resolveBranches (Expr.relabelBranches ρ branches) (r.relabel ρ marks) =
      .ok (r'.relabel ρ marks) := by
  match branches with
  | [] =>
    obtain rfl := Except.ok.inj h
    rfl
  | (condition, result) :: branches =>
    obtain ⟨hv, hvb⟩ := List.forall_mem_append.mp hv
    obtain ⟨hvc, hvr⟩ := List.forall_mem_append.mp hv
    obtain ⟨r₁, hc, h⟩ := bind_eq_ok.mp h
    obtain ⟨r₂, hr, h⟩ := bind_eq_ok.mp h
    have hlocals := (resolveExpr_follows condition around r r₁ hc).locals
    have hlocals' := (resolveExpr_follows result around r₁ r₂ hr).locals.trans hlocals
    have hstep := resolveExpr_relabel result around r₁ r₂ (hlocals ▸ hm) (hlocals ▸ hvr) hr
    rw [Expr.relabelBranches, resolveBranches,
      resolveExpr_relabel condition around r r₁ hm hvc hc]
    refine (congrArg (· >>= resolveBranches (Expr.relabelBranches ρ branches)) hstep).trans ?_
    exact resolveBranches_relabel branches around r₂ r' (hlocals' ▸ hm) (hlocals' ▸ hvb) h

theorem resolveOptional_relabel (e : Option Expr) (around : List Region) (r r' : Resolver)
    (hm : Bounded marks r.locals.length)
    (hv : ∀ v ∈ Expr.visitsOfOptional e around r.locals, v.Suits resolution ρ marks)
    (h : resolveOptional e r = .ok r') :
    resolveOptional (Expr.relabelOptional ρ e) (r.relabel ρ marks) = .ok (r'.relabel ρ marks) := by
  match e with
  | none =>
    obtain rfl := Except.ok.inj h
    rfl
  | some e => exact resolveExpr_relabel e around r r' hm hv h

end

end Resolver

theorem length_pending (name : String) (locals : List NameScope) :
    (pending name locals).length = locals.length := by
  cases locals <;> rfl

theorem Stmt.length_localsAfter (s : Stmt) (locals : List NameScope) :
    (s.localsAfter locals).length = locals.length := by
  cases s <;> cases locals <;> rfl

def Expr.Suits (resolution : Resolution) (ρ : Relabeling) (marks : Nat → Bool)
    (locals : List NameScope) (e : Expr) : Prop :=
  ∃ around, ∀ v ∈ e.visits around locals, v.Suits resolution ρ marks

mutual

/-- A statement with the new name wherever it is due. Each scope in it may be one of the variable,
and then what it declares has the new name too. -/
inductive Stmt.Recast (resolution : Resolution) (ρ : Relabeling) :
    (Nat → Bool) → List NameScope → Stmt → Stmt → Prop
  | expr {marks : Nat → Bool} {locals : List NameScope} {e : Expr}
      (he : e.Suits resolution ρ marks locals) :
      Recast resolution ρ marks locals (.expr e) (.expr (e.relabel ρ))
  | declare {marks : Nat → Bool} {locals : List NameScope} {name : Token} {init : Option Expr}
      (hc : Clear ρ.fresh locals) (hn : name.lexeme ≠ ρ.fresh)
      (hi : ∀ e, init = some e → e.Suits resolution ρ marks (pending name.lexeme locals)) :
      Recast resolution ρ marks locals (.declare name init)
        (.declare (ρ.declared (marks locals.length) name) (Expr.relabelOptional ρ init))
  | block {marks marks' : Nat → Bool} {locals : List NameScope} {body body' : List Stmt}
      (hm : Inside marks marks' locals.length)
      (hb : RecastAll resolution ρ marks' ([] :: locals) body body') :
      Recast resolution ρ marks locals (.block body) (.block body')
  | ifTrue {marks marks' : Nat → Bool} {locals : List NameScope} {condition : Expr}
      {body body' : List Stmt} (he : condition.Suits resolution ρ marks locals)
      (hm : Inside marks marks' locals.length)
      (hb : RecastAll resolution ρ marks' ([] :: locals) body body') :
      Recast resolution ρ marks locals (.ifTrue condition body)
        (.ifTrue (condition.relabel ρ) body')
  | forEach {marks marks' : Nat → Bool} {locals : List NameScope} {element : Token} {items : Expr}
      {body body' : List Stmt} (hn : element.lexeme ≠ ρ.fresh)
      (he : items.Suits resolution ρ marks locals) (hm : Inside marks marks' locals.length)
      (hb : RecastAll resolution ρ marks' ([(element.lexeme, true)] :: locals) body body') :
      Recast resolution ρ marks locals (.forEach element items body)
        (.forEach (ρ.declared (marks' (locals.length + 1)) element) (items.relabel ρ) body')
  | run {marks : Nat → Bool} {locals : List NameScope} {e : Expr}
      (he : e.Suits resolution ρ marks locals) :
      Recast resolution ρ marks locals (.run e) (.run (e.relabel ρ))
  | verbatim {marks : Nat → Bool} {locals : List NameScope} (item : StreamItem) :
      Recast resolution ρ marks locals (.verbatim item) (.verbatim item)
  | insert {marks marks' : Nat → Bool} {locals : List NameScope} {keyword : Token}
      {rewriter : Expr} {body body' : List Stmt} (he : rewriter.Suits resolution ρ marks locals)
      (hm : Inside marks marks' locals.length)
      (hb : RecastAll resolution ρ marks' ([] :: locals) body body') :
      Recast resolution ρ marks locals (.insert keyword rewriter body)
        (.insert keyword (rewriter.relabel ρ) body')
  | rewrite {marks marks' : Nat → Bool} {locals : List NameScope} {keyword : Token}
      {rewriter : Expr} {body body' : List Stmt} (he : rewriter.Suits resolution ρ marks locals)
      (hm : Inside marks marks' locals.length)
      (hb : RecastAll resolution ρ marks' ([] :: locals) body body') :
      Recast resolution ρ marks locals (.rewrite keyword rewriter body)
        (.rewrite keyword (rewriter.relabel ρ) body')

inductive Stmt.RecastAll (resolution : Resolution) (ρ : Relabeling) :
    (Nat → Bool) → List NameScope → List Stmt → List Stmt → Prop
  | nil {marks : Nat → Bool} {locals : List NameScope} : RecastAll resolution ρ marks locals [] []
  | cons {marks : Nat → Bool} {locals : List NameScope} {s s' : Stmt} {ss ss' : List Stmt}
      (hs : Recast resolution ρ marks locals s s')
      (hss : RecastAll resolution ρ marks (s.localsAfter locals) ss ss') :
      RecastAll resolution ρ marks locals (s :: ss) (s' :: ss')

end

namespace Resolver

variable {r r' : Resolver}

theorem resolveSuited {e : Expr} (hm : Bounded marks r.locals.length)
    (he : e.Suits resolution ρ marks r.locals) (h : resolveExpr e r = .ok r') :
    resolveExpr (e.relabel ρ) (r.relabel ρ marks) = .ok (r'.relabel ρ marks) ∧
      r'.locals = r.locals := by
  obtain ⟨around, hv⟩ := he
  exact ⟨resolveExpr_relabel e around r r' hm hv h, (resolveExpr_follows e around r r' h).locals⟩

theorem enter_relabel (hm : Inside marks marks' r.locals.length) :
    (r.relabel ρ marks).enter = r.enter.relabel ρ marks' := by
  rw [relabel, relabel, enter, enter, relabelLocals, relabelLocals_congr hm.agree]
  rfl

theorem leave_relabel {locals : List NameScope} (hm : Inside marks marks' locals.length)
    (hl : r.locals.tail = locals) :
    (r.relabel ρ marks').leave = r.leave.relabel ρ marks := by
  rw [leave, leave, relabel, relabel, tail_relabelLocals, hl, relabelLocals_congr hm.agree]

theorem define_relabel {name : Token} (hm : Bounded marks r.locals.length)
    (hn : name.lexeme ≠ ρ.fresh) :
    (r.relabel ρ marks).define (ρ.declared (marks r.locals.length) name).lexeme =
      (r.define name.lexeme).relabel ρ marks := by
  rw [ρ.lexeme_declared hn]
  obtain ⟨locals, globals, hops⟩ := r
  cases locals with
  | nil =>
    have h : ρ.key (marks 0) name.lexeme = name.lexeme := by rw [hm.global, ρ.key_false]
    exact congrArg (define (relabel ρ marks ⟨[], globals, hops⟩)) h
  | cons scope scopes => rfl

theorem declare_relabel {name : Token} (hn : name.lexeme ≠ ρ.fresh) (h : r.declare name = .ok r') :
    (r.relabel ρ marks).declare (ρ.declared (marks r.locals.length) name) =
      .ok (r'.relabel ρ marks) := by
  obtain ⟨locals, globals, hops⟩ := r
  cases locals with
  | nil =>
    obtain rfl := Except.ok.inj h
    rfl
  | cons scope scopes =>
    have hl : (ρ.declared (marks (scopes.length + 1)) name).lexeme = _ := ρ.lexeme_declared hn
    rw [declare] at h
    dsimp only at h
    split at h
    · cases h
    · rename_i hd
      obtain rfl := Except.ok.inj h
      refine (if_neg ?_).trans (congrArg Except.ok ?_)
      · rw [List.length_cons, hl, NameScope.declares_relabel, ρ.key_key]
        exact hd
      · rw [List.length_cons, hl]
        rfl

theorem resolveScope_relabel {r₀ r₁ : Resolver} {body body' : List Stmt}
    (hm : Inside marks marks' locals.length) (hl : r₀.locals.tail = locals)
    (hb : resolveStmts body r₀ = .ok r₁)
    (hr : resolveStmts body' (r₀.relabel ρ marks') = .ok (r₁.relabel ρ marks')) :
    (do return (← resolveStmts body' (r₀.relabel ρ marks')).leave) =
      (.ok (r₁.leave.relabel ρ marks) : Except ScopeFault Resolver) := by
  have ht : r₁.locals.tail = locals := by
    rw [(resolveStmts_follows body [] r₀ r₁ hb).locals, Stmt.localsAfterBody_tail, hl]
  rw [hr]
  exact congrArg Except.ok (leave_relabel hm ht)

theorem resolveHead_relabel {e : Expr} {body body' : List Stmt} {enter enter' : Resolver → Resolver}
    (hm : Bounded marks r.locals.length) (he : e.Suits resolution ρ marks r.locals)
    (hi : Inside marks marks' r.locals.length)
    (hn : ∀ r₀, r₀.locals = r.locals → (enter r₀).locals = scope :: r.locals ∧
      enter' (r₀.relabel ρ marks) = (enter r₀).relabel ρ marks')
    (hb : ∀ r₀ r₁, r₀.locals = scope :: r.locals → resolveStmts body r₀ = .ok r₁ →
      resolveStmts body' (r₀.relabel ρ marks') = .ok (r₁.relabel ρ marks'))
    (h : (do return (← resolveStmts body (enter (← resolveExpr e r))).leave) = .ok r') :
    (do return (← resolveStmts body' (enter' (← resolveExpr (e.relabel ρ)
      (r.relabel ρ marks)))).leave) = (.ok (r'.relabel ρ marks) : Except ScopeFault Resolver) := by
  obtain ⟨r₀, h₀, h⟩ := bind_eq_ok.mp h
  obtain ⟨r₁, hr, h⟩ := bind_eq_ok.mp h
  obtain rfl := Except.ok.inj h
  obtain ⟨he₀, hl⟩ := resolveSuited hm he h₀
  obtain ⟨hl₀, hn₀⟩ := hn r₀ hl
  rw [he₀]
  change (do return (← resolveStmts body' (enter' (r₀.relabel ρ marks))).leave) = _
  rw [hn₀]
  exact resolveScope_relabel hi (by rw [hl₀, List.tail_cons]) hr (hb _ r₁ hl₀ hr)

theorem enter_relabel_of_locals {locals : List NameScope} (hi : Inside marks marks' locals.length)
    (hl : r.locals = locals) :
    r.enter.locals = [] :: locals ∧ (r.relabel ρ marks).enter = r.enter.relabel ρ marks' := by
  subst hl
  exact ⟨rfl, enter_relabel hi⟩

mutual

theorem resolveStmt_recast (s : Stmt) (marks : Nat → Bool) (s' : Stmt) (r r' : Resolver)
    (hm : Bounded marks r.locals.length) (hs : s.Recast resolution ρ marks r.locals s')
    (h : resolveStmt s r = .ok r') :
    resolveStmt s' (r.relabel ρ marks) = .ok (r'.relabel ρ marks) := by
  cases hs with
  | expr he => exact (resolveSuited hm he h).1
  | run he => exact (resolveSuited hm he h).1
  | verbatim item =>
    obtain rfl := Except.ok.inj h
    rfl
  | @declare _ _ name init hc hn hi =>
    obtain ⟨r₁, hd, h⟩ := bind_eq_ok.mp h
    obtain ⟨r₂, hr, h⟩ := bind_eq_ok.mp h
    obtain rfl := Except.ok.inj h
    have hl₁ := (declare_ok hd).1
    have hm₁ : Bounded marks r₁.locals.length := by rwa [hl₁, length_pending]
    have hr' : resolveOptional (Expr.relabelOptional ρ init) (r₁.relabel ρ marks) =
        .ok (r₂.relabel ρ marks) ∧ r₂.locals = r₁.locals := by
      cases init with
      | none =>
        obtain rfl := Except.ok.inj hr
        exact ⟨rfl, rfl⟩
      | some e => exact resolveSuited hm₁ (hl₁ ▸ hi e rfl) hr
    have hlen₂ : r₂.locals.length = r.locals.length := by rw [hr'.2, hl₁, length_pending]
    rw [resolveStmt, declare_relabel hn hd]
    change (resolveOptional (Expr.relabelOptional ρ init) (r₁.relabel ρ marks) >>= fun r =>
      Except.ok (r.define _)) = _
    rw [hr'.1, ← hlen₂]
    exact congrArg Except.ok (define_relabel (hlen₂ ▸ hm) hn)
  | block hi hb =>
    obtain ⟨r₁, hr, h⟩ := bind_eq_ok.mp h
    obtain rfl := Except.ok.inj h
    rw [resolveStmt, enter_relabel hi]
    exact resolveScope_relabel hi rfl hr
      (resolveStmts_recast _ _ _ r.enter r₁ (hi.bounded hm) hb hr)
  | ifTrue he hi hb =>
    exact resolveHead_relabel hm he hi (fun _ => enter_relabel_of_locals hi)
      (fun r₀ r₁ hl => resolveStmts_recast _ _ _ r₀ r₁ (hl ▸ hi.bounded hm) (hl ▸ hb)) h
  | @forEach _ marks' _ element _ _ _ hn he hi hb =>
    let enterLoop (r : Resolver) : Resolver := r.enter.define element.lexeme
    have hn : ∀ r₀ : Resolver, r₀.locals = r.locals →
        (enterLoop r₀).locals = [(element.lexeme, true)] :: r.locals ∧
          (r₀.relabel ρ marks).enter.define
            (ρ.declared (marks' (r.locals.length + 1)) element).lexeme =
              (enterLoop r₀).relabel ρ marks' := by
      intro r₀ hl
      obtain ⟨hl₀, hn₀⟩ := enter_relabel_of_locals (ρ := ρ) hi hl
      have hb₀ : Bounded marks' r₀.enter.locals.length := hl₀ ▸ hi.bounded hm
      have hd := define_relabel hb₀ hn
      rw [hl₀, List.length_cons] at hd
      refine ⟨?_, hn₀ ▸ hd⟩
      change (r₀.enter.define element.lexeme).locals = _
      rw [define, put, hl₀]
      rfl
    exact resolveHead_relabel hm he hi hn (fun r₀ r₁ hl => resolveStmts_recast _ _ _ r₀ r₁
      (hl ▸ hi.bounded hm) (hl ▸ hb)) h
  | insert he hi hb =>
    exact resolveHead_relabel hm he hi (fun _ => enter_relabel_of_locals hi)
      (fun r₀ r₁ hl => resolveStmts_recast _ _ _ r₀ r₁ (hl ▸ hi.bounded hm) (hl ▸ hb)) h
  | rewrite he hi hb =>
    exact resolveHead_relabel hm he hi (fun _ => enter_relabel_of_locals hi)
      (fun r₀ r₁ hl => resolveStmts_recast _ _ _ r₀ r₁ (hl ▸ hi.bounded hm) (hl ▸ hb)) h

theorem resolveStmts_recast (ss : List Stmt) (marks : Nat → Bool) (ss' : List Stmt)
    (r r' : Resolver) (hm : Bounded marks r.locals.length)
    (hs : Stmt.RecastAll resolution ρ marks r.locals ss ss') (h : resolveStmts ss r = .ok r') :
    resolveStmts ss' (r.relabel ρ marks) = .ok (r'.relabel ρ marks) := by
  cases hs with
  | nil =>
    obtain rfl := Except.ok.inj h
    rfl
  | cons hs hss =>
    obtain ⟨r₁, h₁, h⟩ := bind_eq_ok.mp h
    have hl := (resolveStmt_follows _ [] r r₁ h₁).locals
    have hstep := resolveStmt_recast _ marks _ r r₁ hm hs h₁
    rw [← hl] at hss
    rw [resolveStmts, hstep]
    exact resolveStmts_recast _ marks _ r₁ r' (by rwa [hl, Stmt.length_localsAfter]) hss h

end

end Resolver

end

end DocTemplate
