import DocTemplate.Proofs.Program.Numbering
import DocTemplate.Proofs.Scope.Visit

namespace DocTemplate

def Visit.key (v : Visit) : Nat × String := (v.node, v.name)

def NameUse.key (u : NameUse) : Nat × String := (u.node, u.token.lexeme)

def useKeys (nodes : List Expr) : List (Nat × String) :=
  (nodes.filterMap Expr.nameUse?).map NameUse.key

@[simp] theorem useKeys_append (xs ys : List Expr) :
    useKeys (xs ++ ys) = useKeys xs ++ useKeys ys := by
  simp [useKeys]

theorem useKeys_cons (e : Expr) (xs : List Expr) (h : e.nameUse? = none) :
    useKeys (e :: xs) = useKeys xs := by
  simp [useKeys, h]

namespace Expr

mutual

theorem visits_perm (e : Expr) (around : List Region) (locals : List NameScope) :
    ((e.visits around locals).map Visit.key).Perm (useKeys e.nodes) := by
  cases e with
  | constant site value => exact .refl _
  | name site token => exact .refl _
  | assign site token value =>
    rw [visits, nodes, List.map_append]
    exact List.perm_append_comm.trans ((visits_perm value around locals).cons _)
  | unary site op token operand =>
    rw [nodes, useKeys_cons _ _ rfl]
    exact visits_perm operand around locals
  | binary site op token left right =>
    rw [visits, nodes, List.cons_append, useKeys_cons _ _ rfl, useKeys_append, List.map_append]
    exact (visits_perm left around locals).append (visits_perm right around locals)
  | group site inner =>
    rw [nodes, useKeys_cons _ _ rfl]
    exact visits_perm inner around locals
  | call site callee paren args =>
    rw [visits, nodes, List.cons_append, useKeys_cons _ _ rfl, useKeys_append, List.map_append]
    exact (visits_perm callee around locals).append (visitsOfItems_perm args around locals)
  | get site object name optional =>
    rw [nodes, useKeys_cons _ _ rfl]
    exact visits_perm object around locals
  | set site object name value =>
    rw [visits, nodes, List.cons_append, useKeys_cons _ _ rfl, useKeys_append, List.map_append]
    exact List.perm_append_comm.trans
      ((visits_perm object around locals).append (visits_perm value around locals))
  | choose site branches otherwise =>
    rw [visits, nodes, List.cons_append, useKeys_cons _ _ rfl, useKeys_append, List.map_append]
    exact (visitsOfBranches_perm branches around locals).append
      (visitsOfOptional_perm otherwise around locals)
  | lambda site params body =>
    rw [nodes, useKeys_cons _ _ rfl]
    exact visits_perm body _ _
  | list site items =>
    rw [nodes, useKeys_cons _ _ rfl]
    exact visitsOfItems_perm items around locals

theorem visitsOfItems_perm (es : List Expr) (around : List Region) (locals : List NameScope) :
    ((visitsOfItems es around locals).map Visit.key).Perm (useKeys (nodesOfItems es)) := by
  cases es with
  | nil => exact .refl _
  | cons e es =>
    rw [visitsOfItems, nodesOfItems, useKeys_append, List.map_append]
    exact (visits_perm e around locals).append (visitsOfItems_perm es around locals)

theorem visitsOfBranches_perm (branches : List (Expr × Expr)) (around : List Region)
    (locals : List NameScope) :
    ((visitsOfBranches branches around locals).map Visit.key).Perm
      (useKeys (nodesOfBranches branches)) := by
  match branches with
  | [] => exact .refl _
  | (condition, result) :: branches =>
    rw [visitsOfBranches, nodesOfBranches, useKeys_append, useKeys_append, List.map_append,
      List.map_append]
    exact ((visits_perm condition around locals).append (visits_perm result around locals)).append
      (visitsOfBranches_perm branches around locals)

theorem visitsOfOptional_perm (e : Option Expr) (around : List Region)
    (locals : List NameScope) :
    ((visitsOfOptional e around locals).map Visit.key).Perm (useKeys (nodesOfOptional e)) := by
  match e with
  | none => exact .refl _
  | some e => exact visits_perm e around locals

end

end Expr

namespace Stmt

mutual

theorem visits_perm (s : Stmt) (around : List Region) (locals : List NameScope) :
    ((s.visits around locals).map Visit.key).Perm (useKeys s.nodes) := by
  cases s with
  | expr e => exact e.visits_perm around locals
  | run e => exact e.visits_perm around locals
  | declare name init => exact Expr.visitsOfOptional_perm init around _
  | block body => exact visitsOfBody_perm body _ _
  | ifTrue condition body =>
    rw [visits, nodes, useKeys_append, List.map_append]
    exact (condition.visits_perm around locals).append (visitsOfBody_perm body _ _)
  | forEach element items body =>
    rw [visits, nodes, useKeys_append, List.map_append]
    exact (items.visits_perm around locals).append (visitsOfBody_perm body _ _)
  | insert keyword rewriter body =>
    rw [visits, nodes, useKeys_append, List.map_append]
    exact (rewriter.visits_perm around locals).append (visitsOfBody_perm body _ _)
  | rewrite keyword rewriter body =>
    rw [visits, nodes, useKeys_append, List.map_append]
    exact (rewriter.visits_perm around locals).append (visitsOfBody_perm body _ _)
  | verbatim item => exact .refl _

theorem visitsOfBody_perm (body : List Stmt) (around : List Region) (locals : List NameScope) :
    ((visitsOfBody body around locals).map Visit.key).Perm (useKeys (nodesOfBody body)) := by
  cases body with
  | nil => exact .refl _
  | cons s ss =>
    rw [visitsOfBody, nodesOfBody, useKeys_append, List.map_append]
    exact (visits_perm s around locals).append (visitsOfBody_perm ss around _)

end

end Stmt

section

variable {visits : List Visit} {hops : Array (Option Nat)}

theorem record_other {node : Nat} (h : node ∉ visits.map Visit.node) :
    (visits.foldl Visit.record hops)[node]? = hops[node]? := by
  induction visits generalizing hops with
  | nil => rfl
  | cons v visits ih =>
    rw [List.map_cons, List.mem_cons, not_or] at h
    rw [List.foldl_cons, ih h.2, Visit.record, Array.getElem?_modify, if_neg (Ne.symm h.1)]

theorem record_own {v : Visit} (hn : (visits.map Visit.node).Nodup) (hv : v ∈ visits)
    (hb : v.node < hops.size) :
    (visits.foldl Visit.record hops)[v.node]? = some (Resolver.distance? v.name v.locals) := by
  induction visits generalizing hops with
  | nil => cases hv
  | cons w visits ih =>
    rw [List.map_cons, List.nodup_cons] at hn
    rw [List.foldl_cons]
    cases List.mem_cons.mp hv with
    | inl he =>
      subst he
      rw [record_other hn.1, Visit.record, Array.getElem?_modify, if_pos rfl,
        Array.getElem?_eq_getElem hb]
      rfl
    | inr hv =>
      refine ih hn.2 hv ?_
      rw [Visit.record, Array.size_modify]
      exact hb

end

theorem Visit.node_mem_of_perm {visits : List Visit} {nodes : List Expr} {v : Visit}
    (h : (visits.map Visit.key).Perm (useKeys nodes)) (hv : v ∈ visits) :
    v.node ∈ nodes.map (·.site.id) := by
  have hm : v.key ∈ useKeys nodes := h.mem_iff.mp (List.mem_map_of_mem hv)
  obtain ⟨u, hu, hk⟩ := List.mem_map.mp hm
  obtain ⟨e, he, hn⟩ := List.mem_filterMap.mp hu
  refine List.mem_map.mpr ⟨e, he, ?_⟩
  have hid : u.node = v.node := congrArg Prod.fst hk
  rw [← hid]
  cases e <;> cases hn <;> rfl

theorem useNodes_sublist (nodes : List Expr) :
    ((nodes.filterMap Expr.nameUse?).map NameUse.node).Sublist (nodes.map (·.site.id)) := by
  induction nodes with
  | nil => exact .slnil
  | cons e nodes ih =>
    cases hu : e.nameUse? with
    | none =>
      rw [List.filterMap_cons_none hu]
      exact ih.cons _
    | some u =>
      rw [List.filterMap_cons_some hu]
      have hid : u.node = e.site.id := by cases e <;> cases hu <;> rfl
      rw [List.map_cons, List.map_cons, hid]
      exact ih.cons_cons _

namespace Program

variable {p : Program} {globals : List String} {resolution : Resolution}

theorem resolve_ok (h : resolve p globals = .ok resolution) :
    p.visits globals = Stmt.visitsOfBody p.body [] [] ∧
      resolution.hops =
        (p.visits globals).foldl Visit.record (Array.replicate p.nodeCount none) := by
  obtain ⟨r, hr, h⟩ := bind_eq_ok.mp h
  obtain rfl := Except.ok.inj h
  have hf := Resolver.resolveStmts_follows p.body [] (p.resolver globals) r hr
  refine ⟨hf.found, ?_⟩
  rw [visits, hf.found]
  exact hf.hops

/-- The resolver meets each use of a name once. -/
theorem visits_perm (h : resolve p globals = .ok resolution) :
    ((p.visits globals).map Visit.key).Perm (p.nameUses.map NameUse.key) := by
  rw [(resolve_ok h).1]
  exact Stmt.visitsOfBody_perm p.body [] []

theorem visits_nodup (hn : Numbered 0 p.nodeCount p.nodes)
    (h : resolve p globals = .ok resolution) : ((p.visits globals).map Visit.node).Nodup := by
  have hp := (visits_perm h).map Prod.fst
  rw [List.map_map, List.map_map] at hp
  exact hp.nodup_iff.mpr ((useNodes_sublist p.nodes).nodup hn.nodup)

/-- A resolution tells the distance at which the resolver found the name. -/
theorem resolution_eq (hn : Numbered 0 p.nodeCount p.nodes)
    (h : resolve p globals = .ok resolution) {v : Visit} (hv : v ∈ p.visits globals) :
    resolution.get? v.node = Resolver.distance? v.name v.locals := by
  obtain ⟨e, he, hid⟩ := List.mem_map.mp (Visit.node_mem_of_perm (visits_perm h) hv)
  have hb : v.node < (Array.replicate p.nodeCount (none : Option Nat)).size := by
    rw [Array.size_replicate, ← hid]
    exact (hn.bounds e he).2
  rw [Resolution.get?, (resolve_ok h).2, record_own (visits_nodup hn h) hv hb]
  rfl

end Program

namespace NameScope

def AllReady (scope : NameScope) : Prop := ∀ name, scope.ready? name ≠ some false

theorem ready?_put (scope : NameScope) (name name' : String) (ready : Bool) :
    (scope.put name ready).ready? name' =
      if name' = name then some ready else scope.ready? name' := by
  by_cases h : name' = name
  · simp [put, ready?, h]
  · simp [put, ready?, List.lookup_cons, h, beq_eq_false_iff_ne.mpr h]

theorem AllReady.nil : AllReady [] := fun _ h => by cases h

theorem AllReady.put {scope : NameScope} (h : scope.AllReady) (name : String) :
    (scope.put name true).AllReady := by
  intro name' hr
  rw [ready?_put] at hr
  split at hr
  · cases hr
  · exact h name' hr

theorem AllReady.declared {scope : NameScope} (h : scope.AllReady) (name : String) :
    ((scope.put name false).put name true).AllReady := by
  intro name' hr
  rw [ready?_put] at hr
  split at hr
  · cases hr
  · rename_i hne
    rw [ready?_put, if_neg hne] at hr
    exact h name' hr

theorem AllReady.ofParams (params : List String) : AllReady (.ofParams params) := by
  have hf : ∀ scope : NameScope, scope.AllReady →
      AllReady (params.foldl (fun scope name => scope.put name true) scope) := by
    induction params with
    | nil => exact fun _ h => h
    | cons p params ih => exact fun scope h => ih _ (h.put p)
  exact hf [] .nil

end NameScope

/-- A node lies in an initializer of a name that is declared right in the region. -/
def Region.Initializes (region : Region) (name : String) (node : Nat) : Prop :=
  ∃ token init, .declare token (some init) ∈ region.statements ∧ token.lexeme = name ∧
    node ∈ init.nodes.map (·.site.id)

def Region.initialized (region : Region) : List Nat :=
  region.statements.flatMap fun
    | .declare _ (some init) => init.nodes.map (·.site.id)
    | _ => []

theorem Region.Initializes.mem_initialized {region : Region} {name : String} {node : Nat}
    (h : region.Initializes name node) : node ∈ region.initialized := by
  obtain ⟨token, init, hm, -, hnode⟩ := h
  exact List.mem_flatMap.mpr ⟨_, hm, hnode⟩

/-- A name that is not ready at a node waits for an initializer that the node lies in. -/
def AwaitsOwn (node : Nat) (around : List Region) (locals : List NameScope) : Prop :=
  ∀ (d : Nat) (names : NameScope) (name : String), locals[d]? = some names →
    names.ready? name = some false →
      ∃ region : Region, around[d]? = some region ∧ region.Initializes name node

namespace AwaitsOwn

variable {node : Nat} {around : List Region} {locals : List NameScope} {scope : NameScope}

theorem enter (h : AwaitsOwn node around locals) (hs : scope.AllReady) (region : Region) :
    AwaitsOwn node (region :: around) (scope :: locals) := by
  intro d names name hd hr
  cases d with
  | zero =>
    obtain rfl := Option.some.inj hd
    exact absurd hr (hs name)
  | succ d => exact h d names name hd hr

theorem of_allReady (h : ∀ scope ∈ locals, scope.AllReady) : AwaitsOwn node around locals := by
  intro d names name hd hr
  exact absurd hr (h names (List.mem_of_getElem? hd) name)

end AwaitsOwn

namespace Expr

mutual

theorem visits_await (e : Expr) (around : List Region) (locals : List NameScope)
    (h : ∀ x ∈ e.nodes, AwaitsOwn x.site.id around locals) :
    ∀ v ∈ e.visits around locals, AwaitsOwn v.node v.around v.locals := by
  intro v hv
  cases e with
  | constant site value => cases hv
  | name site token =>
    obtain rfl := List.mem_singleton.mp hv
    exact h _ List.mem_cons_self
  | assign site token value =>
    cases List.mem_append.mp hv with
    | inl hv => exact visits_await value around locals (fun x hx => h x (by simp [nodes, hx])) v hv
    | inr hv =>
      obtain rfl := List.mem_singleton.mp hv
      exact h _ List.mem_cons_self
  | unary site op token operand =>
    exact visits_await operand around locals (fun x hx => h x (by simp [nodes, hx])) v hv
  | binary site op token left right =>
    cases List.mem_append.mp hv with
    | inl hv => exact visits_await left around locals (fun x hx => h x (by simp [nodes, hx])) v hv
    | inr hv => exact visits_await right around locals (fun x hx => h x (by simp [nodes, hx])) v hv
  | group site inner =>
    exact visits_await inner around locals (fun x hx => h x (by simp [nodes, hx])) v hv
  | call site callee paren args =>
    cases List.mem_append.mp hv with
    | inl hv => exact visits_await callee around locals (fun x hx => h x (by simp [nodes, hx])) v hv
    | inr hv =>
      exact visitsOfItems_await args around locals (fun x hx => h x (by simp [nodes, hx])) v hv
  | get site object name optional =>
    exact visits_await object around locals (fun x hx => h x (by simp [nodes, hx])) v hv
  | set site object name value =>
    cases List.mem_append.mp hv with
    | inl hv => exact visits_await value around locals (fun x hx => h x (by simp [nodes, hx])) v hv
    | inr hv =>
      exact visits_await object around locals (fun x hx => h x (by simp [nodes, hx])) v hv
  | choose site branches otherwise =>
    cases List.mem_append.mp hv with
    | inl hv =>
      exact visitsOfBranches_await branches around locals
        (fun x hx => h x (by simp [nodes, hx])) v hv
    | inr hv =>
      exact visitsOfOptional_await otherwise around locals
        (fun x hx => h x (by simp [nodes, hx])) v hv
  | lambda site params body =>
    refine visits_await body _ _ (fun x hx => ?_) v hv
    exact (h x (by simp [nodes, hx])).enter (.ofParams _) _
  | list site items =>
    exact visitsOfItems_await items around locals (fun x hx => h x (by simp [nodes, hx])) v hv

theorem visitsOfItems_await (es : List Expr) (around : List Region) (locals : List NameScope)
    (h : ∀ x ∈ nodesOfItems es, AwaitsOwn x.site.id around locals) :
    ∀ v ∈ visitsOfItems es around locals, AwaitsOwn v.node v.around v.locals := by
  intro v hv
  cases es with
  | nil => cases hv
  | cons e es =>
    cases List.mem_append.mp hv with
    | inl hv =>
      exact visits_await e around locals (fun x hx => h x (by simp [nodesOfItems, hx])) v hv
    | inr hv =>
      exact visitsOfItems_await es around locals
        (fun x hx => h x (by simp [nodesOfItems, hx])) v hv

theorem visitsOfBranches_await (branches : List (Expr × Expr)) (around : List Region)
    (locals : List NameScope)
    (h : ∀ x ∈ nodesOfBranches branches, AwaitsOwn x.site.id around locals) :
    ∀ v ∈ visitsOfBranches branches around locals, AwaitsOwn v.node v.around v.locals := by
  intro v hv
  match branches with
  | [] => cases hv
  | (condition, result) :: branches =>
    simp only [visitsOfBranches, List.mem_append] at hv
    obtain (hv | hv) | hv := hv
    · exact visits_await condition around locals
        (fun x hx => h x (by simp [nodesOfBranches, hx])) v hv
    · exact visits_await result around locals
        (fun x hx => h x (by simp [nodesOfBranches, hx])) v hv
    · exact visitsOfBranches_await branches around locals
        (fun x hx => h x (by simp [nodesOfBranches, hx])) v hv

theorem visitsOfOptional_await (e : Option Expr) (around : List Region)
    (locals : List NameScope) (h : ∀ x ∈ nodesOfOptional e, AwaitsOwn x.site.id around locals) :
    ∀ v ∈ visitsOfOptional e around locals, AwaitsOwn v.node v.around v.locals := by
  match e with
  | none => exact fun v hv => absurd hv List.not_mem_nil
  | some e => exact visits_await e around locals h

end

end Expr

namespace Stmt

theorem localsAfter_allReady {s : Stmt} {locals : List NameScope}
    (h : ∀ scope ∈ locals, scope.AllReady) : ∀ scope ∈ s.localsAfter locals, scope.AllReady := by
  cases s with
  | declare name init =>
    cases locals with
    | nil => exact h
    | cons scope scopes =>
      intro names hm
      cases List.mem_cons.mp hm with
      | inl he =>
        rw [he]
        exact (h scope List.mem_cons_self).declared name.lexeme
      | inr hm => exact h names (List.mem_cons_of_mem _ hm)
  | _ => exact h

theorem localsAfter_length (s : Stmt) (locals : List NameScope) :
    (s.localsAfter locals).length = locals.length := by
  cases s <;> cases locals <;> rfl

structure Between (around : List Region) (locals : List NameScope) : Prop where
  length : around.length = locals.length
  ready : ∀ scope ∈ locals, scope.AllReady

namespace Between

variable {around : List Region} {locals : List NameScope} {scope : NameScope}

theorem enter (h : Between around locals) (hs : scope.AllReady) (region : Region) :
    Between (region :: around) (scope :: locals) := by
  refine ⟨by rw [List.length_cons, List.length_cons, h.length], fun names hm => ?_⟩
  cases List.mem_cons.mp hm with
  | inl he =>
    rw [he]
    exact hs
  | inr hm => exact h.ready names hm

theorem after (h : Between around locals) (s : Stmt) : Between around (s.localsAfter locals) :=
  ⟨by rw [localsAfter_length, h.length], localsAfter_allReady h.ready⟩

theorem expr (h : Between around locals) (e : Expr) :
    ∀ v ∈ e.visits around locals, AwaitsOwn v.node v.around v.locals :=
  e.visits_await around locals fun _ _ => .of_allReady h.ready

theorem declaration (h : Between around locals) {name : Token} {init : Option Expr}
    (hs : ∀ region ∈ around.head?, .declare name init ∈ region.statements) :
    ∀ v ∈ Expr.visitsOfOptional init around (pending name.lexeme locals),
      AwaitsOwn v.node v.around v.locals := by
  refine Expr.visitsOfOptional_await init around _ fun x hx => ?_
  obtain ⟨hl, hr⟩ := h
  cases locals with
  | nil => exact .of_allReady hr
  | cons scope scopes =>
    cases around with
    | nil => cases hl
    | cons region around =>
      intro d names x' hd hn
      cases d with
      | zero =>
        obtain rfl := Option.some.inj hd
        rw [NameScope.ready?_put] at hn
        split at hn
        · rename_i heq
          cases init with
          | none => cases hx
          | some init =>
            exact ⟨region, rfl, name, init, hs region rfl, heq.symm, List.mem_map_of_mem hx⟩
        · exact absurd hn (hr scope List.mem_cons_self x')
      | succ d =>
        exact absurd hn (hr names (List.mem_cons_of_mem _ (List.mem_of_getElem? hd)) x')

end Between

mutual

theorem visits_await (s : Stmt) (around : List Region) (locals : List NameScope)
    (h : Between around locals) (hs : ∀ region ∈ around.head?, s ∈ region.statements) :
    ∀ v ∈ s.visits around locals, AwaitsOwn v.node v.around v.locals := by
  intro v hv
  cases s with
  | expr e => exact h.expr e v hv
  | run e => exact h.expr e v hv
  | declare name init => exact h.declaration hs v hv
  | block body =>
    refine visitsOfBody_await body _ _ (h.enter .nil _) (fun region hr s hm => ?_) v hv
    obtain rfl := Option.some.inj hr
    exact hm
  | ifTrue condition body =>
    cases List.mem_append.mp hv with
    | inl hv => exact h.expr condition v hv
    | inr hv =>
      refine visitsOfBody_await body _ _ (h.enter .nil _) (fun region hr s hm => ?_) v hv
      obtain rfl := Option.some.inj hr
      exact hm
  | forEach element items body =>
    cases List.mem_append.mp hv with
    | inl hv => exact h.expr items v hv
    | inr hv =>
      refine visitsOfBody_await body _ _ (h.enter (NameScope.AllReady.nil.put _) _)
        (fun region hr s hm => ?_) v hv
      obtain rfl := Option.some.inj hr
      exact hm
  | insert keyword rewriter body =>
    cases List.mem_append.mp hv with
    | inl hv => exact h.expr rewriter v hv
    | inr hv =>
      refine visitsOfBody_await body _ _ (h.enter .nil _) (fun region hr s hm => ?_) v hv
      obtain rfl := Option.some.inj hr
      exact hm
  | rewrite keyword rewriter body =>
    cases List.mem_append.mp hv with
    | inl hv => exact h.expr rewriter v hv
    | inr hv =>
      refine visitsOfBody_await body _ _ (h.enter .nil _) (fun region hr s hm => ?_) v hv
      obtain rfl := Option.some.inj hr
      exact hm
  | verbatim item => cases hv

theorem visitsOfBody_await (body : List Stmt) (around : List Region) (locals : List NameScope)
    (h : Between around locals)
    (hs : ∀ region ∈ around.head?, ∀ s ∈ body, s ∈ region.statements) :
    ∀ v ∈ visitsOfBody body around locals, AwaitsOwn v.node v.around v.locals := by
  intro v hv
  cases body with
  | nil => cases hv
  | cons s ss =>
    cases List.mem_append.mp hv with
    | inl hv =>
      exact visits_await s around locals h (fun region hr => hs region hr s List.mem_cons_self) v hv
    | inr hv =>
      exact visitsOfBody_await ss around _ (h.after s)
        (fun region hr s hm => hs region hr s (List.mem_cons_of_mem _ hm)) v hv

end

end Stmt

/-- Wherever the resolver meets a name, the names that are not ready wait for initializers that the
place lies in. -/
theorem Program.visits_await {p : Program} {globals : List String} {resolution : Resolution}
    (h : resolve p globals = .ok resolution) {v : Visit} (hv : v ∈ p.visits globals) :
    AwaitsOwn v.node v.around v.locals := by
  rw [(resolve_ok h).1] at hv
  exact Stmt.visitsOfBody_await p.body [] [] ⟨rfl, nofun⟩ nofun v hv

end DocTemplate
