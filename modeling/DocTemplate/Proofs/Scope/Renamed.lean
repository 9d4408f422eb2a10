import Mathlib.Data.List.Nodup
import DocTemplate.Proofs.Scope.Recast

namespace DocTemplate

variable {ρ : Relabeling}

namespace Expr

mutual

theorem relabel_eq_self (e : Expr) (h : ∀ x ∈ e.nodes, x.site.id ∉ ρ.nodes) : e.relabel ρ = e := by
  have hu : ∀ (site : Site) (token : Token), site.id ∉ ρ.nodes → ρ.use site.id token = token :=
    fun site token hs => if_neg hs
  cases e with
  | constant site value => rfl
  | name site token => rw [relabel, hu site token (h _ List.mem_cons_self)]
  | assign site token value =>
    rw [relabel, hu site token (h _ List.mem_cons_self),
      relabel_eq_self value fun x hx => h x (by simp [nodes, hx])]
  | unary site op token operand =>
    rw [relabel, relabel_eq_self operand fun x hx => h x (by simp [nodes, hx])]
  | binary site op token left right =>
    rw [relabel, relabel_eq_self left fun x hx => h x (by simp [nodes, hx]),
      relabel_eq_self right fun x hx => h x (by simp [nodes, hx])]
  | group site inner =>
    rw [relabel, relabel_eq_self inner fun x hx => h x (by simp [nodes, hx])]
  | call site callee paren args =>
    rw [relabel, relabel_eq_self callee fun x hx => h x (by simp [nodes, hx]),
      relabelItems_eq_self args fun x hx => h x (by simp [nodes, hx])]
  | get site object member optional =>
    rw [relabel, relabel_eq_self object fun x hx => h x (by simp [nodes, hx])]
  | set site object member value =>
    rw [relabel, relabel_eq_self object fun x hx => h x (by simp [nodes, hx]),
      relabel_eq_self value fun x hx => h x (by simp [nodes, hx])]
  | choose site branches otherwise =>
    rw [relabel, relabelBranches_eq_self branches fun x hx => h x (by simp [nodes, hx]),
      relabelOptional_eq_self otherwise fun x hx => h x (by simp [nodes, hx])]
  | lambda site params body =>
    rw [relabel, relabel_eq_self body fun x hx => h x (by simp [nodes, hx])]
  | list site items =>
    rw [relabel, relabelItems_eq_self items fun x hx => h x (by simp [nodes, hx])]

theorem relabelItems_eq_self (es : List Expr) (h : ∀ x ∈ nodesOfItems es, x.site.id ∉ ρ.nodes) :
    relabelItems ρ es = es := by
  cases es with
  | nil => rfl
  | cons e es =>
    rw [relabelItems, relabel_eq_self e fun x hx => h x (by simp [nodesOfItems, hx]),
      relabelItems_eq_self es fun x hx => h x (by simp [nodesOfItems, hx])]

theorem relabelBranches_eq_self (branches : List (Expr × Expr))
    (h : ∀ x ∈ nodesOfBranches branches, x.site.id ∉ ρ.nodes) :
    relabelBranches ρ branches = branches := by
  match branches with
  | [] => rfl
  | (condition, result) :: branches =>
    rw [relabelBranches,
      relabel_eq_self condition fun x hx => h x (by simp [nodesOfBranches, hx]),
      relabel_eq_self result fun x hx => h x (by simp [nodesOfBranches, hx]),
      relabelBranches_eq_self branches fun x hx => h x (by simp [nodesOfBranches, hx])]

theorem relabelOptional_eq_self (e : Option Expr)
    (h : ∀ x ∈ nodesOfOptional e, x.site.id ∉ ρ.nodes) : relabelOptional ρ e = e := by
  match e with
  | none => rfl
  | some e => rw [relabelOptional, relabel_eq_self e h]

end

end Expr

namespace Stmt

mutual

theorem relabel_eq_self (s : Stmt) (h : ∀ x ∈ s.nodes, x.site.id ∉ ρ.nodes) :
    s.relabel ρ false = s := by
  cases s with
  | expr e => rw [relabel, e.relabel_eq_self h]
  | run e => rw [relabel, e.relabel_eq_self h]
  | declare name init =>
    rw [relabel, Expr.relabelOptional_eq_self init h]
    rfl
  | block body => rw [relabel, relabelBody_eq_self body h]
  | ifTrue condition body =>
    rw [relabel, condition.relabel_eq_self fun x hx => h x (by simp [nodes, hx]),
      relabelBody_eq_self body fun x hx => h x (by simp [nodes, hx])]
  | forEach element items body =>
    rw [relabel, items.relabel_eq_self fun x hx => h x (by simp [nodes, hx]),
      relabelBody_eq_self body fun x hx => h x (by simp [nodes, hx])]
  | insert keyword rewriter body =>
    rw [relabel, rewriter.relabel_eq_self fun x hx => h x (by simp [nodes, hx]),
      relabelBody_eq_self body fun x hx => h x (by simp [nodes, hx])]
  | rewrite keyword rewriter body =>
    rw [relabel, rewriter.relabel_eq_self fun x hx => h x (by simp [nodes, hx]),
      relabelBody_eq_self body fun x hx => h x (by simp [nodes, hx])]
  | verbatim item => rfl

theorem relabelBody_eq_self (ss : List Stmt) (h : ∀ x ∈ nodesOfBody ss, x.site.id ∉ ρ.nodes) :
    relabelBody ρ false ss = ss := by
  cases ss with
  | nil => rfl
  | cons s ss =>
    rw [relabelBody, relabel_eq_self s fun x hx => h x (by simp [nodesOfBody, hx]),
      relabelBody_eq_self ss fun x hx => h x (by simp [nodesOfBody, hx])]

end

end Stmt

namespace NameScope

theorem declares_put {scope : NameScope} {name name' : String} {ready : Bool}
    (hs : scope.declares name = false) (hn : name' ≠ name) :
    (scope.put name' ready).declares name = false := by
  rw [put, declares, List.any_cons, beq_eq_false_iff_ne.mpr hn]
  exact hs

theorem declares_singleton {name name' : String} (hn : name' ≠ name) :
    declares [(name', true)] name = false :=
  declares_put (rfl : declares [] name = false) hn

theorem declares_ofParams {params : List String} {name : String} (hn : name ∉ params) :
    (ofParams params).declares name = false := by
  have hf : ∀ scope : NameScope, scope.declares name = false →
      declares (params.foldl (fun scope name => scope.put name true) scope) name = false := by
    induction params with
    | nil => exact fun _ h => h
    | cons p params ih =>
      rw [List.mem_cons, not_or] at hn
      exact fun scope h => ih hn.2 _ (declares_put h (Ne.symm hn.1))
  exact hf [] rfl

end NameScope

theorem Clear.cons {name : String} {scope : NameScope} {locals : List NameScope}
    (hs : scope.declares name = false) (h : Clear name locals) : Clear name (scope :: locals) :=
  List.forall_mem_cons.mpr ⟨hs, h⟩

theorem Clear.pending {name name' : String} {locals : List NameScope} (h : Clear name locals)
    (hn : name' ≠ name) : Clear name (pending name' locals) := by
  cases locals with
  | nil => exact h
  | cons scope scopes =>
    obtain ⟨hs, hss⟩ := List.forall_mem_cons.mp h
    exact .cons (NameScope.declares_put hs hn) hss

theorem Clear.after {name : String} {locals : List NameScope} (h : Clear name locals) (s : Stmt)
    (hn : name ∉ s.declaredNames) : Clear name (s.localsAfter locals) := by
  cases s with
  | declare token init =>
    cases locals with
    | nil => exact h
    | cons scope scopes =>
      obtain ⟨hs, hss⟩ := List.forall_mem_cons.mp h
      have hne : token.lexeme ≠ name := fun he => hn (he ▸ List.mem_cons_self)
      exact .cons (NameScope.declares_put (NameScope.declares_put hs hne) hne) hss
  | _ => exact h

namespace Expr

variable {fresh : String}

mutual

theorem visits_fresh (e : Expr) (around : List Region) (locals : List NameScope)
    (h : ∀ x ∈ e.nodes, fresh ∉ x.ownNames) (hc : Clear fresh locals) :
    ∀ v ∈ e.visits around locals, v.name ≠ fresh ∧ Clear fresh v.locals := by
  intro v hv
  cases e with
  | constant site value => cases hv
  | name site token =>
    obtain rfl := List.mem_singleton.mp hv
    exact ⟨fun he => h _ List.mem_cons_self (he ▸ List.mem_cons_self), hc⟩
  | assign site token value =>
    cases List.mem_append.mp hv with
    | inl hv =>
      exact visits_fresh value around locals (fun x hx => h x (by simp [nodes, hx])) hc v hv
    | inr hv =>
      obtain rfl := List.mem_singleton.mp hv
      exact ⟨fun he => h _ List.mem_cons_self (he ▸ List.mem_cons_self), hc⟩
  | unary site op token operand =>
    exact visits_fresh operand around locals (fun x hx => h x (by simp [nodes, hx])) hc v hv
  | binary site op token left right =>
    cases List.mem_append.mp hv with
    | inl hv =>
      exact visits_fresh left around locals (fun x hx => h x (by simp [nodes, hx])) hc v hv
    | inr hv =>
      exact visits_fresh right around locals (fun x hx => h x (by simp [nodes, hx])) hc v hv
  | group site inner =>
    exact visits_fresh inner around locals (fun x hx => h x (by simp [nodes, hx])) hc v hv
  | call site callee paren args =>
    cases List.mem_append.mp hv with
    | inl hv =>
      exact visits_fresh callee around locals (fun x hx => h x (by simp [nodes, hx])) hc v hv
    | inr hv =>
      exact visitsOfItems_fresh args around locals (fun x hx => h x (by simp [nodes, hx])) hc v hv
  | get site object member optional =>
    exact visits_fresh object around locals (fun x hx => h x (by simp [nodes, hx])) hc v hv
  | set site object member value =>
    cases List.mem_append.mp hv with
    | inl hv =>
      exact visits_fresh value around locals (fun x hx => h x (by simp [nodes, hx])) hc v hv
    | inr hv =>
      exact visits_fresh object around locals (fun x hx => h x (by simp [nodes, hx])) hc v hv
  | choose site branches otherwise =>
    cases List.mem_append.mp hv with
    | inl hv =>
      exact visitsOfBranches_fresh branches around locals (fun x hx => h x (by simp [nodes, hx])) hc
        v hv
    | inr hv =>
      exact visitsOfOptional_fresh otherwise around locals
        (fun x hx => h x (by simp [nodes, hx])) hc v hv
  | lambda site params body =>
    have hp := h _ List.mem_cons_self
    exact visits_fresh body _ _ (fun x hx => h x (by simp [nodes, hx]))
      (.cons (NameScope.declares_ofParams hp) hc) v hv
  | list site items =>
    exact visitsOfItems_fresh items around locals (fun x hx => h x (by simp [nodes, hx])) hc v hv

theorem visitsOfItems_fresh (es : List Expr) (around : List Region) (locals : List NameScope)
    (h : ∀ x ∈ nodesOfItems es, fresh ∉ x.ownNames) (hc : Clear fresh locals) :
    ∀ v ∈ visitsOfItems es around locals, v.name ≠ fresh ∧ Clear fresh v.locals := by
  intro v hv
  cases es with
  | nil => cases hv
  | cons e es =>
    cases List.mem_append.mp hv with
    | inl hv =>
      exact visits_fresh e around locals (fun x hx => h x (by simp [nodesOfItems, hx])) hc v hv
    | inr hv =>
      exact visitsOfItems_fresh es around locals (fun x hx => h x (by simp [nodesOfItems, hx])) hc v
        hv

theorem visitsOfBranches_fresh (branches : List (Expr × Expr)) (around : List Region)
    (locals : List NameScope) (h : ∀ x ∈ nodesOfBranches branches, fresh ∉ x.ownNames)
    (hc : Clear fresh locals) :
    ∀ v ∈ visitsOfBranches branches around locals, v.name ≠ fresh ∧ Clear fresh v.locals := by
  intro v hv
  match branches with
  | [] => cases hv
  | (condition, result) :: branches =>
    obtain hv | hv := List.mem_append.mp hv
    · obtain hv | hv := List.mem_append.mp hv
      · exact visits_fresh condition around locals
          (fun x hx => h x (by simp [nodesOfBranches, hx])) hc v hv
      · exact visits_fresh result around locals
          (fun x hx => h x (by simp [nodesOfBranches, hx])) hc v hv
    · exact visitsOfBranches_fresh branches around locals
        (fun x hx => h x (by simp [nodesOfBranches, hx])) hc v hv

theorem visitsOfOptional_fresh (e : Option Expr) (around : List Region)
    (locals : List NameScope) (h : ∀ x ∈ nodesOfOptional e, fresh ∉ x.ownNames)
    (hc : Clear fresh locals) :
    ∀ v ∈ visitsOfOptional e around locals, v.name ≠ fresh ∧ Clear fresh v.locals := by
  match e with
  | none => exact nofun
  | some e => exact visits_fresh e around locals h hc

end

end Expr

/-- What the resolution tells of a visit, and which nodes get the new name. -/
structure Visit.Named (resolution : Resolution) (ρ : Relabeling) (marks : Nat → Bool)
    (v : Visit) : Prop where
  resolved : resolution.get? v.node = Resolver.distance? v.name v.locals
  bound : v.node ∈ ρ.nodes ↔ Binds ρ marks v.locals v.name

section

variable {resolution : Resolution} {marks : Nat → Bool} {locals : List NameScope}
variable {around : List Region}

theorem Expr.suits_of_named {e : Expr} (hf : ∀ x ∈ e.nodes, ρ.fresh ∉ x.ownNames)
    (hc : Clear ρ.fresh locals) (hv : ∀ v ∈ e.visits around locals, v.Named resolution ρ marks) :
    e.Suits resolution ρ marks locals := by
  refine ⟨around, fun v hm => ?_⟩
  obtain ⟨hn, hcv⟩ := e.visits_fresh around locals hf hc v hm
  exact ⟨(hv v hm).resolved, hn, hcv, (hv v hm).bound⟩

theorem Bounded.inside (h : Bounded marks locals.length) : Inside marks marks locals.length :=
  ⟨fun _ _ => rfl, fun j hj => h.inner j (Nat.lt_of_succ_lt hj)⟩

namespace Stmt

mutual

theorem recast_relabel (s : Stmt) (own : Bool) (around : List Region) (locals : List NameScope)
    (ho : marks locals.length = own) (hb : Bounded marks locals.length)
    (hc : Clear ρ.fresh locals) (hf : ∀ x ∈ s.nodes, ρ.fresh ∉ x.ownNames)
    (hd : ρ.fresh ∉ s.declaredNames)
    (hv : ∀ v ∈ s.visits around locals, v.Named resolution ρ marks) :
    s.Recast resolution ρ marks locals (s.relabel ρ own) := by
  have hin : marks (locals.length + 1) = false := hb.inner _ (Nat.lt_succ_self _)
  cases s with
  | expr e => exact .expr (e.suits_of_named hf hc hv)
  | run e => exact .run (e.suits_of_named hf hc hv)
  | declare name init =>
    have hn : name.lexeme ≠ ρ.fresh := fun he => hd (he ▸ List.mem_cons_self)
    subst ho
    refine .declare hc hn fun e he => ?_
    subst he
    exact e.suits_of_named hf (hc.pending hn) hv
  | block body =>
    exact .block hb.inside (recastAll_relabel body false _ _ hin hb.mono (.cons rfl hc) hf hd hv)
  | ifTrue condition body =>
    obtain ⟨hve, hvb⟩ := List.forall_mem_append.mp hv
    obtain ⟨hfe, hfb⟩ := List.forall_mem_append.mp hf
    exact .ifTrue (condition.suits_of_named hfe hc hve) hb.inside
      (recastAll_relabel body false _ _ hin hb.mono (.cons rfl hc) hfb hd hvb)
  | forEach element items body =>
    obtain ⟨hve, hvb⟩ := List.forall_mem_append.mp hv
    obtain ⟨hfe, hfb⟩ := List.forall_mem_append.mp hf
    rw [declaredNames, List.mem_cons, not_or] at hd
    have hn : element.lexeme ≠ ρ.fresh := Ne.symm hd.1
    have hr := Recast.forEach hn (items.suits_of_named hfe hc hve) hb.inside
      (recastAll_relabel body false _ _ hin hb.mono
        (.cons (NameScope.declares_singleton hn) hc) hfb hd.2 hvb)
    rw [hin] at hr
    exact hr
  | insert keyword rewriter body =>
    obtain ⟨hve, hvb⟩ := List.forall_mem_append.mp hv
    obtain ⟨hfe, hfb⟩ := List.forall_mem_append.mp hf
    exact .insert (rewriter.suits_of_named hfe hc hve) hb.inside
      (recastAll_relabel body false _ _ hin hb.mono (.cons rfl hc) hfb hd hvb)
  | rewrite keyword rewriter body =>
    obtain ⟨hve, hvb⟩ := List.forall_mem_append.mp hv
    obtain ⟨hfe, hfb⟩ := List.forall_mem_append.mp hf
    exact .rewrite (rewriter.suits_of_named hfe hc hve) hb.inside
      (recastAll_relabel body false _ _ hin hb.mono (.cons rfl hc) hfb hd hvb)
  | verbatim item => exact .verbatim item

theorem recastAll_relabel (ss : List Stmt) (own : Bool) (around : List Region)
    (locals : List NameScope) (ho : marks locals.length = own) (hb : Bounded marks locals.length)
    (hc : Clear ρ.fresh locals) (hf : ∀ x ∈ nodesOfBody ss, ρ.fresh ∉ x.ownNames)
    (hd : ρ.fresh ∉ declaredNamesOfBody ss)
    (hv : ∀ v ∈ visitsOfBody ss around locals, v.Named resolution ρ marks) :
    RecastAll resolution ρ marks locals ss (relabelBody ρ own ss) := by
  cases ss with
  | nil => exact .nil
  | cons s ss =>
    obtain ⟨hvs, hvss⟩ := List.forall_mem_append.mp hv
    obtain ⟨hfs, hfss⟩ := List.forall_mem_append.mp hf
    rw [declaredNamesOfBody, List.mem_append, not_or] at hd
    refine .cons (recast_relabel s own around locals ho hb hc hfs hd.1 hvs) ?_
    have hl := s.length_localsAfter locals
    exact recastAll_relabel ss own around _ (hl ▸ ho) (hl ▸ hb) (hc.after s hd.1) hfss hd.2 hvss

end

end Stmt

def unmarked : Nat → Bool := fun _ => false

/-- The numbers of the nodes of a statement are its own, and the resolution tells what the resolver
finds where it meets a name. -/
structure Stmt.Resolved (resolution : Resolution) (around : List Region)
    (locals : List NameScope) (ss : List Stmt) : Prop where
  nodup : ((nodesOfBody ss).map (·.site.id)).Nodup
  resolved : ∀ v ∈ visitsOfBody ss around locals,
    resolution.get? v.node = Resolver.distance? v.name v.locals

structure Stmt.Fresh (fresh : String) (locals : List NameScope) (ss : List Stmt) : Prop where
  clear : Clear fresh locals
  used : ∀ x ∈ nodesOfBody ss, fresh ∉ x.ownNames
  declared : fresh ∉ declaredNamesOfBody ss

namespace Stmt

variable {s : Stmt} {ss body' : List Stmt} {marks' : Nat → Bool}

theorem Resolved.head (h : Resolved resolution around locals (s :: ss)) :
    (s.nodes.map (·.site.id)).Nodup ∧ ∀ v ∈ s.visits around locals,
      resolution.get? v.node = Resolver.distance? v.name v.locals := by
  have hn := h.nodup
  rw [nodesOfBody, List.map_append, List.nodup_append] at hn
  exact ⟨hn.1, fun v hv => h.resolved v (List.mem_append_left _ hv)⟩

theorem Resolved.tail (h : Resolved resolution around locals (s :: ss)) :
    Resolved resolution around (s.localsAfter locals) ss := by
  have hn := h.nodup
  rw [nodesOfBody, List.map_append, List.nodup_append] at hn
  exact ⟨hn.2.1, fun v hv => h.resolved v (List.mem_append_right _ hv)⟩

theorem Resolved.body (h : Resolved resolution around locals (s :: ss)) :
    Resolved resolution (.body s :: around) (s.entry :: locals) s.body := by
  obtain ⟨hn, hv⟩ := h.head
  cases s with
  | block body => exact ⟨hn, hv⟩
  | ifTrue | forEach | insert | rewrite =>
    rw [nodes, List.map_append, List.nodup_append] at hn
    exact ⟨hn.2.1, fun v hm => hv v (List.mem_append_right _ hm)⟩
  | _ => exact ⟨List.nodup_nil, nofun⟩

theorem Fresh.tail {fresh : String} (h : Fresh fresh locals (s :: ss)) :
    Fresh fresh (s.localsAfter locals) ss := by
  have hd := h.declared
  rw [declaredNamesOfBody, List.mem_append, not_or] at hd
  exact ⟨h.clear.after s hd.1, (List.forall_mem_append.mp h.used).2, hd.2⟩

theorem Fresh.head {fresh : String} (h : Fresh fresh locals (s :: ss)) :
    (∀ x ∈ s.nodes, fresh ∉ x.ownNames) ∧ fresh ∉ s.declaredNames := by
  have hd := h.declared
  rw [declaredNamesOfBody, List.mem_append, not_or] at hd
  exact ⟨(List.forall_mem_append.mp h.used).1, hd.1⟩

theorem Fresh.body {fresh : String} (h : Fresh fresh locals (s :: ss)) :
    Fresh fresh (s.entry :: locals) s.body := by
  obtain ⟨hf, hd⟩ := h.head
  cases s with
  | block body => exact ⟨.cons rfl h.clear, hf, hd⟩
  | forEach element items body =>
    rw [declaredNames, List.mem_cons, not_or] at hd
    exact ⟨.cons (NameScope.declares_singleton (Ne.symm hd.1)) h.clear,
      (List.forall_mem_append.mp hf).2, hd.2⟩
  | ifTrue | insert | rewrite =>
    exact ⟨.cons rfl h.clear, (List.forall_mem_append.mp hf).2, hd⟩
  | _ => exact ⟨.cons rfl h.clear, nofun, nofun⟩

theorem visits_nodup (hn : ((nodesOfBody ss).map (·.site.id)).Nodup) :
    ((visitsOfBody ss around locals).map Visit.node).Nodup := by
  have hp := (visitsOfBody_perm ss around locals).map Prod.fst
  rw [useKeys, List.map_map, List.map_map] at hp
  exact hp.nodup_iff.mpr ((useNodes_sublist _).nodup hn)

end Stmt

end

end DocTemplate
