import DocTemplate.Proofs.Program.Storing
import DocTemplate.Proofs.Scope.Encounters
import Mathlib.Data.List.Nodup
import Mathlib.Logic.Relation

namespace DocTemplate

open DocTemplate.Expr

namespace Arena

def Child (a : Arena) (parent child : Nat) : Prop := ∃ n ∈ a[parent]?, child ∈ n.children

/-- Each node is referred to once, by a node or from outside, and nothing else is referred to. -/
structure Forest (a : Arena) (roots : List Nat) : Prop where
  owned : (roots ++ a.toList.flatMap Node.children).Perm (List.range a.size)
  acyclic : ∀ i, ¬Relation.TransGen a.Child i i

variable {a : Arena} {es : List Expr} {n : Nat}

theorem mapM_map_eq_some {α β : Type} {f : β → Option α} {g : α → β} {xs : List α}
    (h : ∀ x ∈ xs, f (g x) = some x) : (xs.map g).mapM f = some xs := by
  induction xs with
  | nil => rfl
  | cons x xs ih =>
    rw [List.map_cons, List.mapM_cons, h x List.mem_cons_self,
      ih fun y hy => h y (List.mem_cons_of_mem _ hy)]
    rfl

theorem expr?_node {read : Nat → Option Expr} {e : Expr}
    (h : ∀ part ∈ e.parts, read part.site.id = some part) :
    e.node.kind.expr? read e.site = some e := by
  cases e with
  | constant site value => rfl
  | name site token => rfl
  | assign site token value =>
    simp [node, NodeKind.expr?, h value (by simp [parts])]
    rfl
  | unary site op token operand =>
    simp [node, NodeKind.expr?, h operand (by simp [parts])]
    rfl
  | binary site op token left right =>
    simp [node, NodeKind.expr?, h left (by simp [parts]), h right (by simp [parts])]
    rfl
  | group site inner =>
    simp [node, NodeKind.expr?, h inner (by simp [parts])]
    rfl
  | call site callee paren args =>
    have hargs : (args.map fun e => e.site.id).mapM read = some args :=
      mapM_map_eq_some fun x hx => h x (by simp [parts, hx])
    simp [node, NodeKind.expr?, h callee (by simp [parts]), hargs]
    rfl
  | get site object token optional =>
    simp [node, NodeKind.expr?, h object (by simp [parts])]
    rfl
  | set site object token value =>
    simp [node, NodeKind.expr?, h object (by simp [parts]), h value (by simp [parts])]
    rfl
  | choose site branches otherwise =>
    have hbranches : (branches.map fun b => (b.1.site.id, b.2.site.id)).mapM (fun branch => do
        return (← read branch.1, ← read branch.2)) = some branches := by
      refine mapM_map_eq_some fun b hb => ?_
      have hc := h b.1 (by
        refine List.mem_append_left _ (List.mem_flatMap.mpr ⟨b, hb, ?_⟩)
        simp)
      have hr := h b.2 (by
        refine List.mem_append_left _ (List.mem_flatMap.mpr ⟨b, hb, ?_⟩)
        simp)
      simp [hc, hr]
    have hotherwise : (otherwise.map fun e => e.site.id).mapM read = some otherwise := by
      cases otherwise with
      | none => rfl
      | some e => simp [h e (by simp [parts])]
    simp only [node, NodeKind.expr?, hbranches, hotherwise]
    rfl
  | lambda site params body =>
    simp [node, NodeKind.expr?, h body (by simp [parts])]
    rfl
  | list site items =>
    have hitems : (items.map fun e => e.site.id).mapM read = some items :=
      mapM_map_eq_some fun x hx => h x hx
    simp [node, NodeKind.expr?, hitems]
    rfl

/-- An arena that holds an expression gives it back, and as many levels as it has nodes are
enough. -/
theorem read?_eq_some {e : Expr} (h : ∀ x ∈ e.nodes, a[x.site.id]? = some x.node)
    (hn : e.nodes.length ≤ n) : a.read? n e.site.id = some e := by
  induction e using parts_induction generalizing n with
  | h e ih =>
    have hself := h e e.self_mem_nodes
    cases n with
    | zero =>
      rw [nodes_eq] at hn
      cases hn
    | succ n =>
      rw [read?, hself, Option.bind_eq_bind, Option.bind_some, span_node]
      refine expr?_node fun part hp => ?_
      have hlt := nodes_length_lt hp
      exact ih part hp (fun x hx => h x (nodes_subset_of_part hp hx)) (by omega)

end Arena

namespace Expr

def references (nodes : List Expr) : List Nat := nodes.flatMap fun x => x.parts.map (·.site.id)

theorem references_append (xs ys : List Expr) :
    references (xs ++ ys) = references xs ++ references ys :=
  List.flatMap_append

theorem references_cons (e : Expr) (xs : List Expr) :
    references (e :: xs) = e.parts.map (·.site.id) ++ references xs :=
  List.flatMap_cons

theorem roots_references_of_each {es : List Expr}
    (h : ∀ e ∈ es, (e.site.id :: references e.nodes).Perm (e.nodes.map (·.site.id))) :
    (es.map (·.site.id) ++ references (es.flatMap nodes)).Perm
      ((es.flatMap nodes).map (·.site.id)) := by
  induction es with
  | nil => exact .refl _
  | cons e es ih =>
    have he := h e List.mem_cons_self
    have hes := ih fun x hx => h x (List.mem_cons_of_mem _ hx)
    rw [List.flatMap_cons, references_append, List.map_append, List.map_cons, List.cons_append]
    refine List.Perm.trans ?_ (he.append hes)
    rw [List.cons_append, ← List.append_assoc, ← List.append_assoc]
    exact ((List.perm_append_comm).append_right _).cons _

theorem references_perm (e : Expr) :
    (e.site.id :: references e.nodes).Perm (e.nodes.map (·.site.id)) := by
  induction e using parts_induction with
  | h e ih =>
    rw [nodes_eq, references_cons, List.map_cons]
    exact (roots_references_of_each ih).cons _

end Expr

namespace Consecutive

variable {lo hi : Nat} {es : List Expr}

theorem length_nodes (h : Consecutive lo es hi) : lo + (es.flatMap nodes).length = hi := by
  induction h with
  | nil n => rfl
  | node fresh parts rest ihp ih =>
    rw [List.flatMap_cons, nodes_eq, List.length_append, List.length_cons]
    omega
  | assign fresh made parts behind rest ihp ihb ih =>
    obtain ⟨-, hparts, -⟩ := assignTo?_eq_some made
    rw [List.flatMap_cons, nodes_eq, hparts, List.flatMap_append, List.length_append,
      List.length_cons, List.length_append]
    omega

theorem range_perm (h : Consecutive 0 es hi) :
    ((es.flatMap nodes).map (·.site.id)).Perm (List.range hi) := by
  have hn := h.numbered
  have hlen := h.length_nodes
  refine (List.subperm_of_subset hn.nodup fun i hi => ?_).perm_of_length_le ?_
  · obtain ⟨x, hx, rfl⟩ := List.mem_map.mp hi
    exact List.mem_range.mpr (hn.bounds x hx).2
  · rw [List.length_range, List.length_map]
    omega

end Consecutive

namespace Arena

variable {a : Arena} {es : List Expr}

theorem filterMap_range {α : Type} (xs : List α) :
    (List.range xs.length).filterMap (xs[·]?) = xs := by
  induction xs with
  | nil => rfl
  | cons x xs ih =>
    rw [List.length_cons, List.range_succ_eq_map, List.filterMap_cons, List.filterMap_map]
    exact congrArg (x :: ·) ih

theorem toList_perm (h : ∀ x ∈ es, a[x.site.id]? = some x.node)
    (hids : (es.map (·.site.id)).Perm (List.range a.size)) : a.toList.Perm (es.map node) := by
  have hall : (List.range a.size).filterMap (a[·]?) = a.toList := by
    have hr := filterMap_range a.toList
    simpa only [Array.length_toList, Array.getElem?_toList] using hr
  have hes : (es.map (·.site.id)).filterMap (a[·]?) = es.map node := by
    rw [List.filterMap_map, ← List.filterMap_eq_map]
    exact List.filterMap_congr h
  rw [← hall, ← hes]
  exact (hids.filterMap _).symm

theorem exists_part (hheld : ∀ x ∈ es, a[x.site.id]? = some x.node)
    (hids : (es.map (·.site.id)).Perm (List.range a.size)) {i j : Nat} (h : a.Child i j) :
    ∃ e ∈ es, ∃ part ∈ e.parts, e.site.id = i ∧ part.site.id = j := by
  obtain ⟨n, hn, hj⟩ := h
  have hi : i ∈ es.map (·.site.id) := by
    rw [hids.mem_iff, List.mem_range]
    exact (Array.getElem?_eq_some_iff.mp hn).1
  obtain ⟨e, he, rfl⟩ := List.mem_map.mp hi
  obtain rfl := Option.some.inj ((hheld e he).symm.trans hn)
  rw [children_node] at hj
  obtain ⟨part, hp, rfl⟩ := List.mem_map.mp hj
  exact ⟨e, he, part, hp, rfl, rfl⟩

end Arena

/-- From an operand to its own operands expressions get smaller, so no way leads around. -/
theorem Arena.acyclic_of_held {a : Arena} {es : List Expr}
    (hheld : ∀ x ∈ es, a[x.site.id]? = some x.node)
    (hids : (es.map (·.site.id)).Perm (List.range a.size))
    (hparts : ∀ e ∈ es, e.parts ⊆ es) (i : Nat) : ¬Relation.TransGen a.Child i i := by
  have hunique {x y : Expr} (hx : x ∈ es) (hy : y ∈ es) (h : x.site.id = y.site.id) : x = y :=
    List.inj_on_of_nodup_map (hids.nodup_iff.mpr List.nodup_range) hx hy h
  have hdown {i j : Nat} (h : Relation.TransGen a.Child i j) :
      ∃ x ∈ es, ∃ y ∈ es, x.site.id = i ∧ y.site.id = j ∧ y.nodes.length < x.nodes.length := by
    induction h with
    | single h =>
      obtain ⟨e, he, part, hp, hi, hj⟩ := exists_part hheld hids h
      exact ⟨e, he, part, hparts e he hp, hi, hj, nodes_length_lt hp⟩
    | tail _ h ih =>
      obtain ⟨x, hx, y, hy, hi, hm, hlt⟩ := ih
      obtain ⟨e, he, part, hp, hm', hj⟩ := exists_part hheld hids h
      obtain rfl := hunique hy he (hm.trans hm'.symm)
      exact ⟨x, hx, part, hparts y hy hp, hi, hj,
        Nat.lt_trans (nodes_length_lt hp) hlt⟩
  intro h
  obtain ⟨x, hx, y, hy, hi, hj, hlt⟩ := hdown h
  obtain rfl := hunique hx hy (hi.trans hj.symm)
  exact Nat.lt_irrefl _ hlt

/-- The nodes of a program form a forest whose roots are the expressions of its statements: each
place but a root is an operand of one node, and chains of operands end. Reading from a place gives
back the expression there, and the resolver meets each place once, with the scopes of one moment,
unless a fault stops it. -/
theorem parseProgram_forest {stream : TemplateStream} {p : Program}
    (h : parseProgram stream = .ok p) (hsize : p.nodeCount < 4294967296) :
    ∃ arena : Arena, p.store? = some (p.roots.map (·.site.id), arena) ∧
      arena.size = p.nodeCount ∧ arena.Forest (p.roots.map (·.site.id)) ∧
      (∀ e ∈ p.nodes, arena[e.site.id]? = some e.node ∧
        arena.read? arena.size e.site.id = some e) ∧
      ∀ globals : List String,
        (p.walk globals).result = Resolver.resolveStmts p.body (p.resolver globals) ∧
        ((p.walk globals).met.map (·.node)).Subperm (List.range arena.size) ∧
        ((resolve p globals).isOk →
          ((p.walk globals).met.map (·.node)).Perm (List.range arena.size)) := by
  have hplaced := (parseProgram_assembled h).consecutive
  obtain ⟨arena, hs, hcount⟩ := hplaced.stored (by omega) #[] rfl
  have hnodes : p.roots.flatMap nodes = p.nodes := p.nodes_eq.symm
  have hheld : ∀ e ∈ p.nodes, arena[e.site.id]? = some e.node := hnodes ▸ hs.held
  have hids : (p.nodes.map (·.site.id)).Perm (List.range arena.size) := by
    rw [hcount, ← hnodes]
    exact hplaced.range_perm
  have hsub : ∀ e ∈ p.nodes, e.nodes.Sublist p.nodes := by
    intro e he
    rw [← hnodes] at he ⊢
    obtain ⟨root, hr, hroot⟩ := List.mem_flatMap.mp he
    exact (nodes_sublist hroot).trans (nodes_sublist_of_mem hr)
  have hparts : ∀ e ∈ p.nodes, e.parts ⊆ p.nodes := fun e he part hp =>
    (hsub e he).subset (nodes_subset_of_part hp part.self_mem_nodes)
  refine ⟨arena, hs.run, hcount, ⟨?_, arena.acyclic_of_held hheld hids hparts⟩,
    fun e he => ⟨hheld e he, ?_⟩, fun globals => ?_⟩
  · have hlist := (Arena.toList_perm hheld hids).flatMap_right Node.children
    rw [List.flatMap_map] at hlist
    simp only [children_node] at hlist
    have howned := @roots_references_of_each p.roots fun e _ => references_perm e
    rw [hnodes] at howned
    exact ((hlist.append_left _).trans howned).trans hids
  · have hlen := hids.length_eq
    rw [List.length_map, List.length_range] at hlen
    exact Arena.read?_eq_some (fun x hx => hheld x ((hsub e he).subset hx))
      (hlen ▸ (hsub e he).length_le)
  · obtain ⟨hresult, honce, hall⟩ := Resolver.walkStmts_covers p.body (p.resolver globals)
    refine ⟨hresult, honce.trans hids.subperm, fun hok => (hall ?_).trans hids⟩
    rw [resolve] at hok
    change (Resolver.resolveStmts p.body (p.resolver globals) >>= _).isOk at hok
    cases hr : Resolver.resolveStmts p.body (p.resolver globals) with
    | ok r => rfl
    | error fault =>
      rw [hr] at hok
      cases hok

/-- Two assignments, one the value of the other: `{do row.total = n = 1}`. -/
def chainedAssignment : TemplateStream where
  items := [.group 0]
  groups := #[⟨[⟨.opening, "\x7b", ⟨0, 1⟩, none⟩, ⟨.keyword .run, "do", ⟨1, 3⟩, none⟩,
    ⟨.identifier, "row", ⟨4, 7⟩, none⟩, ⟨.dot, ".", ⟨7, 8⟩, none⟩,
    ⟨.identifier, "total", ⟨8, 13⟩, none⟩, ⟨.equal, "=", ⟨14, 15⟩, none⟩,
    ⟨.identifier, "n", ⟨16, 17⟩, none⟩, ⟨.equal, "=", ⟨18, 19⟩, none⟩,
    ⟨.number, "1", ⟨20, 21⟩, some (.int 1)⟩, ⟨.closing, "\x7d", ⟨21, 22⟩, none⟩], .run,
    ⟨0, 22⟩, .auto, .both, false, none⟩]

/-- Both assignments refer to nodes behind them. -/
theorem parseProgram_forest_chainedAssignment :
    ∃ (p : Program) (arena : Arena), parseProgram chainedAssignment = .ok p ∧
      p.nodeCount < 4294967296 ∧ p.store? = some ([1], arena) ∧ arena.Forest [1] ∧
      arena.map Node.children = #[[], [0, 2], [3], []] := by
  have hrun : ((parseProgram chainedAssignment).toOption.bind fun p => p.store?.map fun stored =>
      (p.nodeCount, stored.1, stored.2.map Node.children)) =
      some (4, [1], #[[], [0, 2], [3], []]) := by
    decide +kernel
  obtain ⟨p, hp, hstore⟩ := Option.bind_eq_some_iff.mp hrun
  obtain ⟨⟨ids, arena⟩, hstore, heq⟩ := Option.map_eq_some_iff.mp hstore
  obtain ⟨hcount, heq⟩ := Prod.mk.inj heq
  obtain ⟨rfl, hchildren⟩ := Prod.mk.inj heq
  have hparse := ok_of_toOption hp
  have hsize : p.nodeCount < 4294967296 := by
    rw [show p.nodeCount = 4 from hcount]
    decide
  obtain ⟨arena', hstore', -, hforest, -⟩ := parseProgram_forest hparse hsize
  obtain ⟨hids, rfl⟩ := Prod.mk.inj (Option.some.inj (hstore.symm.trans hstore'))
  exact ⟨p, arena, hparse, hsize, hstore, hids ▸ hforest, hchildren⟩

end DocTemplate
