import DocTemplate.Program.Arena
import DocTemplate.Proofs.Program.Numbering

namespace DocTemplate

open DocTemplate.Expr

namespace Expr

theorem self_mem_nodes (e : Expr) : e ∈ e.nodes := by
  rw [nodes_eq]
  exact List.mem_cons_self

theorem nodes_sublist_of_mem {es : List Expr} {e : Expr} (h : e ∈ es) :
    e.nodes.Sublist (es.flatMap nodes) := by
  rw [List.flatMap_def]
  exact List.sublist_flatten_of_mem (List.mem_map_of_mem h)

theorem nodes_subset_of_part {e part : Expr} (h : part ∈ e.parts) : part.nodes ⊆ e.nodes := by
  rw [nodes_eq e]
  exact List.subset_cons_of_subset _ (nodes_sublist_of_mem h).subset

theorem nodes_length_lt {e part : Expr} (h : part ∈ e.parts) :
    part.nodes.length < e.nodes.length := by
  rw [nodes_eq e, List.length_cons, Nat.lt_succ_iff]
  exact (nodes_sublist_of_mem h).length_le

/-- What holds for an expression when it holds for its operands holds for all. -/
theorem parts_induction {P : Expr → Prop} (h : ∀ e, (∀ part ∈ e.parts, P part) → P e) (e : Expr) :
    P e :=
  h e fun part _ => parts_induction h part
termination_by e.nodes.length
decreasing_by exact nodes_length_lt ‹_›

theorem nodes_sublist {e node : Expr} (h : node ∈ e.nodes) : node.nodes.Sublist e.nodes := by
  induction e using parts_induction with
  | h e ih =>
    rw [nodes_eq, List.mem_cons] at h
    rcases h with rfl | h
    · exact .refl _
    · obtain ⟨part, hp, hn⟩ := List.mem_flatMap.mp h
      rw [nodes_eq e]
      exact ((ih part hp hn).trans (nodes_sublist_of_mem hp)).cons _

def node : Expr → Node
  | .constant site value => ⟨.constant value, site.span⟩
  | .name site token => ⟨.name token, site.span⟩
  | assign site token value => ⟨.assign token value.site.id, site.span⟩
  | unary site op token operand => ⟨.unary op token operand.site.id, site.span⟩
  | binary site op token left right => ⟨.binary op token left.site.id right.site.id, site.span⟩
  | group site inner => ⟨.group inner.site.id, site.span⟩
  | call site callee paren args =>
    ⟨.call callee.site.id paren (args.map (·.site.id)), site.span⟩
  | get site object token optional => ⟨.get object.site.id token optional, site.span⟩
  | set site object token value => ⟨.set object.site.id token value.site.id, site.span⟩
  | choose site branches otherwise =>
    ⟨.choose (branches.map fun b => (b.1.site.id, b.2.site.id)) (otherwise.map (·.site.id)),
      site.span⟩
  | lambda site params body => ⟨.lambda params body.site.id, site.span⟩
  | list site items => ⟨.list (items.map (·.site.id)), site.span⟩

@[simp] theorem span_node (e : Expr) : e.node.span = e.span := by
  cases e <;> rfl

theorem children_node (e : Expr) : e.node.children = e.parts.map (·.site.id) := by
  cases e with
  | choose site branches otherwise =>
    simp only [node, Node.children, parts, List.map_append, List.map_flatMap, List.flatMap_map,
      Option.toList_map]
    rfl
  | _ => rfl

end Expr

namespace Arena

/-- Expressions are stored behind what is there, with their numbers as places. -/
structure Stores (a : Arena) (es : List Expr) (a' : Arena) : Prop where
  run : storeAll? es a = some (es.map (·.site.id), a')
  le : a.size ≤ a'.size
  kept : ∀ i < a.size, a'[i]? = a[i]?
  behind : ∀ e ∈ es.flatMap nodes, a.size ≤ e.site.id
  held : ∀ e ∈ es.flatMap nodes, a'[e.site.id]? = some e.node

variable {a a₁ a' : Arena} {e object value : Expr} {es es' : List Expr} {token : Token}

theorem storeAll?_cons_iff :
    storeAll? (e :: es) a = some ((e :: es).map (·.site.id), a') ↔
      ∃ a₁, store? e a = some (e.site.id, a₁) ∧
        storeAll? es a₁ = some (es.map (·.site.id), a') := by
  rw [storeAll?]
  constructor
  · intro h
    obtain ⟨⟨i, a₁⟩, hi, h⟩ := Option.bind_eq_some_iff.mp h
    obtain ⟨⟨is, a₂⟩, his, h⟩ := Option.bind_eq_some_iff.mp h
    obtain ⟨he, rfl⟩ := Prod.mk.inj (Option.some.inj h)
    obtain ⟨rfl, rfl⟩ := List.cons.inj he
    exact ⟨a₁, hi, his⟩
  · rintro ⟨a₁, hi, his⟩
    simp [hi, his]

theorem storeAll?_nil_iff :
    storeAll? [] a = some (([] : List Expr).map (·.site.id), a') ↔ a = a' := by
  rw [storeAll?_nil]
  simp

theorem storeAll?_append_iff :
    storeAll? (es ++ es') a = some ((es ++ es').map (·.site.id), a') ↔
      ∃ a₁, storeAll? es a = some (es.map (·.site.id), a₁) ∧
        storeAll? es' a₁ = some (es'.map (·.site.id), a') := by
  induction es generalizing a with
  | nil =>
    simp only [storeAll?_nil_iff]
    exact ⟨fun h => ⟨a, rfl, h⟩, fun ⟨_, rfl, h⟩ => h⟩
  | cons e es ih =>
    rw [List.cons_append, storeAll?_cons_iff]
    constructor
    · rintro ⟨a₁, he, h⟩
      obtain ⟨a₂, hes, h⟩ := ih.mp h
      exact ⟨a₂, storeAll?_cons_iff.mpr ⟨a₁, he, hes⟩, h⟩
    · rintro ⟨a₂, h, hes'⟩
      obtain ⟨a₁, he, hes⟩ := storeAll?_cons_iff.mp h
      exact ⟨a₁, he, ih.mpr ⟨a₂, hes, hes'⟩⟩

theorem storeAll?_single_iff :
    storeAll? [e] a = some ([e.site.id], a') ↔ store? e a = some (e.site.id, a') := by
  have h := @storeAll?_cons_iff a a' e []
  simpa [storeAll?_nil] using h

theorem Stores.append (h : a.Stores es a₁) (h' : a₁.Stores es' a') : a.Stores (es ++ es') a' where
  run := storeAll?_append_iff.mpr ⟨a₁, h.run, h'.run⟩
  le := Nat.le_trans h.le h'.le
  kept i hi := (h'.kept i (Nat.lt_of_lt_of_le hi h.le)).trans (h.kept i hi)
  behind e he := by
    rw [List.flatMap_append, List.mem_append] at he
    rcases he with he | he
    · exact h.behind e he
    · exact Nat.le_trans h.le (h'.behind e he)
  held e he := by
    rw [List.flatMap_append, List.mem_append] at he
    rcases he with he | he
    · have hheld := h.held e he
      exact (h'.kept _ (Array.getElem?_eq_some_iff.mp hheld).1).trans hheld
    · exact h'.held e he

theorem storeBranches?_of_all {branches : List (Expr × Expr)}
    (h : storeAll? (branches.flatMap fun b => [b.1, b.2]) a =
      some ((branches.flatMap fun b => [b.1, b.2]).map (·.site.id), a')) :
    storeBranches? branches a = some (branches.map fun b => (b.1.site.id, b.2.site.id), a') := by
  induction branches generalizing a with
  | nil =>
    obtain rfl := storeAll?_nil_iff.mp h
    exact storeBranches?_nil a
  | cons branch branches ih =>
    obtain ⟨a₁, h₁, h⟩ := storeAll?_cons_iff.mp h
    obtain ⟨a₂, h₂, h⟩ := storeAll?_cons_iff.mp h
    rw [storeBranches?]
    simp [h₁, h₂, ih h]

theorem storeOptional?_of_all {e : Option Expr}
    (h : storeAll? e.toList a = some (e.toList.map (·.site.id), a')) :
    storeOptional? e a = some (e.map (·.site.id), a') := by
  cases e with
  | none =>
    obtain rfl := storeAll?_nil_iff.mp h
    exact storeOptional?_none a
  | some e =>
    rw [storeOptional?]
    simp [storeAll?_single_iff.mp h]

theorem store?_node (he : e.Fresh) (hsize : a₁.size < 4294967296)
    (h : storeAll? e.parts a = some (e.parts.map (·.site.id), a₁)) :
    store? e a = some (a₁.size, a₁.push e.node) := by
  have hmin : min a₁.size 4294967295 = a₁.size := by omega
  cases e with
  | constant site value =>
    obtain rfl := storeAll?_nil_iff.mp h
    rw [store?_constant, alloc, hmin]
    rfl
  | name site token =>
    obtain rfl := storeAll?_nil_iff.mp h
    rw [store?_name, alloc, hmin]
    rfl
  | assign site token value => cases he
  | unary site op token operand =>
    rw [store?, storeAll?_single_iff.mp h]
    simp [alloc, hmin, node]
  | binary site op token left right =>
    obtain ⟨a₂, hl, h⟩ := storeAll?_cons_iff.mp h
    rw [store?, hl]
    simp [storeAll?_single_iff.mp h, alloc, hmin, node]
  | group site inner =>
    rw [store?, storeAll?_single_iff.mp h]
    simp [alloc, hmin, node]
  | call site callee paren args =>
    obtain ⟨a₂, hc, h⟩ := storeAll?_cons_iff.mp h
    rw [store?, hc]
    simp [h, alloc, hmin, node]
  | get site object token optional =>
    rw [store?, storeAll?_single_iff.mp h]
    simp [alloc, hmin, node]
  | set site object token value => cases he
  | choose site branches otherwise =>
    obtain ⟨a₂, hb, ho⟩ := storeAll?_append_iff.mp h
    rw [store?, storeBranches?_of_all hb]
    simp [storeOptional?_of_all ho, alloc, hmin, node]
  | lambda site params body =>
    rw [store?, storeAll?_single_iff.mp h]
    simp [alloc, hmin, node]
  | list site items =>
    rw [parts] at h
    rw [store?, h]
    simp [alloc, hmin, node]

theorem Stores.node (he : e.Fresh) (hid : e.site.id = a₁.size) (hsize : a₁.size < 4294967296)
    (h : a.Stores e.parts a₁) : a.Stores [e] (a₁.push e.node) where
  run := by
    refine storeAll?_single_iff.mpr ?_
    rw [hid]
    exact store?_node he hsize h.run
  le := by
    rw [Array.size_push]
    exact Nat.le_succ_of_le h.le
  kept i hi := by
    rw [Array.getElem?_push, if_neg (Nat.ne_of_lt (Nat.lt_of_lt_of_le hi h.le))]
    exact h.kept i hi
  behind e' he' := by
    rw [List.flatMap_singleton, nodes_eq, List.mem_cons] at he'
    rcases he' with rfl | he'
    · exact hid ▸ h.le
    · exact h.behind e' he'
  held e' he' := by
    rw [List.flatMap_singleton, nodes_eq, List.mem_cons] at he'
    rcases he' with rfl | he'
    · rw [hid, Array.getElem?_push_size]
    · have hheld := h.held e' he'
      have hlt := (Array.getElem?_eq_some_iff.mp hheld).1
      rw [Array.getElem?_push, if_neg (Nat.ne_of_lt hlt)]
      exact hheld

theorem Stores.held_single (h : a.Stores [e] a') : a'[e.site.id]? = some e.node :=
  h.held e (by rw [List.flatMap_singleton]; exact e.self_mem_nodes)

theorem store?_assigned {target : Expr} (made : target.assignTo? value = some e)
    (fresh : target.Fresh) (hid : target.site.id = a₁.size) (hsize : a₁.size < 4294967296)
    (hparts : storeAll? target.parts a = some (target.parts.map (·.site.id), a₁))
    (hvalue : store? value (a₁.push target.node) = some (value.site.id, a'))
    (htarget : a'[target.site.id]? = some target.node)
    (hheld : a'[value.site.id]? = some value.node) :
    store? e a = some (target.site.id, a'.setIfInBounds target.site.id e.node) := by
  have hmin : min a₁.size 4294967295 = a₁.size := by omega
  cases target with
  | name site token =>
    obtain rfl := Option.some.inj made
    obtain rfl := storeAll?_nil_iff.mp hparts
    have hs : site.span = token.span := fresh
    have hv : store? value (a.push ⟨.name token, token.span⟩) = some (value.site.id, a') :=
      hs ▸ hvalue
    have hi : site.id = a.size := hid
    have hn : a'[a.size]? = some ⟨.name token, site.span⟩ := hi ▸ htarget
    have hset : (Expr.assign ⟨site.id, site.span.merge value.span⟩ token value).node =
        ⟨.assign token value.site.id, site.span.merge value.span⟩ := rfl
    show store? (.assign _ token value) a = some (site.id,
      a'.setIfInBounds site.id (Expr.assign ⟨site.id, site.span.merge value.span⟩ token value).node)
    rw [store?, hset]
    simp [alloc, hmin, hv, assign?, hn, hheld, hi]
  | get site object token optional =>
    cases optional with
    | true => cases made
    | false =>
      obtain rfl := Option.some.inj made
      have hs : site.span = object.span.merge token.span := fresh
      have hv : store? value (a₁.push ⟨.get object.site.id token false,
          object.span.merge token.span⟩) = some (value.site.id, a') := hs ▸ hvalue
      have hi : site.id = a₁.size := hid
      have hn : a'[a₁.size]? = some ⟨.get object.site.id token false, site.span⟩ := hi ▸ htarget
      have hset :
          (Expr.set ⟨site.id, site.span.merge value.span⟩ object token value).node =
            ⟨.set object.site.id token value.site.id, site.span.merge value.span⟩ := rfl
      show store? (.set _ object token value) a = some (site.id, a'.setIfInBounds site.id
        (Expr.set ⟨site.id, site.span.merge value.span⟩ object token value).node)
      rw [store?, storeAll?_single_iff.mp hparts, hset]
      simp [alloc, hmin, hv, assign?, hn, hheld, hi]
  | _ => cases made

theorem Stores.assign {target : Expr} (made : target.assignTo? value = some e)
    (fresh : target.Fresh) (hid : target.site.id = a₁.size) (hsize : a₁.size < 4294967296)
    (hp : a.Stores target.parts a₁) (hv : Stores (a₁.push target.node) [value] a')
    (hbelow : ∀ part ∈ target.parts.flatMap nodes, part.site.id < target.site.id) :
    a.Stores [e] (a'.setIfInBounds target.site.id e.node) := by
  obtain ⟨hsite, hparts, -⟩ := assignTo?_eq_some made
  have hide : e.site.id = target.site.id := by rw [hsite]
  have hlast : (a₁.push target.node).size = target.site.id + 1 := by rw [Array.size_push, hid]
  have hall := (hp.node fresh hid hsize).append hv
  have hle := hv.le
  have hle' := hp.le
  have htarget : a'[target.site.id]? = some target.node :=
    hall.held target (by simp [target.self_mem_nodes])
  -- besides itself, an assignment has the nodes of its target's operands and of its value
  have hcases {x : Expr} (hx : x ∈ [e].flatMap nodes) :
      x = e ∨ x ∈ target.parts.flatMap nodes ∨ x ∈ value.nodes := by
    rw [List.flatMap_singleton, nodes_eq, hparts, List.flatMap_append, List.flatMap_singleton] at hx
    simpa using hx
  have htargets {x : Expr} (hx : x ∈ target.parts.flatMap nodes ∨ x ∈ value.nodes) :
      x ∈ [target, value].flatMap nodes := by
    rw [List.flatMap_cons, nodes_eq target, List.flatMap_singleton]
    rcases hx with hx | hx
    · exact List.mem_append_left _ (List.mem_cons_of_mem _ hx)
    · exact List.mem_append_right _ hx
  constructor
  · refine storeAll?_single_iff.mpr ?_
    rw [hide]
    exact store?_assigned made fresh hid hsize hp.run (storeAll?_single_iff.mp hv.run) htarget
      hv.held_single
  · rw [Array.size_setIfInBounds]
    exact hall.le
  · intro i hi
    rw [Array.getElem?_setIfInBounds_ne (by omega)]
    exact hall.kept i hi
  · intro x hx
    rcases hcases hx with rfl | hx
    · omega
    · exact hall.behind x (htargets hx)
  · intro x hx
    rcases hcases hx with rfl | hx
    · rw [hide, Array.getElem?_setIfInBounds_self_of_lt (by omega)]
    · have hne : target.site.id ≠ x.site.id := by
        rcases hx with hx | hx
        · exact (Nat.ne_of_lt (hbelow x hx)).symm
        · have hb := hv.behind x (by rwa [List.flatMap_singleton])
          omega
      rw [Array.getElem?_setIfInBounds_ne hne]
      exact hall.held x (htargets hx)

end Arena

/-- What parsing numbers is stored behind what is there, each node at its number. -/
theorem Consecutive.stored {lo hi : Nat} {es : List Expr} (h : Consecutive lo es hi)
    (hhi : hi ≤ 4294967296) (a : Arena) (ha : a.size = lo) :
    ∃ a', a.Stores es a' ∧ a'.size = hi := by
  induction h generalizing a with
  | nil n =>
    exact ⟨a, ⟨Arena.storeAll?_nil_iff.mpr rfl, Nat.le_refl _, fun _ _ => rfl, nofun, nofun⟩, ha⟩
  | @node lo hi e es fresh parts rest ihp ih =>
    have hle := rest.numbered.le
    obtain ⟨a₁, hs, h₁⟩ := ihp (by omega) a ha
    obtain ⟨a₂, hr, h₂⟩ := ih hhi (a₁.push e.node) (by rw [Array.size_push, h₁])
    exact ⟨a₂, (hs.node fresh h₁.symm (by omega)).append hr, h₂⟩
  | @assign lo mid hi target value e es fresh made parts behind rest ihp ihb ih =>
    have hle := rest.numbered.le
    have hle' := behind.numbered.le
    obtain ⟨a₀, hs₀, h₀⟩ := ihp (by omega) a ha
    obtain ⟨a₁, hs₁, h₁⟩ := ihb (by omega) (a₀.push target.node) (by rw [Array.size_push, h₀])
    have hbelow := fun x hx => (parts.numbered.bounds x hx).2
    have hs := hs₀.assign made fresh h₀.symm (by omega) hs₁ hbelow
    obtain ⟨a₂, hr, h₂⟩ := ih hhi (a₁.setIfInBounds target.site.id e.node)
      (by rw [Array.size_setIfInBounds, h₁])
    exact ⟨a₂, hs.append hr, h₂⟩

end DocTemplate
