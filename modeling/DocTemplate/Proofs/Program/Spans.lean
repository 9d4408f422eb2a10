import DocTemplate.Proofs.Expr.Layout
import DocTemplate.Proofs.Program.Storing

namespace DocTemplate

open DocTemplate.Expr

namespace Piece

@[simp] theorem filterMap_signs (marks : List Mark) (ps : List Piece) :
    (signs marks :: ps).filterMap part? = ps.filterMap part? := rfl

@[simp] theorem filterMap_part (e : Expr) (ps : List Piece) :
    (part e :: ps).filterMap part? = e :: ps.filterMap part? := rfl

@[simp] theorem filterMap_ofItems (es : List Expr) : (ofItems es).filterMap part? = es := by
  induction es with
  | nil => rfl
  | cons e es ih =>
    cases es with
    | nil => rfl
    | cons e' es => exact congrArg (e :: ·) ih

@[simp] theorem filterMap_ofBranches (branches : List (Expr × Expr)) :
    (ofBranches branches).filterMap part? = branches.flatMap fun b => [b.1, b.2] := by
  induction branches with
  | nil => rfl
  | cons branch branches ih => exact congrArg ([branch.1, branch.2] ++ ·) ih

@[simp] theorem filterMap_ofOptional (e : Option Expr) :
    (ofOptional e).filterMap part? = e.toList := by
  cases e <;> rfl

end Piece

theorem Expr.filterMap_pieces (e : Expr) : e.pieces.filterMap Piece.part? = e.parts := by
  cases e <;> simp [pieces, parts, Piece.sign]

namespace LaidOut

variable {ps : List Piece} {ts : List Token} {e : Expr}

theorem part_mem (h : LaidOut ps ts) (he : e ∈ ps.filterMap Piece.part?) :
    ∃ us, us <:+: ts ∧ Laid e us := by
  induction ps generalizing ts with
  | nil => cases he
  | cons p ps ih =>
    cases h with
    | @signs marks _ us ts spelled tail =>
      obtain ⟨vs, hv, hl⟩ := ih tail he
      exact ⟨vs, hv.trans (List.suffix_append us ts).isInfix, hl⟩
    | @part e' _ us ts laid tail =>
      rcases List.mem_cons.mp he with rfl | he
      · exact ⟨us, (List.prefix_append us ts).isInfix, laid⟩
      · obtain ⟨vs, hv, hl⟩ := ih tail he
        exact ⟨vs, hv.trans (List.suffix_append us ts).isInfix, hl⟩

theorem pairwise (h : LaidOut ps ts) (ho : InOrder ts) :
    (ps.filterMap Piece.part?).Pairwise fun a b => a.span.stop ≤ b.span.start := by
  induction ps generalizing ts with
  | nil => exact .nil
  | cons p ps ih =>
    cases h with
    | @signs marks _ us ts spelled tail =>
      exact ih tail (ho.sublist (List.sublist_append_right us ts))
    | @part e _ us ts laid tail =>
      refine List.pairwise_cons.mpr ⟨fun b hb => ?_, ih tail
        (ho.sublist (List.sublist_append_right us ts))⟩
      obtain ⟨vs, hv, hl⟩ := tail.part_mem hb
      exact laid.hull.before hl.hull hv ho

end LaidOut

/-- The span of an expression holds those of its operands, each of which ends before the next one
starts. -/
structure Expr.SpansParts (e : Expr) : Prop where
  within : ∀ part ∈ e.parts, e.span.start ≤ part.span.start ∧ part.span.stop ≤ e.span.stop
  apart : e.parts.Pairwise fun a b => a.span.stop ≤ b.span.start

namespace Laid

variable {e x : Expr} {ts : List Token}

theorem part_mem (h : Laid e ts) (hx : x ∈ e.parts) : ∃ us, us <:+: ts ∧ Laid x us :=
  h.pieces.part_mem (e.filterMap_pieces ▸ hx)

/-- Each node is read from a range of the tokens of the whole. -/
theorem node_mem (h : Laid e ts) (hx : x ∈ e.nodes) : ∃ us, us <:+: ts ∧ Laid x us := by
  induction e using parts_induction generalizing ts with
  | h e ih =>
    rw [nodes_eq, List.mem_cons] at hx
    rcases hx with rfl | hx
    · exact ⟨ts, List.infix_refl ts, h⟩
    · obtain ⟨part, hp, hx⟩ := List.mem_flatMap.mp hx
      obtain ⟨us, hu, hl⟩ := h.part_mem hp
      obtain ⟨vs, hv, hl⟩ := ih part hp hl hx
      exact ⟨vs, hv.trans hu, hl⟩

theorem spansParts (h : Laid e ts) (ho : InOrder ts) : e.SpansParts where
  within part hp := by
    obtain ⟨us, hu, hl⟩ := h.part_mem hp
    exact h.hull.within hl.hull hu ho
  apart := e.filterMap_pieces ▸ h.pieces.pairwise ho

end Laid

theorem Consecutive.exists_node {lo hi i : Nat} {es : List Expr} (h : Consecutive lo es hi)
    (hlo : lo ≤ i) (hhi : i < hi) : ∃ x ∈ es.flatMap nodes, x.site.id = i := by
  induction h with
  | nil n => omega
  | @node lo hi e es fresh parts rest ihp ih =>
    rw [List.flatMap_cons, nodes_eq]
    rcases Nat.lt_trichotomy i e.site.id with hlt | rfl | hlt
    · obtain ⟨x, hx, rfl⟩ := ihp hlo hlt
      exact ⟨x, by simp [hx], rfl⟩
    · exact ⟨e, by simp, rfl⟩
    · obtain ⟨x, hx, rfl⟩ := ih hlt hhi
      exact ⟨x, by simp [hx], rfl⟩
  | @assign lo mid hi target value e es fresh made parts behind rest ihp ihb ih =>
    obtain ⟨hsite, hparts, -⟩ := assignTo?_eq_some made
    rw [List.flatMap_cons, nodes_eq, hparts, List.flatMap_append]
    rcases Nat.lt_trichotomy i target.site.id with hlt | rfl | hlt
    · obtain ⟨x, hx, rfl⟩ := ihp hlo hlt
      exact ⟨x, by simp [hx], rfl⟩
    · exact ⟨e, by simp, by rw [hsite]⟩
    · rcases Nat.lt_or_ge i mid with hmid | hmid
      · obtain ⟨x, hx, rfl⟩ := ihb hlt hmid
        rw [List.flatMap_singleton] at hx
        exact ⟨x, by simp [hx], rfl⟩
      · obtain ⟨x, hx, rfl⟩ := ih hmid hhi
        exact ⟨x, by simp [hx], rfl⟩

structure Arena.HoldsFrom (a : Arena) (lo : Nat) (e : Expr) : Prop where
  held : ∀ x ∈ e.nodes, ∃ n, a[x.site.id]? = some n ∧ n.span = x.span ∧
    n.children = x.parts.map (·.site.id)
  all : ∀ i, lo ≤ i → i < a.size → ∃ x ∈ e.nodes, x.site.id = i

theorem Consecutive.holdsFrom {lo hi : Nat} {e : Expr} (h : Consecutive lo [e] hi)
    (hhi : hi ≤ 4294967296) (a : Arena) (ha : a.size = lo) :
    ∃ a', a.store? e = some (e.site.id, a') ∧ a'.size = hi ∧ a'.HoldsFrom lo e := by
  obtain ⟨a', hs, hsize⟩ := h.stored hhi a ha
  refine ⟨a', Arena.storeAll?_single_iff.mp hs.run, hsize, fun x hx => ?_, fun i hlo hlt => ?_⟩
  · exact ⟨x.node, hs.held x (by rwa [List.flatMap_singleton]), x.span_node, x.children_node⟩
  · obtain ⟨x, hx, rfl⟩ := h.exists_node hlo (hsize ▸ hlt)
    exact ⟨x, by rwa [List.flatMap_singleton] at hx, rfl⟩

/-- Where the tokens of a group are in order, the parser reads an expression from some of them, and
every node of it from a range of these, whose first start and last end are the span of the node. The
spans of its operands are in it and apart from each other. The nodes that the arena gets for the
expression have these spans. -/
theorem parse_expr_hulls {tokens : List Token} (ordered : InOrder tokens) (taken nextId : Nat)
    {e : Expr} {s' : ParseState}
    (h : ({ ParseState.enter tokens nextId with rest := tokens.drop taken } : ParseState).expr =
      .ok (e, s')) :
    ∃ read, tokens.drop taken = read ++ s'.rest ∧ Laid e read ∧
      (∀ x ∈ e.nodes, (∃ ts, ts <:+: read ∧ Laid x ts ∧ x.span.IsHull ts) ∧ x.SpansParts) ∧
      ∀ arena : Arena, arena.size = nextId → s'.nextId ≤ 4294967296 →
        ∃ arena', arena.store? e = some (e.site.id, arena') ∧ arena'.size = s'.nextId ∧
          arena'.HoldsFrom nextId e := by
  have hrest : InOrder (tokens.drop taken) := ordered.sublist (List.drop_sublist taken tokens)
  obtain ⟨read, hl⟩ := ParseState.expr_lays _ ⟨⟨rfl, rfl⟩, hrest⟩ e s' h
  have hread : InOrder read := hl.inOrder ⟨⟨rfl, rfl⟩, hrest⟩
  refine ⟨read, hl.rest, hl.laid.laid, fun x hx => ?_, fun arena hsize hcount => ?_⟩
  · obtain ⟨ts, ht, hx⟩ := hl.laid.laid.node_mem hx
    exact ⟨⟨ts, ht, hx, hx.hull⟩, hx.spansParts (hread.sublist ht.sublist)⟩
  · have hbuilt := ParseState.expr_builds _ ⟨rfl, rfl⟩ e s' h
    exact hbuilt.consecutive.holdsFrom hcount arena hsize

/-- The tokens of `{do row.total = [a - b, f((x) -> x)]}`. -/
def assignedAccess : List Token :=
  [⟨.opening, "\x7b", ⟨0, 1⟩, none⟩, ⟨.keyword .run, "do", ⟨1, 3⟩, none⟩,
    ⟨.identifier, "row", ⟨4, 7⟩, none⟩, ⟨.dot, ".", ⟨7, 8⟩, none⟩,
    ⟨.identifier, "total", ⟨8, 13⟩, none⟩, ⟨.equal, "=", ⟨14, 15⟩, none⟩,
    ⟨.leftBracket, "[", ⟨16, 17⟩, none⟩, ⟨.identifier, "a", ⟨17, 18⟩, none⟩,
    ⟨.minus, "-", ⟨19, 20⟩, none⟩, ⟨.identifier, "b", ⟨21, 22⟩, none⟩,
    ⟨.comma, ",", ⟨22, 23⟩, none⟩, ⟨.identifier, "f", ⟨24, 25⟩, none⟩,
    ⟨.leftParen, "(", ⟨25, 26⟩, none⟩, ⟨.leftParen, "(", ⟨26, 27⟩, none⟩,
    ⟨.identifier, "x", ⟨27, 28⟩, none⟩, ⟨.rightParen, ")", ⟨28, 29⟩, none⟩,
    ⟨.arrow, "->", ⟨30, 32⟩, none⟩, ⟨.identifier, "x", ⟨33, 34⟩, none⟩,
    ⟨.rightParen, ")", ⟨34, 35⟩, none⟩, ⟨.rightBracket, "]", ⟨35, 36⟩, none⟩,
    ⟨.closing, "\x7d", ⟨36, 37⟩, none⟩]

/-- The assignment has taken the place 1 of the access, with a span up to the end of the list. -/
theorem parse_expr_hulls_assignedAccess :
    InOrder assignedAccess ∧ ∃ e s' arena,
      ({ ParseState.enter assignedAccess 0 with rest := assignedAccess.drop 2 } :
        ParseState).expr = .ok (e, s') ∧
      Laid e ((assignedAccess.drop 2).take 18) ∧
      Arena.store? e #[] = some (1, arena) ∧ arena.HoldsFrom 0 e ∧
      arena.map Node.span =
        #[⟨4, 7⟩, ⟨4, 36⟩, ⟨17, 18⟩, ⟨21, 22⟩, ⟨17, 22⟩, ⟨24, 25⟩, ⟨33, 34⟩, ⟨26, 34⟩, ⟨24, 35⟩,
          ⟨16, 36⟩] := by
  have ordered : InOrder assignedAccess := ⟨by decide, by decide⟩
  have hrun : (({ ParseState.enter assignedAccess 0 with rest := assignedAccess.drop 2 } :
      ParseState).expr.toOption.bind fun run => (Arena.store? run.1 #[]).map fun stored =>
        (run.2.rest.length, run.2.nextId, stored.1, stored.2.map Node.span)) =
      some (1, 10, 1,
        #[⟨4, 7⟩, ⟨4, 36⟩, ⟨17, 18⟩, ⟨21, 22⟩, ⟨17, 22⟩, ⟨24, 25⟩, ⟨33, 34⟩, ⟨26, 34⟩, ⟨24, 35⟩,
          ⟨16, 36⟩]) := by
    decide +kernel
  obtain ⟨⟨e, s'⟩, he, hstored⟩ := Option.bind_eq_some_iff.mp hrun
  obtain ⟨⟨place, arena⟩, hstore, heq⟩ := Option.map_eq_some_iff.mp hstored
  obtain ⟨(hlength : s'.rest.length = 1), heq⟩ := Prod.mk.inj heq
  obtain ⟨(hcount : s'.nextId = 10), heq⟩ := Prod.mk.inj heq
  obtain ⟨rfl, hspans⟩ := Prod.mk.inj heq
  have hparse := ok_of_toOption he
  obtain ⟨read, hread, hlaid, -, hheld⟩ := parse_expr_hulls ordered 2 0 hparse
  obtain ⟨arena', hstore', -, hholds⟩ := hheld #[] rfl (by rw [hcount]; decide)
  obtain ⟨-, rfl⟩ := Prod.mk.inj (Option.some.inj (hstore.symm.trans hstore'))
  have htaken : (assignedAccess.drop 2).take 18 = read := by
    have hall := congrArg List.length hread
    have hsize : (assignedAccess.drop 2).length = 19 := rfl
    rw [List.length_append] at hall
    rw [hread, List.take_left' (by omega)]
  exact ⟨ordered, e, s', arena, hparse, htaken ▸ hlaid, hstore, hholds, hspans⟩

end DocTemplate
