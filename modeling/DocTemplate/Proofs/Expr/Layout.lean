import DocTemplate.Proofs.Program.Building

namespace DocTemplate

open DocTemplate.Expr

structure InOrder (ts : List Token) : Prop where
  forwards : ∀ t ∈ ts, t.span.start ≤ t.span.stop
  apart : ts.Pairwise fun t u => t.span.stop ≤ u.span.start

/-- The span reaches from the start of the first token to the end of the last one. -/
def Span.IsHull (span : Span) (ts : List Token) : Prop :=
  ∃ first last, ts.head? = some first ∧ ts.getLast? = some last ∧
    span = ⟨first.span.start, last.span.stop⟩

section

variable {ts us vs : List Token} {t first last : Token} {a b : Span}

theorem InOrder.sublist (h : InOrder ts) (hs : us.Sublist ts) : InOrder us :=
  ⟨fun t ht => h.forwards t (hs.subset ht), h.apart.sublist hs⟩

theorem InOrder.first_le (h : InOrder ts) (hf : ts.head? = some first) (ht : t ∈ ts) :
    first.span.start ≤ t.span.start := by
  obtain ⟨rest, rfl⟩ := List.head?_eq_some_iff.mp hf
  rcases List.mem_cons.mp ht with rfl | ht
  · exact Nat.le_refl _
  · exact Nat.le_trans (h.forwards first List.mem_cons_self) (List.rel_of_pairwise_cons h.apart ht)

theorem InOrder.le_last (h : InOrder ts) (hl : ts.getLast? = some last) (ht : t ∈ ts) :
    t.span.stop ≤ last.span.stop := by
  obtain ⟨init, rfl⟩ := List.getLast?_eq_some_iff.mp hl
  rcases List.mem_append.mp ht with hi | hi
  · have hstart := (List.pairwise_append.mp h.apart).2.2 t hi last List.mem_cons_self
    exact Nat.le_trans hstart (h.forwards last (by simp))
  · obtain rfl := List.mem_singleton.mp hi
    exact Nat.le_refl _

namespace Span.IsHull

theorem single (t : Token) : t.span.IsHull [t] := ⟨t, t, rfl, rfl, rfl⟩

theorem within (ha : a.IsHull ts) (hb : b.IsHull us) (hs : us <:+: ts) (ho : InOrder ts) :
    a.start ≤ b.start ∧ b.stop ≤ a.stop := by
  obtain ⟨first, last, hf, hl, rfl⟩ := ha
  obtain ⟨first', last', hf', hl', rfl⟩ := hb
  exact ⟨ho.first_le hf (hs.subset (List.mem_of_head? hf')),
    ho.le_last hl (hs.subset (List.mem_of_getLast? hl'))⟩

theorem before (ha : a.IsHull us) (hb : b.IsHull vs) (hs : vs <:+: ts) (ho : InOrder (us ++ ts)) :
    a.stop ≤ b.start := by
  obtain ⟨first, last, hf, hl, rfl⟩ := ha
  obtain ⟨first', last', hf', hl', rfl⟩ := hb
  exact (List.pairwise_append.mp ho.apart).2.2 last (List.mem_of_getLast? hl) first'
    (hs.subset (List.mem_of_head? hf'))

theorem merge (ha : a.IsHull us) (hb : b.IsHull vs) (hu : us <+: ts) (hv : vs <:+ ts)
    (ho : InOrder ts) : (a.merge b).IsHull ts := by
  obtain ⟨first, last, hf, hl, rfl⟩ := ha
  obtain ⟨first', last', hf', hl', rfl⟩ := hb
  have hfirst : ts.head? = some first := by
    obtain ⟨rest, rfl⟩ := hu
    rw [List.head?_append, hf]
    rfl
  have hlast : ts.getLast? = some last' := by
    obtain ⟨init, rfl⟩ := hv
    rw [List.getLast?_append, hl']
    rfl
  have hstart := ho.first_le hfirst (hv.subset (List.mem_of_head? hf'))
  have hstop := ho.le_last hlast (hu.subset (List.mem_of_getLast? hl))
  refine ⟨first, last', hfirst, hlast, ?_⟩
  rw [Span.merge, Nat.min_eq_left hstart, Nat.max_eq_right hstop]

end Span.IsHull

end

inductive Piece where
  | signs (marks : List Mark)
  | part (e : Expr)

namespace Piece

def part? : Piece → Option Expr
  | signs _ => none
  | part e => some e

def sign (kind : TokenKind) : Piece := signs [.sign kind]

def ofItems (es : List Expr) : List Piece := (es.map part).intersperse (sign .comma)

def ofBranches (branches : List (Expr × Expr)) : List Piece :=
  branches.flatMap fun (condition, result) =>
    [sign (.keyword .upon), part condition, sign (.keyword .give), part result]

def ofOptional (e : Option Expr) : List Piece :=
  e.toList.flatMap fun e => [sign (.keyword .otherwise), part e]

end Piece

namespace Expr

/-- What a node is written with: its own signs and names, and its operands. -/
def pieces : Expr → List Piece
  | constant _ value => [.signs [.constant value]]
  | .name _ token => [.signs [token.nameMark]]
  | assign _ target value => [.signs [target.nameMark], .sign .equal, .part value]
  | unary _ _ token operand => [.sign token.kind, .part operand]
  | binary _ _ token left right => [.part left, .sign token.kind, .part right]
  | group _ inner => [.sign .leftParen, .part inner, .sign .rightParen]
  | call _ callee _ args =>
    .part callee :: .sign .leftParen :: Piece.ofItems args ++ [.sign .rightParen]
  | get _ object member optional =>
    [.part object, .sign (if optional then .dotQuestion else .dot), .signs [member.nameMark]]
  | set _ object member value =>
    [.part object, .sign .dot, .signs [member.nameMark], .sign .equal, .part value]
  | choose _ branches otherwise =>
    .sign (.keyword .choose) :: Piece.ofBranches branches ++ Piece.ofOptional otherwise ++
      [.sign (.keyword .finish)]
  | lambda _ params body => [.signs (parameterMarks params ++ [.sign .arrow]), .part body]
  | list _ items => .sign .leftBracket :: Piece.ofItems items ++ [.sign .rightBracket]

end Expr

mutual

/-- The tokens are what the expression is read from, and the span of each node in it is the hull of
the tokens that the node is read from. -/
inductive Laid : Expr → List Token → Prop
  | node {e : Expr} {ts : List Token} (hull : e.span.IsHull ts) (pieces : LaidOut e.pieces ts) :
    Laid e ts

inductive LaidOut : List Piece → List Token → Prop
  | nil : LaidOut [] []
  | signs {marks : List Mark} {ps : List Piece} {us ts : List Token} (spelled : Spelled us marks)
    (tail : LaidOut ps ts) : LaidOut (.signs marks :: ps) (us ++ ts)
  | part {e : Expr} {ps : List Piece} {us ts : List Token} (laid : Laid e us)
    (tail : LaidOut ps ts) : LaidOut (.part e :: ps) (us ++ ts)

end

namespace LaidOut

variable {ps qs : List Piece} {ts us : List Token} {e : Expr}

theorem append (h : LaidOut ps ts) (h' : LaidOut qs us) : LaidOut (ps ++ qs) (ts ++ us) := by
  induction ps generalizing ts with
  | nil =>
    cases h
    exact h'
  | cons p ps ih =>
    cases h with
    | signs spelled tail =>
      rw [List.append_assoc]
      exact .signs spelled (ih tail)
    | part laid tail =>
      rw [List.append_assoc]
      exact .part laid (ih tail)

theorem of_part (h : Laid e ts) : LaidOut [.part e] ts := List.append_nil ts ▸ .part h .nil

theorem of_signs {marks : List Mark} (h : Spelled ts marks) : LaidOut [.signs marks] ts :=
  List.append_nil ts ▸ .signs h .nil

theorem laid (h : LaidOut [.part e] ts) : Laid e ts := by
  cases h with
  | part laid tail =>
    cases tail
    rwa [List.append_nil]

end LaidOut

theorem Laid.hull {e : Expr} {ts : List Token} (h : Laid e ts) : e.span.IsHull ts := by
  cases h with
  | node hull pieces => exact hull

theorem Laid.pieces {e : Expr} {ts : List Token} (h : Laid e ts) : LaidOut e.pieces ts := by
  cases h with
  | node hull pieces => exact pieces

namespace ParseState

structure Ready (s : ParseState) : Prop where
  ended : s.Ended
  inOrder : InOrder s.rest

structure Lays (s s' : ParseState) (read : List Token) (ps : List Piece) : Prop where
  last : s'.last = s.last
  rest : s.rest = read ++ s'.rest
  laid : LaidOut ps read

variable {s s' s'' : ParseState} {read read' : List Token} {ps qs : List Piece} {kind : TokenKind}
  {t : Token} {e target value : Expr}

namespace Lays

theorem refl (s : ParseState) : s.Lays s [] [] := ⟨rfl, rfl, .nil⟩

theorem trans (h : s.Lays s' read ps) (h' : s'.Lays s'' read' qs) :
    s.Lays s'' (read ++ read') (ps ++ qs) where
  last := h'.last.trans h.last
  rest := by rw [h.rest, h'.rest, List.append_assoc]
  laid := h.laid.append h'.laid

theorem ready (h : s.Lays s' read ps) (hs : s.Ready) : s'.Ready where
  ended := by
    rw [Ended, h.last]
    exact hs.ended
  inOrder := hs.inOrder.sublist (h.rest ▸ List.sublist_append_right ..)

theorem inOrder (h : s.Lays s' read ps) (hs : s.Ready) : InOrder read :=
  hs.inOrder.sublist (h.rest ▸ List.sublist_append_left ..)

theorem hull (h : s.Lays s' read [.part e]) : e.span.IsHull read := h.laid.laid.hull

theorem complete (h : s.Lays s' read e.pieces) (hull : e.span.IsHull read) (nextId : Nat) :
    s.Lays { s' with nextId } read [.part e] :=
  ⟨h.last, h.rest, .of_part (.node hull h.laid)⟩

theorem complete_merge {a b : Span} {us vs : List Token} (h : s.Lays s' read e.pieces)
    (hs : s.Ready) (ha : a.IsHull us) (hb : b.IsHull vs) (hu : us <+: read) (hv : vs <:+ read)
    (hspan : e.span = a.merge b) (nextId : Nat) : s.Lays { s' with nextId } read [.part e] :=
  h.complete (hspan ▸ ha.merge hb hu hv (h.inOrder hs)) nextId

end Lays

theorem lays_current {m : Mark} (h : s.current ≠ s.last) (hm : s.current.Shows m) :
    s.Lays s.advance [s.current] [.signs [m]] := by
  rcases s.rest_cases with hr | hr
  · exact ⟨rfl, hr, .of_signs (.single hm)⟩
  · exact absurd hr h

theorem lays_sign (hs : s.Ready) (hk : s.kind = kind) (hne : kind ≠ .endOfGroup) :
    s.Lays s.advance [s.current] [.sign kind] :=
  lays_current (current_ne_last hs.ended (hk ▸ hne)) hk

theorem lays_member (hs : s.Ready) (hm : s.current.isMemberName) :
    s.Lays s.advance [s.current] [.signs [s.current.nameMark]] := by
  refine lays_current (fun h => ?_) ⟨rfl, rfl⟩
  rw [h, hs.ended.2] at hm
  cases hm

theorem lays_expect {cause : ParseCause} (hs : s.Ready) (hne : kind ≠ .endOfGroup)
    (h : s.expect kind cause = .ok (t, s')) : s.Lays s' [t] [.sign kind] := by
  unfold expect at h
  split at h
  · rename_i hk
    obtain ⟨rfl, rfl⟩ := Prod.mk.inj (Except.ok.inj h)
    exact lays_sign hs hk hne
  · cases h

theorem pieces_assignTo? (h : target.assignTo? value = some e) :
    e.pieces = target.pieces ++ [.sign .equal, .part value] := by
  cases target with
  | name site token =>
    obtain rfl := Option.some.inj h
    rfl
  | get site object token optional =>
    cases optional with
    | true => cases h
    | false =>
      obtain rfl := Option.some.inj h
      rfl
  | _ => cases h

end ParseState

open ParseState

def LaysFrom {α : Type} (pieces : α → List Piece) (s : ParseState)
    (result : Except ParseFault (α × ParseState)) : Prop :=
  s.Ready → ∀ a s', result = .ok (a, s') → ∃ read, s.Lays s' read (pieces a)

/-- That the parsers of expressions lay out what they give, with so much fuel. The last two start
with an operand that is laid out already. -/
structure ParsersLay (n : Nat) : Prop where
  expr : ∀ s, LaysFrom (fun e => [.part e]) s (parseExpr n s)
  binary : ∀ least s, LaysFrom (fun e => [.part e]) s (parseBinary n least s)
  unary : ∀ s, LaysFrom (fun e => [.part e]) s (parseUnary n s)
  primary : ∀ s, LaysFrom (fun e => [.part e]) s (parsePrimary n s)
  items : ∀ stop s, LaysFrom Piece.ofItems s (parseItems n stop s)
  someItems : ∀ s, LaysFrom Piece.ofItems s (parseSomeItems n s)
  branches : ∀ s, LaysFrom Piece.ofBranches s (parseBranches n s)
  otherwise : ∀ s, LaysFrom Piece.ofOptional s (parseOtherwise n s)
  operators : ∀ least (s₀ : ParseState) us left s e s', s₀.Ready → s₀.Lays s us [.part left] →
    parseOperators n least left s = .ok (e, s') → ∃ read, s₀.Lays s' read [.part e]
  accesses : ∀ (s₀ : ParseState) us e s e' s', s₀.Ready → s₀.Lays s us [.part e] →
    parsePostfix n e s = .ok (e', s') → ∃ read, s₀.Lays s' read [.part e']

namespace ParsersLay

variable {n : Nat}

theorem expr_succ (h : ParsersLay n) (s : ParseState) :
    LaysFrom (fun e => [.part e]) s (parseExpr (n + 1) s) := by
  intro hs e s' he
  rw [parseExpr] at he
  obtain ⟨⟨target, s₁⟩, ht, he⟩ := bind_eq_ok.mp he
  obtain ⟨us, hlt⟩ := h.binary 0 s hs target s₁ ht
  dsimp only at he
  split at he
  · rename_i hk
    obtain ⟨⟨value, s₂⟩, hv, he⟩ := bind_eq_ok.mp he
    have hequals := lays_sign (hlt.ready hs) hk (by decide)
    obtain ⟨vs, hlv⟩ := h.expr s₁.advance (hequals.ready (hlt.ready hs)) value s₂ hv
    dsimp only at he
    split at he
    · rename_i e' ha
      obtain ⟨rfl, rfl⟩ := Prod.mk.inj (Except.ok.inj he)
      have htarget : s.Lays s₁ us target.pieces := ⟨hlt.last, hlt.rest, hlt.laid.laid.pieces⟩
      have hall : s.Lays s₂ (us ++ ([s₁.current] ++ vs)) e'.pieces := by
        rw [pieces_assignTo? ha]
        exact htarget.trans (hequals.trans hlv)
      exact ⟨_, hall.complete_merge hs hlt.hull hlv.hull (List.prefix_append ..)
        ((List.suffix_append ..).trans (List.suffix_append ..))
        (congrArg Site.span (assignTo?_eq_some ha).1) _⟩
    · cases he
  · obtain ⟨rfl, rfl⟩ := Prod.mk.inj (Except.ok.inj he)
    exact ⟨us, hlt⟩

theorem operators_succ (h : ParsersLay n) (least : Nat) (s₀ : ParseState) (us : List Token)
    (left : Expr) (s : ParseState) (e : Expr) (s' : ParseState) (hs : s₀.Ready)
    (hl : s₀.Lays s us [.part left]) (he : parseOperators (n + 1) least left s = .ok (e, s')) :
    ∃ read, s₀.Lays s' read [.part e] := by
  rw [parseOperators] at he
  split at he
  · obtain ⟨rfl, rfl⟩ := Prod.mk.inj (Except.ok.inj he)
    exact ⟨us, hl⟩
  · rename_i op hop
    split at he
    · obtain ⟨rfl, rfl⟩ := Prod.mk.inj (Except.ok.inj he)
      exact ⟨us, hl⟩
    · obtain ⟨⟨right, s₁⟩, hr, he⟩ := bind_eq_ok.mp he
      have hsign := lays_sign (hl.ready hs) rfl (Operator.ofToken?_ne_end hop)
      obtain ⟨vs, hlr⟩ := h.binary _ s.advance (hsign.ready (hl.ready hs)) right s₁ hr
      have hall : s₀.Lays s₁ _ (Expr.binary ⟨s₁.nextId, left.span.merge right.span⟩ op s.current
        left right).pieces := hl.trans (hsign.trans hlr)
      have hnode := hall.complete_merge hs hl.hull hlr.hull (List.prefix_append ..)
        ((List.suffix_append ..).trans (List.suffix_append ..)) rfl (s₁.nextId + 1)
      exact h.operators least s₀ _ _ _ e s' hs hnode he

theorem unary_succ (h : ParsersLay n) (s : ParseState) :
    LaysFrom (fun e => [.part e]) s (parseUnary (n + 1) s) := by
  intro hs e s' he
  rw [parseUnary] at he
  split at he
  · rename_i op hop
    obtain ⟨⟨operand, s₁⟩, ho, he⟩ := bind_eq_ok.mp he
    obtain ⟨rfl, rfl⟩ := Prod.mk.inj (Except.ok.inj he)
    have hne : s.kind ≠ .endOfGroup := by
      intro hk
      rw [hk] at hop
      cases hop
    have hsign := lays_sign hs rfl hne
    obtain ⟨us, hlo⟩ := h.unary s.advance (hsign.ready hs) operand s₁ ho
    have hall : s.Lays s₁ _ (Expr.unary ⟨s₁.nextId, s.current.span.merge operand.span⟩ op
      s.current operand).pieces := hsign.trans hlo
    exact ⟨_, hall.complete_merge hs (.single _) hlo.hull (List.prefix_append ..)
      (List.suffix_append ..) rfl _⟩
  · obtain ⟨⟨e₁, s₁⟩, hp, he⟩ := bind_eq_ok.mp he
    obtain ⟨us, hl⟩ := h.primary s hs e₁ s₁ hp
    exact h.accesses s us e₁ s₁ e s' hs hl he

theorem member_succ (h : ParsersLay n) {s₀ s s' : ParseState} {us : List Token} {e e' : Expr}
    {optional : Bool} (hs : s₀.Ready) (hl : s₀.Lays s us [.part e])
    (hk : s.kind = if optional then .dotQuestion else .dot)
    (he : (if !s.advance.current.isMemberName then s.advance.fail .memberName
      else
        let (node, s₁) := s.advance.advance.number (e.span.merge s.advance.current.span)
          (.get · e s.advance.current optional)
        parsePostfix n node s₁) = .ok (e', s')) : ∃ read, s₀.Lays s' read [.part e'] := by
  split at he
  · cases he
  · rename_i hm
    have hne : (if optional then TokenKind.dotQuestion else .dot) ≠ .endOfGroup := by
      cases optional <;> decide
    have hdot := lays_sign (hl.ready hs) hk hne
    have hmember := lays_member (hdot.ready (hl.ready hs)) (by simpa using hm)
    have hall : s₀.Lays s.advance.advance _ (get ⟨s.advance.advance.nextId,
      e.span.merge s.advance.current.span⟩ e s.advance.current optional).pieces :=
      hl.trans (hdot.trans hmember)
    have hnode := hall.complete_merge hs hl.hull (.single _) (List.prefix_append ..)
      ((List.suffix_append ..).trans (List.suffix_append ..)) rfl (s.advance.advance.nextId + 1)
    exact h.accesses s₀ _ _ _ e' s' hs hnode he

theorem accesses_succ (h : ParsersLay n) (s₀ : ParseState) (us : List Token) (e : Expr)
    (s : ParseState) (e' : Expr) (s' : ParseState) (hs : s₀.Ready) (hl : s₀.Lays s us [.part e])
    (he : parsePostfix (n + 1) e s = .ok (e', s')) : ∃ read, s₀.Lays s' read [.part e'] := by
  rw [parsePostfix] at he
  split at he
  · rename_i hk
    obtain ⟨⟨args, s₁⟩, ha, he⟩ := bind_eq_ok.mp he
    obtain ⟨⟨paren, s₂⟩, hp, he⟩ := bind_eq_ok.mp he
    have hopening := lays_sign (hl.ready hs) hk (by decide)
    have hs₁ := hopening.ready (hl.ready hs)
    obtain ⟨vs, hla⟩ := h.items .rightParen s.advance hs₁ args s₁ ha
    have hclosing := lays_expect (hla.ready hs₁) (by decide) hp
    have hall : s₀.Lays s₂ _ (call ⟨s₂.nextId, e.span.merge paren.span⟩ e paren args).pieces :=
      hl.trans (hopening.trans (hla.trans hclosing))
    have hnode := hall.complete_merge hs hl.hull (.single _) (List.prefix_append ..)
      ((List.suffix_append ..).trans ((List.suffix_append ..).trans (List.suffix_append ..))) rfl
      (s₂.nextId + 1)
    exact h.accesses s₀ _ _ _ e' s' hs hnode he
  · rename_i hk
    refine h.member_succ hs hl ?_ he
    simp [hk]
  · rename_i hk
    refine h.member_succ hs hl ?_ he
    simp [hk]
  · obtain ⟨rfl, rfl⟩ := Prod.mk.inj (Except.ok.inj he)
    exact ⟨us, hl⟩

theorem items_succ (h : ParsersLay n) (stop : TokenKind) (s : ParseState) :
    LaysFrom Piece.ofItems s (parseItems (n + 1) stop s) := by
  intro hs es s' he
  rw [parseItems] at he
  split at he
  · obtain ⟨rfl, rfl⟩ := Prod.mk.inj (Except.ok.inj he)
    exact ⟨[], .refl s⟩
  · exact h.someItems s hs es s' he

theorem someItems_succ (h : ParsersLay n) (s : ParseState) :
    LaysFrom Piece.ofItems s (parseSomeItems (n + 1) s) := by
  intro hs es s' he
  rw [parseSomeItems] at he
  obtain ⟨⟨e, s₁⟩, hf, he⟩ := bind_eq_ok.mp he
  obtain ⟨us, hl⟩ := h.expr s hs e s₁ hf
  dsimp only at he
  split at he
  · rename_i hk
    obtain ⟨⟨rest, s₂⟩, hr, he⟩ := bind_eq_ok.mp he
    obtain ⟨rfl, rfl⟩ := Prod.mk.inj (Except.ok.inj he)
    have hcomma := lays_sign (hl.ready hs) hk (by decide)
    have hs₁ := hcomma.ready (hl.ready hs)
    obtain ⟨vs, hlr⟩ := h.someItems s₁.advance hs₁ rest s₂ hr
    obtain ⟨hne, -⟩ := (ParsersTake.all n).someItems s₁.advance rest s₂ hs₁.ended hr
    obtain ⟨e₂, rest, rfl⟩ := List.exists_cons_of_ne_nil hne
    exact ⟨_, hl.trans (hcomma.trans hlr)⟩
  · obtain ⟨rfl, rfl⟩ := Prod.mk.inj (Except.ok.inj he)
    exact ⟨us, hl⟩

theorem branches_succ (h : ParsersLay n) (s : ParseState) :
    LaysFrom Piece.ofBranches s (parseBranches (n + 1) s) := by
  intro hs branches s' he
  rw [parseBranches] at he
  split at he
  · rename_i hk
    obtain ⟨⟨condition, s₁⟩, hc, he⟩ := bind_eq_ok.mp he
    obtain ⟨⟨mark, s₂⟩, hg, he⟩ := bind_eq_ok.mp he
    obtain ⟨⟨result, s₃⟩, hr, he⟩ := bind_eq_ok.mp he
    obtain ⟨⟨rest, s₄⟩, hb, he⟩ := bind_eq_ok.mp he
    obtain ⟨rfl, rfl⟩ := Prod.mk.inj (Except.ok.inj he)
    have hupon := lays_sign hs hk (by decide)
    obtain ⟨us, hlc⟩ := h.expr s.advance (hupon.ready hs) condition s₁ hc
    have hs₁ := hlc.ready (hupon.ready hs)
    have hgive := lays_expect hs₁ (by decide) hg
    obtain ⟨vs, hlr⟩ := h.expr s₂ (hgive.ready hs₁) result s₃ hr
    obtain ⟨ws, hlb⟩ := h.branches s₃ (hlr.ready (hgive.ready hs₁)) rest s₄ hb
    exact ⟨_, hupon.trans (hlc.trans (hgive.trans (hlr.trans hlb)))⟩
  · obtain ⟨rfl, rfl⟩ := Prod.mk.inj (Except.ok.inj he)
    exact ⟨[], .refl s⟩

theorem otherwise_succ (h : ParsersLay n) (s : ParseState) :
    LaysFrom Piece.ofOptional s (parseOtherwise (n + 1) s) := by
  intro hs e s' he
  rw [parseOtherwise] at he
  split at he
  · rename_i hk
    obtain ⟨⟨e₁, s₁⟩, hf, he⟩ := bind_eq_ok.mp he
    obtain ⟨rfl, rfl⟩ := Prod.mk.inj (Except.ok.inj he)
    have hotherwise := lays_sign hs hk (by decide)
    obtain ⟨us, hl⟩ := h.expr s.advance (hotherwise.ready hs) e₁ s₁ hf
    exact ⟨_, hotherwise.trans hl⟩
  · obtain ⟨rfl, rfl⟩ := Prod.mk.inj (Except.ok.inj he)
    exact ⟨[], .refl s⟩

theorem binary_succ (h : ParsersLay n) (least : Nat) (s : ParseState) :
    LaysFrom (fun e => [.part e]) s (parseBinary (n + 1) least s) := by
  intro hs e s' he
  rw [parseBinary] at he
  obtain ⟨⟨left, s₁⟩, hl, he⟩ := bind_eq_ok.mp he
  obtain ⟨us, hll⟩ := h.unary s hs left s₁ hl
  exact h.operators least s us left s₁ e s' hs hll he

theorem lays_enclosed {s s₁ s' : ParseState} {kind kind' : TokenKind} {cause : ParseCause}
    {close : Token} {us : List Token} {ps : List Piece} {e : Expr} (hs : s.Ready)
    (hk : s.kind = kind) (hne : kind ≠ .endOfGroup) (hl : s.advance.Lays s₁ us ps)
    (hc : s₁.expect kind' cause = .ok (close, s')) (hne' : kind' ≠ .endOfGroup)
    (hpieces : e.pieces = .sign kind :: ps ++ [.sign kind'])
    (hspan : e.span = s.current.span.merge close.span) (nextId : Nat) :
    ∃ read, s.Lays { s' with nextId } read [.part e] := by
  have hopening := lays_sign hs hk hne
  have hclosing := lays_expect (hl.ready (hopening.ready hs)) hne' hc
  have hall : s.Lays s' _ e.pieces := hpieces ▸ hopening.trans (hl.trans hclosing)
  exact ⟨_, hall.complete_merge hs (.single _) (.single _) (List.prefix_append ..)
    ((List.suffix_append ..).trans (List.suffix_append ..)) hspan nextId⟩

theorem primary_succ (h : ParsersLay n) (s : ParseState) :
    LaysFrom (fun e => [.part e]) s (parsePrimary (n + 1) s) := by
  intro hs e s' he
  rw [parsePrimary] at he
  split at he
  · rename_i params rest hhead
    obtain ⟨⟨body, s₁⟩, hb, he⟩ := bind_eq_ok.mp he
    obtain ⟨rfl, rfl⟩ := Prod.mk.inj (Except.ok.inj he)
    obtain ⟨-, read, hread, hspelled⟩ := functionHead?_spelled hhead
    have hlh : s.Lays { s with rest } read [.signs (parameterMarks params ++ [.sign .arrow])] :=
      ⟨rfl, hread, .of_signs hspelled⟩
    obtain ⟨vs, hlb⟩ := h.expr { s with rest } (hlh.ready hs) body s₁ hb
    have hall : s.Lays s₁ _ (Expr.lambda ⟨s₁.nextId, s.current.span.merge body.span⟩ params
      body).pieces := hlh.trans hlb
    -- the first token of the parameters is the one that the parser stands at
    have hfirst : [s.current] <+: read ++ vs := by
      have hlength := hspelled.length_le
      rw [List.length_append, List.length_singleton] at hlength
      obtain ⟨first, read, rfl⟩ := List.exists_cons_of_length_pos (Nat.lt_of_lt_of_le
        (Nat.succ_pos _) hlength)
      have hcurrent : s.current = first := by rw [ParseState.current, hread]; rfl
      exact ⟨read ++ vs, by rw [hcurrent]; rfl⟩
    exact ⟨_, hall.complete_merge hs (.single _) hlb.hull hfirst (List.suffix_append ..) rfl _⟩
  · dsimp only at he
    split at he
    · rename_i hk
      obtain ⟨rfl, rfl⟩ := Prod.mk.inj (Except.ok.inj he)
      have hne := current_ne_last hs.ended (by rw [ParseState.kind, hk]; decide)
      have hall : s.Lays s.advance _ (Expr.name ⟨s.advance.nextId, s.current.span⟩
        s.current).pieces := lays_current hne ⟨rfl, rfl⟩
      exact ⟨_, hall.complete (.single _) _⟩
    · rename_i hk
      obtain ⟨⟨inner, s₁⟩, hi, he⟩ := bind_eq_ok.mp he
      obtain ⟨⟨close, s₂⟩, hc, he⟩ := bind_eq_ok.mp he
      obtain ⟨rfl, rfl⟩ := Prod.mk.inj (Except.ok.inj he)
      have hs₁ := (lays_sign hs hk (by decide)).ready hs
      obtain ⟨us, hl⟩ := h.expr s.advance hs₁ inner s₁ hi
      exact lays_enclosed hs hk (by decide) hl hc (by decide) rfl rfl _
    · rename_i hk
      obtain ⟨⟨items, s₁⟩, hi, he⟩ := bind_eq_ok.mp he
      obtain ⟨⟨close, s₂⟩, hc, he⟩ := bind_eq_ok.mp he
      obtain ⟨rfl, rfl⟩ := Prod.mk.inj (Except.ok.inj he)
      have hs₁ := (lays_sign hs hk (by decide)).ready hs
      obtain ⟨us, hl⟩ := h.items .rightBracket s.advance hs₁ items s₁ hi
      exact lays_enclosed hs hk (by decide) hl hc (by decide) rfl rfl _
    · rename_i hk
      obtain ⟨⟨branches, s₁⟩, hb, he⟩ := bind_eq_ok.mp he
      dsimp only at he
      split at he
      · cases he
      · obtain ⟨⟨otherwise, s₂⟩, ho, he⟩ := bind_eq_ok.mp he
        obtain ⟨⟨close, s₃⟩, hc, he⟩ := bind_eq_ok.mp he
        obtain ⟨rfl, rfl⟩ := Prod.mk.inj (Except.ok.inj he)
        have hs₁ := (lays_sign hs hk (by decide)).ready hs
        obtain ⟨us, hlb⟩ := h.branches s.advance hs₁ branches s₁ hb
        obtain ⟨vs, hlo⟩ := h.otherwise s₁ (hlb.ready hs₁) otherwise s₂ ho
        exact lays_enclosed hs hk (by decide) (hlb.trans hlo) hc (by decide) rfl rfl _
    · split at he
      · rename_i value hv
        obtain ⟨rfl, rfl⟩ := Prod.mk.inj (Except.ok.inj he)
        have hne : s.kind ≠ .endOfGroup := by
          intro hk
          rw [Token.constant?, show s.current.kind = .endOfGroup from hk] at hv
          cases hv
        have hw : s.current.Shows (.constant value) := Token.writes_iff.mpr hv
        have hall : s.Lays s.advance _ (Expr.constant ⟨s.advance.nextId, s.current.span⟩
          value).pieces := lays_current (current_ne_last hs.ended hne) hw
        exact ⟨_, hall.complete (.single _) _⟩
      · cases he

theorem all (n : Nat) : ParsersLay n := by
  -- Every parser calls the others with less fuel only, so one induction does for all of them.
  induction n with
  | zero =>
    constructor
    · exact fun _ _ _ _ he => nomatch he
    · exact fun _ _ _ _ _ he => nomatch he
    · exact fun _ _ _ _ he => nomatch he
    · exact fun _ _ _ _ he => nomatch he
    · exact fun _ _ _ _ _ he => nomatch he
    · exact fun _ _ _ _ he => nomatch he
    · exact fun _ _ _ _ he => nomatch he
    · exact fun _ _ _ _ he => nomatch he
    · exact fun _ _ _ _ _ _ _ _ _ he => nomatch he
    · exact fun _ _ _ _ _ _ _ _ he => nomatch he
  | succ n h =>
    exact {
      expr := h.expr_succ
      binary := h.binary_succ
      unary := h.unary_succ
      primary := h.primary_succ
      items := h.items_succ
      someItems := h.someItems_succ
      branches := h.branches_succ
      otherwise := h.otherwise_succ
      operators := h.operators_succ
      accesses := h.accesses_succ }

end ParsersLay

theorem ParseState.expr_lays (s : ParseState) : LaysFrom (fun e => [.part e]) s s.expr :=
  (ParsersLay.all _).expr s

end DocTemplate
