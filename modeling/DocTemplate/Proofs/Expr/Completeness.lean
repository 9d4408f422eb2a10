import DocTemplate.Proofs.Expr.Soundness

namespace DocTemplate

open DocTemplate.Expr

/-- Tokens that can stand after an opening bracket and are not read as parameters there. -/
def StartsExpr (tokens : List Token) : Prop :=
  ∃ t ts, tokens = t :: ts ∧ (t.kind ≠ .rightParen ∧ t.kind ≠ .rightBracket) ∧
    (t.kind = .identifier →
      ∀ u us, ts = u :: us → u.kind ≠ .rightParen ∧ u.kind ≠ .comma)

theorem StartsExpr.append {tokens us : List Token} {t : Token} (h : StartsExpr tokens)
    (hp : t.kind ≠ .rightParen) (hc : t.kind ≠ .comma) : StartsExpr (tokens ++ t :: us) := by
  obtain ⟨first, ts, rfl, hf, hn⟩ := h
  refine ⟨first, ts ++ t :: us, rfl, hf, fun hi u vs he => ?_⟩
  cases ts with
  | nil =>
    obtain ⟨rfl, -⟩ := List.cons.inj he
    exact ⟨hp, hc⟩
  | cons u' ts =>
    obtain ⟨rfl, -⟩ := List.cons.inj he
    exact hn hi u' ts rfl

theorem StartsExpr.single {t : Token} (hp : t.kind ≠ .rightParen) (hb : t.kind ≠ .rightBracket) :
    StartsExpr [t] :=
  ⟨t, [], rfl, ⟨hp, hb⟩, fun _ _ _ he => by cases he⟩

theorem StartsExpr.cons {t : Token} {ts : List Token}
    (h : t.kind ≠ .rightParen ∧ t.kind ≠ .rightBracket ∧ t.kind ≠ .identifier) :
    StartsExpr (t :: ts) :=
  ⟨t, ts, rfl, ⟨h.1, h.2.1⟩, fun hk => absurd hk h.2.2⟩

theorem Operator.kind_of_ofToken? {kind : TokenKind} {op : Operator}
    (h : Operator.ofToken? kind = some op) :
    kind ≠ .rightParen ∧ kind ≠ .comma ∧ kind ≠ .arrow ∧ kind ≠ .equal ∧ kind ≠ .leftParen ∧
      kind ≠ .dot ∧ kind ≠ .dotQuestion := by
  refine ⟨?_, ?_, ?_, ?_, ?_, ?_, ?_⟩ <;>
  · rintro rfl
    cases h

theorem UnaryOp.kind_of_ofToken? {kind : TokenKind} {op : UnaryOp}
    (h : UnaryOp.ofToken? kind = some op) :
    kind ≠ .rightParen ∧ kind ≠ .rightBracket ∧ kind ≠ .identifier := by
  refine ⟨?_, ?_, ?_⟩ <;>
  · rintro rfl
    cases h

theorem startsExpr_parameters {params read : List Token} {ms : List Mark}
    (hid : ∀ param ∈ params, param.kind = .identifier)
    (h : Spelled read (parameterMarks params ++ .sign .arrow :: ms)) : StartsExpr read := by
  have hmany (ns : List Mark) (hr : Spelled read (.sign .leftParen :: ns)) : StartsExpr read := by
    obtain ⟨t, ts, rfl, hk, -⟩ := hr.sign_cons
    exact .cons (by simp [hk])
  match params with
  | [] => exact hmany _ h
  | [param] =>
    have hp := hid param (by simp)
    have h : Spelled read (param.nameMark :: .sign .arrow :: ms) := h
    generalize hm : param.nameMark = m at h
    cases h with
    | token shows tail =>
      subst hm
      obtain ⟨arrow, ts, rfl, ha, -⟩ := tail.sign_cons
      refine ⟨_, _, rfl, by simp [shows.1, hp], fun _ u us he => ?_⟩
      obtain ⟨rfl, -⟩ := List.cons.inj he
      simp [ha]
    | parameter isOpening => exact .cons (by simp [isOpening])
  | _ :: _ :: _ => exact hmany _ h

theorem Expr.startsExpr :
    ∀ (e : Expr) (read : List Token), e.Accepted → Spelled read e.yield → StartsExpr read
  | constant _ value, read, _, hs => by
    obtain ⟨t, rfl, hw⟩ := Spelled.of_single hs
    have hc := Token.writes_iff.mp hw
    refine .single (fun hk => ?_) (fun hk => ?_) <;>
    · rw [Token.constant?, hk] at hc
      cases hc
  | .name _ token, read, ha, hs => by
    obtain ⟨t, rfl, hk, -⟩ := Spelled.of_single hs
    have ha : token.kind = .identifier := ha
    exact .single (by simp [hk, ha]) (by simp [hk, ha])
  | assign _ target value, read, ⟨hk, _⟩, hs => by
    obtain ⟨t, ts, rfl, ht, hs⟩ := hs.cons (by simp)
    obtain ⟨equals, ts, rfl, he, -⟩ := hs.sign_cons
    have ht : StartsExpr [t] := .single (by simp [ht.1, hk]) (by simp [ht.1, hk])
    exact ht.append (by simp [he]) (by simp [he])
  | unary _ op token _, read, ⟨ho, _⟩, hs => by
    obtain ⟨t, ts, rfl, ht, -⟩ := hs.sign_cons
    rw [← ht] at ho
    exact .cons (UnaryOp.kind_of_ofToken? ho)
  | binary _ op token left right, read, ⟨ho, _, _, hl, _⟩, hs => by
    have hk := Operator.kind_of_ofToken? ho
    obtain ⟨us, t, vs, rfl, hu, ht, -⟩ := hs.split_sign hk.2.2.1
    exact (startsExpr left us hl hu).append (ht ▸ hk.1) (ht ▸ hk.2.1)
  | group _ _, read, _, hs => by
    obtain ⟨t, ts, rfl, ht, -⟩ := hs.sign_cons
    exact .cons (by simp [ht])
  | call _ callee _ args, read, ⟨_, _, hc, _⟩, hs => by
    rw [yield, List.append_assoc] at hs
    obtain ⟨us, t, vs, rfl, hu, ht, -⟩ := hs.split_sign (by decide)
    exact (startsExpr callee us hc hu).append (by simp [ht]) (by simp [ht])
  | get _ object _ optional, read, ⟨_, _, ho⟩, hs => by
    obtain ⟨us, t, vs, rfl, hu, ht, -⟩ := hs.split_sign (by cases optional <;> decide)
    exact (startsExpr object us ho hu).append (by cases optional <;> simp [ht])
      (by cases optional <;> simp [ht])
  | set _ object _ value, read, ⟨_, _, ho, _⟩, hs => by
    obtain ⟨us, t, vs, rfl, hu, ht, -⟩ := hs.split_sign (by decide)
    exact (startsExpr object us ho hu).append (by simp [ht]) (by simp [ht])
  | choose _ _ _, read, _, hs => by
    obtain ⟨t, ts, rfl, ht, -⟩ := hs.sign_cons
    exact .cons (by simp [ht])
  | lambda _ params body, read, ⟨hid, _⟩, hs => startsExpr_parameters hid hs
  | list _ _, read, _, hs => by
    obtain ⟨t, ts, rfl, ht, -⟩ := hs.sign_cons
    exact .cons (by simp [ht])

theorem closedParams?_of_spelled {params read : List Token} {closing : Token} (rest : List Token)
    (hne : params ≠ []) (hid : ∀ param ∈ params, param.kind = .identifier)
    (hc : closing.kind = .rightParen)
    (hs : Spelled read ((params.map Token.nameMark).intersperse (.sign .comma))) :
    ∃ params', closedParams? (read ++ closing :: rest) = some (params', rest) ∧
      params'.map bareName = params.map bareName := by
  induction params generalizing read with
  | nil => exact absurd rfl hne
  | cons param params ih =>
    have hp := hid param (by simp)
    cases params with
    | nil =>
      obtain ⟨name, rfl, hn⟩ := Spelled.of_single hs
      refine ⟨[name], ?_, by simp [bareName, hn.1, hn.2]⟩
      simp [closedParams?, hn.1, hp, hc]
    | cons param' params =>
      obtain ⟨name, ts, rfl, hn, hs⟩ := Spelled.cons hs (by simp)
      obtain ⟨comma, ts, rfl, hk, hs⟩ := hs.sign_cons
      obtain ⟨names, hnames, hb⟩ := ih (by simp) (fun p h => hid p (by simp [h])) hs
      refine ⟨name :: names, ?_, by simp [hb, bareName, hn.1, hn.2]⟩
      simp [closedParams?, hn.1, hp, hk, hnames]

theorem functionHead?_of_spelled {params read : List Token} (rest : List Token)
    (hid : ∀ param ∈ params, param.kind = .identifier)
    (hs : Spelled read (parameterMarks params ++ [.sign .arrow])) :
    ∃ params', functionHead? (read ++ rest) = some (params', rest) ∧
      params'.map bareName = params.map bareName := by
  match params with
  | [] =>
    obtain ⟨opening, ts, rfl, ho, hs⟩ := hs.sign_cons
    obtain ⟨closing, ts, rfl, hc, hs⟩ := hs.sign_cons
    obtain ⟨arrow, rfl, ha⟩ := hs.of_single
    refine ⟨[], ?_, rfl⟩
    have ha : arrow.kind = .arrow := ha
    simp [functionHead?, ho, hc, ha]
  | [param] =>
    have hp := hid param (by simp)
    have hs : Spelled read [param.nameMark, .sign .arrow] := hs
    generalize hm : param.nameMark = m at hs
    cases hs with
    | token shows tail =>
      subst hm
      rename_i name _
      obtain ⟨arrow, rfl, ha⟩ := tail.of_single
      have ha : arrow.kind = .arrow := ha
      have hn : name.kind = .identifier := shows.1.trans hp
      exact ⟨[name], by simp [functionHead?, hn, ha], by simp [bareName, shows.1, shows.2]⟩
    | parameter isOpening isName isClosing isArrow tail =>
      cases tail
      rename_i opening name closing arrow
      obtain ⟨hk, hl⟩ := Mark.name.inj hm
      exact ⟨[name], by simp [functionHead?, closedParams?, isOpening, isName, isClosing, isArrow],
        by simp [bareName, hk, hl]⟩
  | param :: param' :: params =>
    obtain ⟨opening, ts, rfl, ho, hs⟩ := hs.sign_cons
    have hs : Spelled ts (((param :: param' :: params).map Token.nameMark).intersperse
        (.sign .comma) ++ .sign .rightParen :: [.sign .arrow]) := by simpa using hs
    obtain ⟨us, closing, vs, rfl, hu, hc, hs⟩ := hs.split_sign (by decide)
    obtain ⟨arrow, rfl, ha⟩ := hs.of_single
    have ha : arrow.kind = .arrow := ha
    obtain ⟨names, hn, hb⟩ := closedParams?_of_spelled (arrow :: rest) (by simp) hid hc hu
    refine ⟨names, ?_, hb⟩
    obtain ⟨first, us', rfl, hf, -⟩ := Spelled.cons hu (by simp)
    have hfirst : first.kind ≠ .rightParen := by
      rw [hf.1, hid param (by simp)]
      decide
    simp only [List.cons_append] at hn
    simp [functionHead?, ho, hfirst, hn, ha]

theorem functionHead?_none {t : Token} (ts : List Token) (hi : t.kind ≠ .identifier)
    (hp : t.kind ≠ .leftParen) : functionHead? (t :: ts) = none := by
  simp [functionHead?, hi, hp]

theorem functionHead?_name {t u : Token} (ts : List Token) (hi : t.kind = .identifier)
    (hu : u.kind ≠ .arrow) : functionHead? (t :: u :: ts) = none := by
  simp [functionHead?, hi, hu]

theorem functionHead?_group {opening closing t : Token} {read : List Token} (ts : List Token)
    (ho : opening.kind = .leftParen) (hr : StartsExpr read) (hc : closing.kind = .rightParen)
    (ht : t.kind ≠ .arrow) : functionHead? (opening :: (read ++ closing :: t :: ts)) = none := by
  obtain ⟨first, us, rfl, hf, hn⟩ := hr
  by_cases hi : first.kind = .identifier
  · cases us with
    | nil => simp [functionHead?, closedParams?, ho, hi, hc, ht]
    | cons u us =>
      obtain ⟨hp, hcomma⟩ := hn hi u us rfl
      simp [functionHead?, closedParams?, ho, hi, hp, hcomma]
  · cases us with
    | nil => simp [functionHead?, closedParams?, ho, hf, hi]
    | cons u us => simp [functionHead?, closedParams?, ho, hf, hi]

namespace ParseState

variable {s : ParseState} {t : Token} {rest : List Token}

theorem current_of_rest (h : s.rest = t :: rest) : s.current = t := by
  rw [current, h]
  rfl

theorem kind_of_rest (h : s.rest = t :: rest) : s.kind = t.kind := by
  rw [kind, current_of_rest h]

theorem advance_of_rest (h : s.rest = t :: rest) : s.advance = { s with rest } := by
  rw [advance, h]
  rfl

theorem expect_of_rest {kind : TokenKind} {cause : ParseCause} (h : s.rest = t :: rest)
    (hk : t.kind = kind) : s.expect kind cause = .ok (t, { s with rest }) := by
  rw [expect, kind_of_rest h, if_pos hk, current_of_rest h, advance_of_rest h]

end ParseState

/-- No expression goes on with this token. -/
structure Token.EndsExpr (t : Token) : Prop where
  operator : Operator.ofToken? t.kind = none
  access : ¬ t.Accesses
  equal : t.kind ≠ .equal
  arrow : t.kind ≠ .arrow

theorem Token.EndsExpr.of_kind {t : Token} {kind : TokenKind} (h : t.kind = kind)
    (hk : kind ∈ [TokenKind.closing, .rightParen, .rightBracket, .comma, .keyword .upon,
      .keyword .give, .keyword .otherwise, .keyword .finish]) : t.EndsExpr := by
  simp only [List.mem_cons, List.not_mem_nil, or_false] at hk
  rcases hk with rfl | rfl | rfl | rfl | rfl | rfl | rfl | rfl <;>
    exact ⟨by rw [h]; rfl, by simp [Token.Accesses, h], by simp [h], by simp [h]⟩

structure Expr.EndsAt (e : Expr) (t : Token) : Prop where
  operator : ∀ op, Operator.ofToken? t.kind = some op → op.level < e.operandLevel
  arrow : t.kind ≠ .arrow
  function : e.endsInFunction → t.EndsExpr

theorem Token.EndsExpr.endsAt {t : Token} (h : t.EndsExpr) (e : Expr) : e.EndsAt t :=
  ⟨fun _ ho => absurd (h.operator.symm.trans ho) nofun, h.arrow, fun _ => h⟩

theorem Expr.lastOperand.endsAt {least : Nat} {e : Expr} {t : Token}
    (h : lastOperand false least e)
    (hop : ∀ op, Operator.ofToken? t.kind = some op → op.level < least) (ha : t.kind ≠ .arrow) :
    e.EndsAt t := by
  refine ⟨fun op ho => Nat.lt_of_lt_of_le (hop op ho) h.1, ha, fun hf => ?_⟩
  rcases h.2 with h' | h'
  · cases h'
  · rw [hf] at h'
    cases h'

def Gives (result : Except ParseFault (Expr × ParseState)) (e : Expr) (rest : List Token) : Prop :=
  ∃ e' s', result = .ok (e', s') ∧ e'.bare = e.bare ∧ s'.rest = rest

/-- A parser has read the expression, up to places, and goes on with another one that has so much
fuel. -/
def Reaches (result : Except ParseFault (Expr × ParseState))
    (next : Nat → Expr → ParseState → Except ParseFault (Expr × ParseState)) (e : Expr)
    (rest : List Token) (fuel : Nat) : Prop :=
  ∃ m e' s', result = next m e' s' ∧ e'.bare = e.bare ∧ s'.rest = rest ∧ fuel ≤ m

structure ParseState.Before (s : ParseState) (read : List Token) (marks : List Mark) (t : Token)
    (rest : List Token) : Prop where
  rest : s.rest = read ++ t :: rest
  spelled : Spelled read marks

theorem ParseState.Before.rest_of_nil {s : ParseState} {read : List Token} {t : Token}
    {rest : List Token} (h : s.Before read [] t rest) : s.rest = t :: rest := by
  have hrest := h.rest
  cases h.spelled
  exact hrest

namespace Expr

-- No more than eight parsers call each other before one of them reads a token, so eight steps of
-- fuel for every token are enough; what is added counts the levels from the primary one up.

def ReadsPrimary (e : Expr) : Prop :=
  ∀ n s read t rest, ParseState.Before s read e.yield t rest → e.EndsAt t →
    8 * read.length + 1 ≤ n →
    UnaryOp.ofToken? s.kind = none ∧ Gives (parsePrimary n s) e (t :: rest)

def ReadsAccess (e : Expr) : Prop :=
  ∀ n s read t rest, ParseState.Before s read e.yield t rest → e.EndsAt t →
    8 * read.length + 2 ≤ n →
    Reaches (parseUnary n s) parsePostfix e (t :: rest) (n - (read.length + 1))

def ReadsUnary (e : Expr) : Prop :=
  ∀ n s read t rest, ParseState.Before s read e.yield t rest → e.EndsAt t → ¬ t.Accesses →
    8 * read.length + 2 ≤ n → Gives (parseUnary n s) e (t :: rest)

def ReadsBinary (e : Expr) : Prop :=
  ∀ least n s read t rest, least < e.operandLevel → ParseState.Before s read e.yield t rest →
    e.EndsAt t → ¬ t.Accesses → 8 * read.length + 3 ≤ n →
    Reaches (parseBinary n least s) (parseOperators · least) e (t :: rest)
      (n - (read.length + 1))

def ReadsExpr (e : Expr) : Prop :=
  ∀ n s read t rest, ParseState.Before s read e.yield t rest → t.EndsExpr →
    8 * read.length + 4 ≤ n → Gives (parseExpr n s) e (t :: rest)

/-- All parsers that can meet an expression of its level read it back. -/
structure Complete (e : Expr) : Prop where
  access : 10 ≤ e.operandLevel → e.ReadsAccess
  unary : 9 ≤ e.operandLevel → e.ReadsUnary
  binary : 0 < e.operandLevel → e.ReadsBinary
  expr : e.ReadsExpr

theorem ReadsPrimary.access {e : Expr} (h : e.ReadsPrimary) : e.ReadsAccess := by
  intro n s read t rest hb he hn
  obtain ⟨n, rfl⟩ : ∃ k, n = k + 1 := ⟨n - 1, by omega⟩
  obtain ⟨hu, e', s', hp, hbare, hrest⟩ := h n s read t rest hb he (by omega)
  refine ⟨n, e', s', ?_, hbare, hrest, by omega⟩
  rw [parseUnary, hu, hp]
  rfl

theorem parsePostfix_stop (n : Nat) (e : Expr) {s : ParseState} (h : ¬ s.AtAccess) :
    parsePostfix (n + 1) e s = .ok (e, s) := by
  rw [parsePostfix]
  split
  · rename_i hk
    exact absurd (.inl hk) h
  · rename_i hk
    exact absurd (.inr (.inl hk)) h
  · rename_i hk
    exact absurd (.inr (.inr hk)) h
  · rfl

theorem parseOperators_stop (n : Nat) {least : Nat} (e : Expr) {s : ParseState}
    (h : ∀ op, Operator.ofToken? s.kind = some op → op.level < least) :
    parseOperators (n + 1) least e s = .ok (e, s) := by
  rw [parseOperators]
  split
  · rfl
  · rename_i op hop
    rw [if_pos (h op hop)]

theorem ReadsAccess.unary {e : Expr} (h : e.ReadsAccess) : e.ReadsUnary := by
  intro n s read t rest hb he ha hn
  obtain ⟨m, e', s', hp, hbare, hrest, hm⟩ := h n s read t rest hb he hn
  obtain ⟨m, rfl⟩ : ∃ k, m = k + 1 := ⟨m - 1, by omega⟩
  refine ⟨e', s', ?_, hbare, hrest⟩
  rw [hp, parsePostfix_stop]
  rw [ParseState.AtAccess, ParseState.current_of_rest hrest]
  exact ha

theorem ReadsUnary.binary {e : Expr} (h : e.ReadsUnary) : e.ReadsBinary := by
  intro least n s read t rest _ hb he ha hn
  obtain ⟨n, rfl⟩ : ∃ k, n = k + 1 := ⟨n - 1, by omega⟩
  obtain ⟨e', s', hp, hbare, hrest⟩ := h n s read t rest hb he ha (by omega)
  refine ⟨n, e', s', ?_, hbare, hrest, by omega⟩
  rw [parseBinary, hp]
  rfl

theorem ReadsBinary.gives {e : Expr} (h : e.ReadsBinary) {least n : Nat} {s : ParseState}
    {read : List Token} {t : Token} {rest : List Token} (hl : least < e.operandLevel)
    (hb : s.Before read e.yield t rest) (he : e.EndsAt t) (ha : ¬ t.Accesses)
    (hop : ∀ op, Operator.ofToken? t.kind = some op → op.level < least)
    (hn : 8 * read.length + 3 ≤ n) : Gives (parseBinary n least s) e (t :: rest) := by
  obtain ⟨m, e', s', hp, hbare, hrest, hm⟩ := h least n s read t rest hl hb he ha hn
  obtain ⟨m, rfl⟩ : ∃ k, m = k + 1 := ⟨m - 1, by omega⟩
  refine ⟨e', s', ?_, hbare, hrest⟩
  rw [hp]
  refine parseOperators_stop m e' ?_
  rwa [ParseState.kind_of_rest hrest]

theorem ReadsBinary.expr {e : Expr} (h : e.ReadsBinary) (hl : 0 < e.operandLevel) :
    e.ReadsExpr := by
  intro n s read t rest hb he hn
  obtain ⟨n, rfl⟩ : ∃ k, n = k + 1 := ⟨n - 1, by omega⟩
  have hop : ∀ op, Operator.ofToken? t.kind = some op → op.level < 0 := by
    intro op ho
    rw [he.operator] at ho
    cases ho
  have hn' : 8 * read.length + 3 ≤ n := by omega
  obtain ⟨e', s', hp, hbare, hrest⟩ := h.gives hl hb (he.endsAt e) he.access hop hn'
  refine ⟨e', s', ?_, hbare, hrest⟩
  rw [parseExpr, hp]
  show (if s'.kind = .equal then _ else _) = _
  rw [ParseState.kind_of_rest hrest, if_neg he.equal]
  rfl

theorem Complete.ofBinary {e : Expr} (h : e.ReadsBinary) (hl : 0 < e.operandLevel)
    (hl' : e.operandLevel < 9) : e.Complete :=
  ⟨fun h' => by omega, fun h' => by omega, fun _ => h, h.expr hl⟩

theorem Complete.ofUnary {e : Expr} (h : e.ReadsUnary) (hl : e.operandLevel = 9) : e.Complete :=
  have hpos : 0 < e.operandLevel := by omega
  ⟨fun h' => by omega, fun _ => h, fun _ => h.binary, h.binary.expr hpos⟩

theorem Complete.ofAccess {e : Expr} (h : e.ReadsAccess) (hl : 10 ≤ e.operandLevel) :
    e.Complete :=
  have hpos : 0 < e.operandLevel := by omega
  ⟨fun _ => h, fun _ => h.unary, fun _ => h.unary.binary, h.unary.binary.expr hpos⟩

theorem Complete.ofExpr {e : Expr} (h : e.ReadsExpr) (hl : e.operandLevel = 0) : e.Complete :=
  ⟨fun h' => by omega, fun h' => by omega, fun h' => by omega, h⟩

def CompleteItems (es : List Expr) : Prop :=
  ∀ n s read t rest, ParseState.Before s read (yieldOfItems es) t rest → t.EndsExpr →
    t.kind ≠ .comma → es ≠ [] → 8 * read.length + 5 ≤ n →
    ∃ es' s', parseSomeItems n s = .ok (es', s') ∧ bareItems es' = bareItems es ∧
      s'.rest = t :: rest

def CompleteBranches (branches : List (Expr × Expr)) : Prop :=
  ∀ n s read t rest, ParseState.Before s read (yieldOfBranches branches) t rest →
    t.kind = .keyword .otherwise ∨ t.kind = .keyword .finish → 8 * read.length + 5 ≤ n →
    ∃ branches' s', parseBranches n s = .ok (branches', s') ∧
      bareBranches branches' = bareBranches branches ∧ s'.rest = t :: rest

def CompleteOptional (e : Option Expr) : Prop :=
  ∀ n s read t rest, ParseState.Before s read (yieldOfOptional e) t rest →
    t.kind = .keyword .finish → 8 * read.length + 5 ≤ n →
    ∃ e' s', parseOtherwise n s = .ok (e', s') ∧ bareOptional e' = bareOptional e ∧
      s'.rest = t :: rest

theorem Complete.items {e : Expr} {es : List Expr} (he : e.Complete) (hes : CompleteItems es) :
    CompleteItems (e :: es) := by
  intro n s read t rest hb ht hc _ hn
  obtain ⟨n, rfl⟩ : ∃ k, n = k + 1 := ⟨n - 1, by omega⟩
  cases es with
  | nil =>
    obtain ⟨e', s', hp, hbare, hrest⟩ := he.expr n s read t rest hb ht (by omega)
    refine ⟨[e'], s', ?_, by simp [bareItems, hbare], hrest⟩
    rw [parseSomeItems, hp]
    show (if s'.kind = .comma then _ else _) = _
    rw [ParseState.kind_of_rest hrest, if_neg hc]
    rfl
  | cons e₂ es =>
    obtain ⟨us, comma, vs, rfl, hu, hk, hv⟩ := hb.spelled.split_sign (by decide)
    have hlen : (us ++ comma :: vs).length = us.length + vs.length + 1 := by simp; omega
    obtain ⟨e', s', hp, hbare, hrest⟩ := he.expr n s us comma (vs ++ t :: rest)
      ⟨by simpa using hb.rest, hu⟩ (.of_kind hk (by decide)) (by omega)
    obtain ⟨es', s'', hq, hbares, hrest'⟩ := hes n s'.advance vs t rest
      ⟨by rw [ParseState.advance_of_rest hrest], hv⟩ ht hc (by simp) (by omega)
    refine ⟨e' :: es', s'', ?_, by rw [bareItems, bareItems, hbare, hbares], hrest'⟩
    rw [parseSomeItems, hp]
    show (if s'.kind = .comma then _ else _) = _
    rw [ParseState.kind_of_rest hrest, if_pos hk, hq]
    rfl

theorem startsItems {e : Expr} {es : List Expr} {read : List Token} (he : e.Accepted)
    (hs : Spelled read (yieldOfItems (e :: es))) :
    ∃ t ts, read = t :: ts ∧ t.kind ≠ .rightParen ∧ t.kind ≠ .rightBracket := by
  cases es with
  | nil =>
    obtain ⟨t, ts, rfl, hk, -⟩ := e.startsExpr read he hs
    exact ⟨t, ts, rfl, hk⟩
  | cons e₂ es =>
    obtain ⟨us, comma, vs, rfl, hu, -, -⟩ := hs.split_sign (by decide)
    obtain ⟨t, ts, rfl, hk, -⟩ := e.startsExpr us he hu
    exact ⟨t, ts ++ comma :: vs, rfl, hk⟩

theorem CompleteItems.parse {es : List Expr} (h : CompleteItems es) (hes : FitItems lastOperand es)
    {n : Nat} {s : ParseState} {read : List Token} {t : Token} {rest : List Token}
    (hb : s.Before read (yieldOfItems es) t rest)
    (hk : t.kind = .rightParen ∨ t.kind = .rightBracket) (hn : 8 * read.length + 6 ≤ n) :
    ∃ es' s', parseItems n t.kind s = .ok (es', s') ∧ bareItems es' = bareItems es ∧
      s'.rest = t :: rest := by
  obtain ⟨n, rfl⟩ : ∃ k, n = k + 1 := ⟨n - 1, by omega⟩
  rw [parseItems]
  cases es with
  | nil =>
    have hrest : s.rest = t :: rest := hb.rest_of_nil
    exact ⟨[], s, by rw [ParseState.kind_of_rest hrest, if_pos rfl], rfl, hrest⟩
  | cons e es =>
    obtain ⟨first, ts, rfl, hp, hbr⟩ := startsItems hes.1 hb.spelled
    have hrest : s.rest = first :: (ts ++ t :: rest) := hb.rest
    have hf : first.kind ≠ t.kind := by rcases hk with hk | hk <;> simpa [hk]
    rw [ParseState.kind_of_rest hrest, if_neg hf]
    have ht : t.EndsExpr := by
      rcases hk with hk | hk
      · exact .of_kind hk (by decide)
      · exact .of_kind hk (by decide)
    exact h n s _ t rest hb ht (by rcases hk with hk | hk <;> simp [hk]) (by simp) (by omega)

theorem CompleteBranches.nil : CompleteBranches [] := by
  intro n s read t rest hb ht hn
  obtain ⟨n, rfl⟩ : ∃ k, n = k + 1 := ⟨n - 1, by omega⟩
  have hrest : s.rest = t :: rest := hb.rest_of_nil
  refine ⟨[], s, ?_, rfl, hrest⟩
  rw [parseBranches, ParseState.kind_of_rest hrest, if_neg]
  rcases ht with ht | ht <;> simp [ht]

theorem exists_next {vs : List Token} {branches : List (Expr × Expr)} {t : Token}
    (hv : Spelled vs (yieldOfBranches branches))
    (ht : t.kind = .keyword .otherwise ∨ t.kind = .keyword .finish) (rest : List Token) :
    ∃ u us, vs ++ t :: rest = u :: us ∧ u.EndsExpr := by
  cases branches with
  | nil =>
    cases hv
    refine ⟨t, rest, rfl, ?_⟩
    rcases ht with ht | ht
    · exact .of_kind ht (by decide)
    · exact .of_kind ht (by decide)
  | cons branch branches =>
    rw [yieldOfBranches, List.cons_append, List.cons_append] at hv
    obtain ⟨u, us, rfl, hk, -⟩ := hv.sign_cons
    exact ⟨u, us ++ t :: rest, rfl, .of_kind hk (by decide)⟩

theorem exists_otherwise {vs : List Token} {otherwise : Option Expr} {finish : Token}
    (hv : Spelled vs (yieldOfOptional otherwise)) (hf : finish.kind = .keyword .finish)
    (rest : List Token) :
    ∃ u us, vs ++ finish :: rest = u :: us ∧
      (u.kind = .keyword .otherwise ∨ u.kind = .keyword .finish) := by
  cases otherwise with
  | none =>
    cases hv
    exact ⟨finish, rest, rfl, .inr hf⟩
  | some e =>
    obtain ⟨u, us, rfl, hk, -⟩ := hv.sign_cons
    exact ⟨u, us ++ finish :: rest, rfl, .inl hk⟩

theorem Complete.branches {condition result : Expr} {branches : List (Expr × Expr)}
    (hc : condition.Complete) (hr : result.Complete) (hbs : CompleteBranches branches) :
    CompleteBranches ((condition, result) :: branches) := by
  intro n s read t rest hb ht hn
  obtain ⟨n, rfl⟩ : ∃ k, n = k + 1 := ⟨n - 1, by omega⟩
  have hs := hb.spelled
  simp only [yieldOfBranches, List.cons_append, List.append_assoc] at hs
  obtain ⟨upon, ts, rfl, hk, hs⟩ := hs.sign_cons
  obtain ⟨us, give, vs, rfl, hu, hg, hs⟩ := hs.split_sign (by decide)
  obtain ⟨ws, xs, rfl, hw, hx⟩ := hs.split (by cases branches <;> simp [yieldOfBranches])
  have hlen : (upon :: (us ++ give :: (ws ++ xs))).length =
      us.length + ws.length + xs.length + 2 := by simp; omega
  have hrest₀ : s.rest = upon :: (us ++ give :: (ws ++ (xs ++ t :: rest))) := by
    simpa using hb.rest
  obtain ⟨c', s₁, hpc, hbc, hr₁⟩ := hc.expr n s.advance us give (ws ++ (xs ++ t :: rest))
    ⟨by rw [ParseState.advance_of_rest hrest₀], hu⟩ (.of_kind hg (by decide)) (by omega)
  obtain ⟨u, next, hnext, hend⟩ := exists_next hx ht rest
  obtain ⟨r', s₂, hpr, hbr, hr₂⟩ := hr.expr n { s₁ with rest := ws ++ (xs ++ t :: rest) } ws u next
    ⟨by rw [hnext], hw⟩ hend (by omega)
  obtain ⟨bs', s₃, hpb, hbb, hr₃⟩ := hbs n s₂ xs t rest ⟨by rw [hr₂, hnext], hx⟩ ht (by omega)
  refine ⟨(c', r') :: bs', s₃, ?_, by rw [bareBranches, bareBranches, hbc, hbr, hbb], hr₃⟩
  rw [parseBranches, ParseState.kind_of_rest hrest₀, if_pos hk, hpc]
  show (s₁.expect (.keyword .give) .thenKeyword >>= _) = _
  rw [ParseState.expect_of_rest hr₁ hg]
  show (parseExpr n { s₁ with rest := ws ++ (xs ++ t :: rest) } >>= _) = _
  rw [hpr]
  show (parseBranches n s₂ >>= _) = _
  rw [hpb]
  rfl

theorem CompleteOptional.none : CompleteOptional .none := by
  intro n s read t rest hb ht hn
  obtain ⟨n, rfl⟩ : ∃ k, n = k + 1 := ⟨n - 1, by omega⟩
  have hrest : s.rest = t :: rest := hb.rest_of_nil
  refine ⟨.none, s, ?_, rfl, hrest⟩
  rw [parseOtherwise, ParseState.kind_of_rest hrest, if_neg (by simp [ht])]

theorem Complete.optional {e : Expr} (he : e.Complete) : CompleteOptional (some e) := by
  intro n s read t rest hb ht hn
  obtain ⟨n, rfl⟩ : ∃ k, n = k + 1 := ⟨n - 1, by omega⟩
  obtain ⟨otherwise, ts, rfl, hk, hs⟩ := hb.spelled.sign_cons
  have hrest : s.rest = otherwise :: (ts ++ t :: rest) := hb.rest
  have hlen : (otherwise :: ts).length = ts.length + 1 := rfl
  obtain ⟨e', s', hp, hbare, hr⟩ := he.expr n s.advance ts t rest
    ⟨by rw [ParseState.advance_of_rest hrest], hs⟩ (.of_kind ht (by decide)) (by omega)
  refine ⟨some e', s', ?_, by rw [bareOptional, bareOptional, hbare], hr⟩
  rw [parseOtherwise, ParseState.kind_of_rest hrest, if_pos hk, hp]
  rfl

variable {site : Site}

theorem readsPrimary_constant (value : Constant) : (constant site value).ReadsPrimary := by
  intro n s read t rest hb he hn
  obtain ⟨c, rfl, hw⟩ := hb.spelled.of_single
  obtain ⟨n, rfl⟩ : ∃ k, n = k + 1 := ⟨n - 1, by omega⟩
  have hrest : s.rest = c :: t :: rest := hb.rest
  have hc := Token.writes_iff.mp hw
  have hkind : c.kind = .number ∨ c.kind = .string ∨ c.kind = .keyword .true ∨
      c.kind = .keyword .false ∨ c.kind = .keyword .null := by
    cases value with
    | null => simp [show c.kind = .keyword .null from hw]
    | bool b => cases b <;> simp [show c.kind = .keyword _ from hw]
    | literal l => rcases hw.1 with hk | hk <;> simp [hk]
  have hhead : functionHead? s.rest = none := by
    rw [hrest]
    refine functionHead?_none _ ?_ ?_ <;> rcases hkind with hk | hk | hk | hk | hk <;> simp [hk]
  refine ⟨?_, .constant ⟨s.nextId, c.span⟩ value,
    { s with rest := t :: rest, nextId := s.nextId + 1 }, ?_, rfl, rfl⟩
  · rw [ParseState.kind_of_rest hrest]
    rcases hkind with hk | hk | hk | hk | hk <;> rw [hk] <;> rfl
  · rw [parsePrimary, hhead]
    rcases hkind with hk | hk | hk | hk | hk <;>
      simp [ParseState.current_of_rest hrest, ParseState.advance_of_rest hrest, hk, hc,
        ParseState.number]

theorem readsPrimary_name {token : Token} (hk : token.kind = .identifier) :
    (Expr.name site token).ReadsPrimary := by
  intro n s read t rest hb he hn
  obtain ⟨x, rfl, hx⟩ := hb.spelled.of_single
  obtain ⟨n, rfl⟩ : ∃ k, n = k + 1 := ⟨n - 1, by omega⟩
  have hrest : s.rest = x :: t :: rest := hb.rest
  have hxk : x.kind = .identifier := hx.1.trans hk
  refine ⟨by rw [ParseState.kind_of_rest hrest, hxk]; rfl, .name ⟨s.nextId, x.span⟩ x,
    { s with rest := t :: rest, nextId := s.nextId + 1 }, ?_, ?_, rfl⟩
  · rw [parsePrimary, hrest, functionHead?_name rest hxk he.arrow]
    simp [ParseState.current_of_rest hrest, ParseState.advance_of_rest hrest, hxk,
      ParseState.number]
  · simp [bare, bareName, hx.1, hx.2]

theorem readsPrimary_group {inner : Expr} (ha : inner.Accepted) (hi : inner.Complete) :
    (group site inner).ReadsPrimary := by
  intro n s read t rest hb he hn
  obtain ⟨n, rfl⟩ : ∃ k, n = k + 1 := ⟨n - 1, by omega⟩
  obtain ⟨opening, ts, rfl, ho, hs⟩ := hb.spelled.sign_cons
  obtain ⟨us, closing, vs, rfl, hu, hc, hv⟩ := Spelled.split_sign hs (by decide)
  cases hv
  have hrest : s.rest = opening :: (us ++ closing :: t :: rest) := by simpa using hb.rest
  have hlen : (opening :: (us ++ [closing])).length = us.length + 2 := by simp
  obtain ⟨e', s', hp, hbare, hr⟩ := hi.expr n s.advance us closing (t :: rest)
    ⟨by rw [ParseState.advance_of_rest hrest], hu⟩ (.of_kind hc (by decide)) (by omega)
  refine ⟨by rw [ParseState.kind_of_rest hrest, ho]; rfl,
    .group ⟨s'.nextId, opening.span.merge closing.span⟩ e',
    { s' with rest := t :: rest, nextId := s'.nextId + 1 }, ?_, by simp [bare, hbare], rfl⟩
  rw [parsePrimary, hrest, functionHead?_group rest ho (inner.startsExpr us ha hu) hc he.arrow]
  simp only [ParseState.current_of_rest hrest, ho, hp]
  show (s'.expect .rightParen .groupingEnd >>= _) = _
  rw [ParseState.expect_of_rest hr hc]
  rfl

theorem readsPrimary_list {items : List Expr} (ha : FitItems lastOperand items)
    (hi : CompleteItems items) : (list site items).ReadsPrimary := by
  intro n s read t rest hb he hn
  obtain ⟨n, rfl⟩ : ∃ k, n = k + 1 := ⟨n - 1, by omega⟩
  obtain ⟨opening, ts, rfl, ho, hs⟩ := hb.spelled.sign_cons
  obtain ⟨us, closing, vs, rfl, hu, hc, hv⟩ := Spelled.split_sign hs (by decide)
  cases hv
  have hrest : s.rest = opening :: (us ++ closing :: t :: rest) := by simpa using hb.rest
  have hlen : (opening :: (us ++ [closing])).length = us.length + 2 := by simp
  have hb' : s.advance.Before us (yieldOfItems items) closing (t :: rest) :=
    ⟨by rw [ParseState.advance_of_rest hrest], hu⟩
  have hn' : 8 * us.length + 6 ≤ n := by omega
  obtain ⟨es', s', hp, hbare, hr⟩ := hi.parse ha hb' (.inr hc) hn'
  rw [hc] at hp
  refine ⟨by rw [ParseState.kind_of_rest hrest, ho]; rfl,
    .list ⟨s'.nextId, opening.span.merge closing.span⟩ es',
    { s' with rest := t :: rest, nextId := s'.nextId + 1 }, ?_, by simp [bare, hbare], rfl⟩
  rw [parsePrimary, hrest, functionHead?_none _ (by simp [ho]) (by simp [ho])]
  simp only [ParseState.current_of_rest hrest, ho, hp]
  show (s'.expect .rightBracket .listEnd >>= _) = _
  rw [ParseState.expect_of_rest hr hc]
  rfl

theorem isEmpty_of_bareBranches {branches branches' : List (Expr × Expr)}
    (h : bareBranches branches' = bareBranches branches) :
    branches'.isEmpty = branches.isEmpty := by
  cases branches' <;> cases branches <;> first | rfl | cases h

theorem readsPrimary_choose {branches : List (Expr × Expr)} {otherwise : Option Expr}
    (hne : branches ≠ []) (hbs : CompleteBranches branches) (ho : CompleteOptional otherwise) :
    (choose site branches otherwise).ReadsPrimary := by
  intro n s read t rest hb he hn
  obtain ⟨n, rfl⟩ : ∃ k, n = k + 1 := ⟨n - 1, by omega⟩
  obtain ⟨keyword, ts, rfl, hk, hs⟩ := hb.spelled.sign_cons
  obtain ⟨us, finish, vs, rfl, hu, hf, hv⟩ := Spelled.split_sign hs (by decide)
  cases hv
  obtain ⟨us, vs, rfl, hu, hv⟩ := hu.split (by cases otherwise <;> simp [yieldOfOptional])
  have hrest : s.rest = keyword :: (us ++ (vs ++ finish :: t :: rest)) := by
    simpa using hb.rest
  have hlen : (keyword :: (us ++ vs ++ [finish])).length = us.length + vs.length + 2 := by
    simp
    omega
  obtain ⟨u, next, hnext, hu'⟩ := exists_otherwise hv hf (t :: rest)
  obtain ⟨bs', s₁, hpb, hbb, hr₁⟩ := hbs n s.advance us u next
    ⟨by rw [ParseState.advance_of_rest hrest, hnext], hu⟩ hu' (by omega)
  obtain ⟨o', s₂, hpo, hbo, hr₂⟩ := ho n s₁ vs finish (t :: rest) ⟨by rw [hr₁, hnext], hv⟩ hf
    (by omega)
  have hempty : bs'.isEmpty = false := by
    rwa [isEmpty_of_bareBranches hbb, List.isEmpty_eq_false_iff]
  refine ⟨by rw [ParseState.kind_of_rest hrest, hk]; rfl,
    .choose ⟨s₂.nextId, keyword.span.merge finish.span⟩ bs' o',
    { s₂ with rest := t :: rest, nextId := s₂.nextId + 1 }, ?_, by simp [bare, hbb, hbo], rfl⟩
  rw [parsePrimary, hrest, functionHead?_none _ (by simp [hk]) (by simp [hk])]
  simp only [ParseState.current_of_rest hrest, hk, hpb]
  show (if bs'.isEmpty then _ else _) = _
  simp only [hempty, Bool.false_eq_true, if_false, hpo]
  show (s₂.expect (.keyword .finish) .chooseEnd >>= _) = _
  rw [ParseState.expect_of_rest hr₂ hf]
  rfl

theorem readsPrimary_lambda {params : List Token} {body : Expr}
    (hid : ∀ param ∈ params, param.kind = .identifier) (hbody : body.Complete) :
    (lambda site params body).ReadsPrimary := by
  intro n s read t rest hb he hn
  obtain ⟨n, rfl⟩ : ∃ k, n = k + 1 := ⟨n - 1, by omega⟩
  obtain ⟨first, ts, hfirst, -, -⟩ := startsExpr_parameters hid hb.spelled
  obtain ⟨us, vs, rfl, hu, hv⟩ := Spelled.split_behind hb.spelled
  have hrest : s.rest = us ++ (vs ++ t :: rest) := by simpa using hb.rest
  have hrest' : s.rest = first :: (ts ++ t :: rest) := by rw [hb.rest, hfirst]; rfl
  have hlen := hu.length_le
  rw [List.length_append, List.length_singleton] at hlen
  rw [List.length_append] at hn
  obtain ⟨params', hhead, hparams⟩ := functionHead?_of_spelled (vs ++ t :: rest) hid hu
  obtain ⟨e', s', hp, hbare, hr⟩ := hbody.expr n { s with rest := vs ++ t :: rest } vs t rest
    ⟨rfl, hv⟩ (he.function rfl) (by omega)
  refine ⟨?_, .lambda ⟨s'.nextId, first.span.merge e'.span⟩ params' e',
    { s' with nextId := s'.nextId + 1 }, ?_, by simp [bare, hbare, hparams], hr⟩
  · rw [ParseState.kind_of_rest hrest']
    by_cases hi : first.kind = .identifier
    · rw [hi]
      rfl
    · by_cases ho : first.kind = .leftParen
      · rw [ho]
        rfl
      · rw [← hrest, hrest', functionHead?_none _ hi ho] at hhead
        cases hhead
  · rw [parsePrimary, hrest, hhead]
    show (parseExpr n { s with rest := vs ++ t :: rest } >>= _) = _
    rw [hp, ParseState.current_of_rest hrest']
    rfl

theorem readsAccess_call {callee : Expr} {paren : Token} {args : List Expr}
    (hp : paren.kind = .rightParen) (hl : lastOperand false 10 callee) (hc : callee.Complete)
    (ha : FitItems lastOperand args) (hargs : CompleteItems args) :
    (call site callee paren args).ReadsAccess := by
  intro n s read t rest hb he hn
  have hs := hb.spelled
  rw [yield, List.append_assoc] at hs
  obtain ⟨us, opening, vs, rfl, hu, ho, hs⟩ := Spelled.split_sign hs (by decide)
  obtain ⟨vs, closing, ws, rfl, hv, hk, hw⟩ := Spelled.split_sign hs (by decide)
  cases hw
  have hrest : s.rest = us ++ opening :: (vs ++ closing :: t :: rest) := by simpa using hb.rest
  have hlen : (us ++ opening :: (vs ++ [closing])).length = us.length + vs.length + 2 := by
    simp
    omega
  have hend : callee.EndsAt opening :=
    hl.endsAt (fun op h => by rw [ho] at h; cases h) (by simp [ho])
  obtain ⟨m, callee', s₁, hm, hbc, hr₁, hfuel⟩ := hc.access hl.1 n s us opening _ ⟨hrest, hu⟩ hend
    (by omega)
  obtain ⟨m, rfl⟩ : ∃ k, m = k + 1 := ⟨m - 1, by omega⟩
  have hb' : s₁.advance.Before vs (yieldOfItems args) closing (t :: rest) :=
    ⟨by rw [ParseState.advance_of_rest hr₁], hv⟩
  have hn' : 8 * vs.length + 6 ≤ m := by omega
  obtain ⟨args', s₂, hi, hba, hr₂⟩ := hargs.parse ha hb' (.inl hk) hn'
  rw [hk] at hi
  refine ⟨m, .call ⟨s₂.nextId, callee'.span.merge closing.span⟩ callee' closing args',
    { s₂ with rest := t :: rest, nextId := s₂.nextId + 1 }, ?_, ?_, rfl, by omega⟩
  · rw [hm, parsePostfix, ParseState.kind_of_rest hr₁]
    simp only [ho, hi]
    show (s₂.expect .rightParen .argumentsEnd >>= _) = _
    rw [ParseState.expect_of_rest hr₂ hk]
    rfl
  · simp [bare, hbc, hba, bareSign, hk, hp]

theorem readsAccess_get {object : Expr} {member : Token} {optional : Bool}
    (hmem : member.isMemberName) (hl : lastOperand false 10 object) (ho : object.Complete) :
    (get site object member optional).ReadsAccess := by
  intro n s read t rest hb he hn
  obtain ⟨us, dot, vs, rfl, hu, hd, hs⟩ := Spelled.split_sign hb.spelled
    (by cases optional <;> decide)
  obtain ⟨name, rfl, hname⟩ := Spelled.of_single hs
  have hrest : s.rest = us ++ dot :: name :: t :: rest := by simpa using hb.rest
  have hlen : (us ++ [dot, name]).length = us.length + 2 := by simp
  have hend : object.EndsAt dot := by
    refine hl.endsAt (fun op h => ?_) ?_ <;> cases optional
    · simp [hd, Operator.ofToken?] at h
    · simp [hd, Operator.ofToken?] at h
    · simp [hd]
    · simp [hd]
  obtain ⟨m, object', s₁, hm, hbo, hr₁, hfuel⟩ := ho.access hl.1 n s us dot _ ⟨hrest, hu⟩ hend
    (by omega)
  obtain ⟨m, rfl⟩ : ∃ k, m = k + 1 := ⟨m - 1, by omega⟩
  have hr₂ : s₁.advance.rest = name :: t :: rest := by rw [ParseState.advance_of_rest hr₁]
  have hname' : name.isMemberName := by
    rw [Token.isMemberName, hname.1, hname.2]
    exact hmem
  refine ⟨m, .get ⟨s₁.nextId, object'.span.merge name.span⟩ object' name optional,
    { s₁ with rest := t :: rest, nextId := s₁.nextId + 1 }, ?_, ?_, rfl, by omega⟩
  · rw [hm, parsePostfix, ParseState.kind_of_rest hr₁]
    cases optional <;>
    · simp only [hd, Bool.false_eq_true, if_false, if_true, ParseState.current_of_rest hr₂,
        ParseState.advance_of_rest hr₂, hname', Bool.not_true]
      rw [ParseState.advance_of_rest hr₁]
      rfl
  · simp [bare, hbo, bareName, hname.1, hname.2]

theorem readsUnary_unary {op : UnaryOp} {token : Token} {e : Expr}
    (ho : UnaryOp.ofToken? token.kind = some op) (hl : 9 ≤ e.operandLevel) (he : e.Complete) :
    (unary site op token e).ReadsUnary := by
  intro n s read t rest hb hend ha hn
  obtain ⟨n, rfl⟩ : ∃ k, n = k + 1 := ⟨n - 1, by omega⟩
  obtain ⟨sign, ts, rfl, hk, hs⟩ := hb.spelled.sign_cons
  have hrest : s.rest = sign :: (ts ++ t :: rest) := hb.rest
  have hlen : (sign :: ts).length = ts.length + 1 := rfl
  have hend' : e.EndsAt t := by
    refine ⟨fun op' h => ?_, hend.arrow, hend.function⟩
    have := op'.level_lt
    omega
  obtain ⟨e', s', hp, hbare, hr⟩ := he.unary hl n s.advance ts t rest
    ⟨by rw [ParseState.advance_of_rest hrest], hs⟩ hend' ha (by omega)
  refine ⟨.unary ⟨s'.nextId, sign.span.merge e'.span⟩ op sign e',
    { s' with nextId := s'.nextId + 1 }, ?_, by simp [bare, hbare, bareSign, hk], hr⟩
  rw [parseUnary, ParseState.kind_of_rest hrest, hk, ho, ParseState.current_of_rest hrest]
  simp only [hp]
  rfl

theorem readsBinary_binary {op : Operator} {token : Token} {left right : Expr}
    (ho : Operator.ofToken? token.kind = some op) (hl : lastOperand false (op.level + 1) left)
    (hr : op.level + 2 ≤ right.operandLevel) (hleft : left.Complete) (hright : right.Complete) :
    (binary site op token left right).ReadsBinary := by
  intro least n s read t rest hleast hb hend ha hn
  have hkind := Operator.kind_of_ofToken? ho
  obtain ⟨us, sign, vs, rfl, hu, hk, hv⟩ := Spelled.split_sign hb.spelled hkind.2.2.1
  have hrest : s.rest = us ++ sign :: (vs ++ t :: rest) := by simpa using hb.rest
  have hlen : (us ++ sign :: vs).length = us.length + vs.length + 1 := by
    simp
    omega
  have hsign : Operator.ofToken? sign.kind = some op := by rw [hk, ho]
  have hacc : ¬ sign.Accesses := by
    rw [Token.Accesses, hk]
    simp [hkind]
  have hleft' : least < left.operandLevel := Nat.lt_of_lt_of_le hleast hl.1
  have hend₁ : left.EndsAt sign := by
    refine hl.endsAt (fun op' h => ?_) (hk ▸ hkind.2.2.1)
    rw [hsign] at h
    exact Option.some.inj h ▸ Nat.lt_succ_self _
  have hend₂ : right.EndsAt t := by
    refine ⟨fun op' h => ?_, hend.arrow, hend.function⟩
    have := hend.operator op' h
    have h' : op'.level < op.level + 1 := this
    omega
  obtain ⟨m, left', s₁, hm, hbl, hr₁, hfuel⟩ := hleft.binary (by omega) least n s us sign _ hleft'
    ⟨hrest, hu⟩ hend₁ hacc (by omega)
  obtain ⟨m, rfl⟩ : ∃ k, m = k + 1 := ⟨m - 1, by omega⟩
  have hright' : op.level + 1 < right.operandLevel := hr
  have hb' : s₁.advance.Before vs right.yield t rest :=
    ⟨by rw [ParseState.advance_of_rest hr₁], hv⟩
  have hn' : 8 * vs.length + 3 ≤ m := by omega
  obtain ⟨right', s₂, hpr, hbr, hr₂⟩ :=
    (hright.binary (by omega)).gives hright' hb' hend₂ ha hend.operator hn'
  refine ⟨m, .binary ⟨s₂.nextId, left'.span.merge right'.span⟩ op sign left' right',
    { s₂ with nextId := s₂.nextId + 1 }, ?_, by simp [bare, hbl, hbr, bareSign, hk], hr₂,
    by omega⟩
  have hge : ¬ op.level < least := Nat.not_lt.mpr (Nat.lt_succ_iff.mp hleast)
  rw [hm]
  show parseOperators (m + 1) least left' s₁ = _
  rw [parseOperators, ParseState.kind_of_rest hr₁, hsign]
  simp only [hge, if_false, hpr, ParseState.current_of_rest hr₁]
  rfl

theorem eq_name_of_bare {e : Expr} {token : Token} (h : e.bare = (Expr.name site token).bare) :
    ∃ site' token', e = .name site' token' ∧ bareName token' = bareName token := by
  cases e with
  | name site' token' =>
    simp only [bare, Expr.name.injEq] at h
    exact ⟨site', token', rfl, h.2⟩
  | _ => simp [bare] at h

theorem eq_get_of_bare {e object : Expr} {member : Token} {optional : Bool}
    (h : e.bare = (get site object member optional).bare) :
    ∃ site' object' member', e = .get site' object' member' optional ∧
      object'.bare = object.bare ∧ bareName member' = bareName member := by
  cases e with
  | get site' object' member' optional' =>
    simp only [bare, Expr.get.injEq] at h
    obtain ⟨-, ho, hm, rfl⟩ := h
    exact ⟨site', object', member', rfl, ho, hm⟩
  | _ => simp [bare] at h

theorem readsExpr_assignment {target value e : Expr}
    (ht : target.Complete) (hl : 0 < target.operandLevel) (hf : target.endsInFunction = false)
    (hv : value.Complete) (hy : e.yield = target.yield ++ .sign .equal :: value.yield)
    (ha : ∀ target' value' : Expr, target'.bare = target.bare → value'.bare = value.bare →
      ∃ e' : Expr, target'.assignTo? value' = some e' ∧ e'.bare = e.bare) : e.ReadsExpr := by
  intro n s read t rest hb hend hn
  obtain ⟨n, rfl⟩ : ∃ k, n = k + 1 := ⟨n - 1, by omega⟩
  have hs := hb.spelled
  rw [hy] at hs
  obtain ⟨us, equals, vs, rfl, hu, hk, hs⟩ := hs.split_sign (by decide)
  have hrest : s.rest = us ++ equals :: (vs ++ t :: rest) := by simpa using hb.rest
  have hlen : (us ++ equals :: vs).length = us.length + vs.length + 1 := by
    simp
    omega
  have hnone : ∀ op, Operator.ofToken? equals.kind = some op → op.level < 0 := by
    intro op h
    rw [hk] at h
    cases h
  have hend' : target.EndsAt equals :=
    ⟨fun op h => absurd (hnone op h) (Nat.not_lt_zero _), by simp [hk], by simp [hf]⟩
  have hn' : 8 * us.length + 3 ≤ n := by omega
  obtain ⟨target', s₁, hpt, hbt, hr₁⟩ := (ht.binary hl).gives hl ⟨hrest, hu⟩ hend'
    (by simp [Token.Accesses, hk]) hnone hn'
  obtain ⟨value', s₂, hpv, hbv, hr₂⟩ := hv.expr n s₁.advance vs t rest
    ⟨by rw [ParseState.advance_of_rest hr₁], hs⟩ hend (by omega)
  obtain ⟨e', hassign, hbare⟩ := ha target' value' hbt hbv
  refine ⟨e', s₂, ?_, hbare, hr₂⟩
  rw [parseExpr, hpt]
  show (if s₁.kind = .equal then _ else _) = _
  rw [ParseState.kind_of_rest hr₁, if_pos hk, hpv]
  dsimp only [bind, Except.bind]
  rw [hassign]
  rfl

theorem readsExpr_assign {target : Token} {value : Expr} (hk : target.kind = .identifier)
    (hv : value.Complete) : (assign site target value).ReadsExpr := by
  have ht : (Expr.name bareSite target).Complete :=
    .ofAccess (readsPrimary_name hk).access (by decide : 10 ≤ 11)
  refine readsExpr_assignment ht (by decide : 0 < 11) rfl hv rfl fun target' value' hbt hbv => ?_
  obtain ⟨site', token, rfl, hn⟩ := eq_name_of_bare hbt
  exact ⟨_, rfl, by simp [bare, hn, hbv]⟩

theorem readsExpr_set {object value : Expr} {member : Token} (hmem : member.isMemberName)
    (hl : lastOperand false 10 object) (ho : object.Complete) (hv : value.Complete) :
    (set site object member value).ReadsExpr := by
  have ht : (get bareSite object member false).Complete :=
    .ofAccess (readsAccess_get hmem hl ho) (by decide : 10 ≤ 10)
  refine readsExpr_assignment ht (by decide : 0 < 10) rfl hv (by simp [yield])
    fun target' value' hbt hbv => ?_
  obtain ⟨site', object', member', rfl, hbo, hn⟩ := eq_get_of_bare hbt
  exact ⟨_, rfl, by simp [bare, hbo, hn, hbv]⟩

theorem Complete.ofPrimary {e : Expr} (h : e.ReadsPrimary) (hl : 10 ≤ e.operandLevel) :
    e.Complete := .ofAccess h.access hl

mutual

theorem complete : ∀ e : Expr, e.Accepted → e.Complete
  | constant _ value, _ => .ofPrimary (readsPrimary_constant value) (by decide : 10 ≤ 11)
  | .name _ _, hk => .ofPrimary (readsPrimary_name hk) (by decide : 10 ≤ 11)
  | assign _ _ value, ⟨hk, hv⟩ => .ofExpr (readsExpr_assign hk (complete value hv)) rfl
  | unary _ _ _ e, ⟨ho, hl, he⟩ => .ofUnary (readsUnary_unary ho hl.1 (complete e he)) rfl
  | binary _ op _ left right, ⟨ho, hl, hr, hfl, hfr⟩ =>
    .ofBinary (readsBinary_binary ho hl hr.1 (complete left hfl) (complete right hfr))
      (Nat.succ_pos _) (Nat.succ_lt_succ op.level_lt)
  | group _ inner, hi =>
    .ofPrimary (readsPrimary_group hi (complete inner hi)) (by decide : 10 ≤ 11)
  | call _ callee _ args, ⟨hp, hl, hc, ha⟩ =>
    .ofAccess (readsAccess_call hp hl (complete callee hc) ha (completeItems args ha))
      (by decide : 10 ≤ 10)
  | get _ object _ _, ⟨hm, hl, ho⟩ =>
    .ofAccess (readsAccess_get hm hl (complete object ho)) (by decide : 10 ≤ 10)
  | set _ object _ value, ⟨hm, hl, ho, hv⟩ =>
    .ofExpr (readsExpr_set hm hl (complete object ho) (complete value hv)) rfl
  | choose _ branches otherwise, ⟨hne, hb, ho⟩ =>
    .ofPrimary (readsPrimary_choose hne (completeBranches branches hb)
      (completeOptional otherwise ho)) (by decide : 10 ≤ 11)
  | lambda _ _ body, ⟨hid, hb⟩ =>
    .ofPrimary (readsPrimary_lambda hid (complete body hb)) (by decide : 10 ≤ 11)
  | list _ items, hi =>
    .ofPrimary (readsPrimary_list hi (completeItems items hi)) (by decide : 10 ≤ 11)

theorem completeItems : ∀ es : List Expr, FitItems lastOperand es → CompleteItems es
  | [], _ => fun _ _ _ _ _ _ _ _ hne => absurd rfl hne
  | e :: es, ⟨he, hes⟩ => (complete e he).items (completeItems es hes)

theorem completeBranches :
    ∀ branches : List (Expr × Expr), FitBranches lastOperand branches → CompleteBranches branches
  | [], _ => .nil
  | (condition, result) :: branches, ⟨hc, hr, hb⟩ =>
    (complete condition hc).branches (complete result hr) (completeBranches branches hb)

theorem completeOptional : ∀ e : Option Expr, FitOptional lastOperand e → CompleteOptional e
  | none, _ => .none
  | some e, he => (complete e he).optional

end

end Expr

/-- An expression of the grammar is read back from its text, whatever follows the token behind
it. -/
theorem ParseState.expr_gives {s : ParseState} {e : Expr} {read : List Token} {t : Token}
    {rest : List Token} (ha : e.Accepted) (hb : s.Before read e.yield t rest) (ht : t.EndsExpr) :
    Gives s.expr e (t :: rest) := by
  refine (complete e ha).expr _ s read t rest hb ht ?_
  rw [hb.rest, List.length_append, parseDepth]
  omega

/-- The parser takes exactly the text of the tree that it gives, and that tree keeps to the levels,
where a function can also be the last operand. Every such tree, and so every one of the levels
(`Leveled.accepted`), is read back, up to places, from its text before a closing delimiter, and all
of the text is taken. -/
theorem parse_expr_exact (tokens : List Token) (nextId : Nat) :
    (∀ e s', (ParseState.enter tokens nextId).expr = .ok (e, s') →
      e.Accepted ∧ ∃ read, tokens = read ++ s'.rest ∧ Spelled read e.yield) ∧
    ∀ (e : Expr) read closing rest, e.Accepted → tokens = read ++ closing :: rest →
      closing.kind = .closing → Spelled read e.yield →
      ∃ e' s', (ParseState.enter tokens nextId).expr = .ok (e', s') ∧ e'.bare = e.bare ∧
        s'.rest = closing :: rest := by
  constructor
  · intro e s' h
    have hs : (ParseState.enter tokens nextId).Ended := ⟨rfl, rfl⟩
    obtain ⟨ht, ha⟩ := ParseState.expr_takes hs h
    exact ⟨ha, ht.spelled⟩
  · intro e read closing rest he htokens hk hs
    exact ParseState.expr_gives he ⟨htokens, hs⟩ (.of_kind hk (by decide))

/-- The tokens of `y = a - b | f((x) -> x)` and of a closing brace, all at one place. -/
def assignedPipe : List Token :=
  [⟨.identifier, "y", .point 0, none⟩, ⟨.equal, "=", .point 0, none⟩,
    ⟨.identifier, "a", .point 0, none⟩, ⟨.minus, "-", .point 0, none⟩,
    ⟨.identifier, "b", .point 0, none⟩, ⟨.pipe, "|", .point 0, none⟩,
    ⟨.identifier, "f", .point 0, none⟩, ⟨.leftParen, "(", .point 0, none⟩,
    ⟨.leftParen, "(", .point 0, none⟩, ⟨.identifier, "x", .point 0, none⟩,
    ⟨.rightParen, ")", .point 0, none⟩, ⟨.arrow, "->", .point 0, none⟩,
    ⟨.identifier, "x", .point 0, none⟩, ⟨.rightParen, ")", .point 0, none⟩]

def assignedPipeTree : Expr :=
  let name (text : String) : Token := ⟨.identifier, text, .point 0, none⟩
  let read (text : String) : Expr := .name bareSite (name text)
  .assign bareSite (name "y")
    (.binary bareSite .pipe ⟨.pipe, "", .point 0, none⟩
      (.binary bareSite (.binary (.arith .sub)) ⟨.minus, "", .point 0, none⟩ (read "a") (read "b"))
      (.call bareSite (read "f") ⟨.rightParen, "", .point 0, none⟩
        [.lambda bareSite [name "x"] (read "x")]))

theorem parse_expr_exact_assignedPipe :
    assignedPipeTree.Leveled ∧ Spelled assignedPipe assignedPipeTree.yield ∧
      ∃ e' s', (ParseState.enter (assignedPipe ++ [⟨.closing, "\x7d", .point 0, none⟩]) 0).expr =
        .ok (e', s') ∧ e'.bare = assignedPipeTree.bare ∧ e'.Accepted := by
  have hl : assignedPipeTree.Leveled := by
    simp [assignedPipeTree, Leveled, Fits, FitItems, Operator.ofToken?, level, Operator.level]
  have hs : Spelled assignedPipe assignedPipeTree.yield := by
    refine .token ⟨rfl, rfl⟩ (.token rfl (.token ⟨rfl, rfl⟩ (.token rfl (.token ⟨rfl, rfl⟩
      (.token rfl (.token ⟨rfl, rfl⟩ (.token rfl (.parameter rfl rfl rfl rfl
        (.token ⟨rfl, rfl⟩ (.token rfl .nil))))))))))
  have hexact := parse_expr_exact (assignedPipe ++ [⟨.closing, "\x7d", .point 0, none⟩]) 0
  obtain ⟨e', s', he, hb, -⟩ := hexact.2 assignedPipeTree _ _ [] hl.accepted rfl rfl hs
  exact ⟨hl, hs, e', s', he, hb, (hexact.1 e' s' he).1⟩

/-- The tokens of `1 + x -> x`. -/
def addedFunction : List Token :=
  [⟨.number, "1", ⟨0, 1⟩, some (.int 1)⟩, ⟨.plus, "+", ⟨2, 3⟩, none⟩,
    ⟨.identifier, "x", ⟨4, 5⟩, none⟩, ⟨.arrow, "->", ⟨6, 8⟩, none⟩,
    ⟨.identifier, "x", ⟨9, 10⟩, none⟩]

/-- A function as an operand, which the levels do not provide for, is taken all the same. -/
theorem parse_expr_addedFunction :
    ∃ e s', (ParseState.enter (addedFunction ++ [⟨.closing, "\x7d", ⟨10, 11⟩, none⟩]) 0).expr =
        .ok (e, s') ∧ Spelled addedFunction e.yield ∧ s'.rest.length = 1 ∧ ¬e.Leveled := by
  refine ⟨.binary ⟨3, ⟨0, 10⟩⟩ (.binary (.arith .add)) ⟨.plus, "+", ⟨2, 3⟩, none⟩
    (.constant ⟨0, ⟨0, 1⟩⟩ (.literal (.int 1)))
    (.lambda ⟨2, ⟨4, 10⟩⟩ [⟨.identifier, "x", ⟨4, 5⟩, none⟩]
      (.name ⟨1, ⟨9, 10⟩⟩ ⟨.identifier, "x", ⟨9, 10⟩, none⟩)), _, rfl, ?_, rfl, ?_⟩
  · exact .token ⟨.inl rfl, rfl⟩ (.token rfl (.token ⟨rfl, rfl⟩ (.token rfl
      (.token ⟨rfl, rfl⟩ .nil))))
  · rintro ⟨-, -, hr, -⟩
    exact absurd hr (by decide)

end DocTemplate
