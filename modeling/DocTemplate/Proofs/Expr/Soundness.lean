import DocTemplate.Proofs.Expr.Grammar
import DocTemplate.Proofs.Outcome

namespace DocTemplate

open DocTemplate.Expr

def Token.Accesses (t : Token) : Prop :=
  t.kind = .leftParen ∨ t.kind = .dot ∨ t.kind = .dotQuestion

namespace ParseState

def Ended (s : ParseState) : Prop :=
  s.last.kind = .endOfGroup ∧ s.last.isMemberName = false

def AtAccess (s : ParseState) : Prop := s.current.Accesses

def Halted (s : ParseState) : Prop := Operator.ofToken? s.kind = none ∧ ¬ s.AtAccess

structure Takes (s s' : ParseState) (marks : List Mark) : Prop where
  last : s'.last = s.last
  spelled : ∃ read, s.rest = read ++ s'.rest ∧ Spelled read marks

variable {s s' s'' : ParseState} {marks marks' : List Mark} {kind : TokenKind} {t : Token}

namespace Takes

theorem refl (s : ParseState) : s.Takes s [] := ⟨rfl, [], rfl, .nil⟩

theorem trans (h : s.Takes s' marks) (h' : s'.Takes s'' marks') :
    s.Takes s'' (marks ++ marks') := by
  obtain ⟨read, hr, hm⟩ := h.spelled
  obtain ⟨read', hr', hm'⟩ := h'.spelled
  refine ⟨h'.last.trans h.last, read ++ read', ?_, hm.append hm'⟩
  rw [hr, hr', List.append_assoc]

theorem ended (h : s.Takes s' marks) (he : s.Ended) : s'.Ended := by
  rw [Ended, h.last]
  exact he

end Takes

theorem rest_cases (s : ParseState) :
    s.rest = s.current :: s.advance.rest ∨ s.current = s.last := by
  obtain ⟨rest, nextId, last, closer⟩ := s
  cases rest with
  | nil => exact .inr rfl
  | cons t rest => exact .inl rfl

theorem takes_current {m : Mark} (h : s.current ≠ s.last) (hm : s.current.Shows m) :
    s.Takes s.advance [m] := by
  rcases s.rest_cases with hr | hr
  · exact ⟨rfl, [s.current], hr, .single hm⟩
  · exact absurd hr h

theorem current_ne_last (he : s.Ended) (hk : s.kind ≠ .endOfGroup) : s.current ≠ s.last :=
  fun h => hk (by rw [kind, h]; exact he.1)

theorem takes_sign (he : s.Ended) (hk : s.kind = kind) (hne : kind ≠ .endOfGroup) :
    s.Takes s.advance [.sign kind] :=
  takes_current (current_ne_last he (hk ▸ hne)) hk

theorem takes_member (he : s.Ended) (hm : s.current.isMemberName) :
    s.Takes s.advance [s.current.nameMark] := by
  refine takes_current (fun h => ?_) ⟨rfl, rfl⟩
  rw [h, he.2] at hm
  cases hm

theorem takes_expect {cause : ParseCause} (he : s.Ended) (hne : kind ≠ .endOfGroup)
    (h : s.expect kind cause = .ok (t, s')) : s.Takes s' [.sign kind] ∧ t.kind = kind := by
  unfold expect at h
  split at h
  · rename_i hk
    obtain ⟨rfl, rfl⟩ := Prod.mk.inj (Except.ok.inj h)
    exact ⟨takes_sign he hk hne, hk⟩
  · cases h

theorem Takes.numbered (h : s.Takes s' marks) (nextId : Nat) :
    s.Takes { s' with nextId } marks := ⟨h.last, h.spelled⟩

end ParseState

open ParseState

theorem closedParams?_spelled {tokens params rest : List Token}
    (h : closedParams? tokens = some (params, rest)) :
    params ≠ [] ∧ (∀ param ∈ params, param.kind = .identifier) ∧ ∃ read closing,
      closing.kind = .rightParen ∧ tokens = read ++ closing :: rest ∧
        Spelled read ((params.map Token.nameMark).intersperse (.sign .comma)) := by
  fun_induction closedParams? tokens generalizing params with
  | case1 => cases h
  | case2 name mark rest' hname hmark =>
    obtain ⟨rfl, rfl⟩ := Prod.mk.inj (Option.some.inj h)
    refine ⟨by simp, by simpa using hname, [name], mark, hmark, rfl, .single ⟨rfl, rfl⟩⟩
  | case3 name mark rest' hname hmark hcomma ih =>
    obtain ⟨⟨names, rest₁⟩, hn, he⟩ := Option.map_eq_some_iff.mp h
    obtain ⟨rfl, rfl⟩ := Prod.mk.inj he
    obtain ⟨hne, hid, read, closing, hc, rfl, hs⟩ := ih hn
    refine ⟨by simp, by simpa using ⟨Decidable.not_not.mp hname, hid⟩, name :: mark :: read,
      closing, hc, rfl, ?_⟩
    obtain ⟨first, names, rfl⟩ := List.exists_cons_of_ne_nil hne
    exact .token ⟨rfl, rfl⟩ (.token hcomma hs)
  | case4 => cases h
  | case5 => cases h

theorem spelled_parameters {opening closing arrow : Token} {read params : List Token}
    (ho : opening.kind = .leftParen) (hc : closing.kind = .rightParen) (ha : arrow.kind = .arrow)
    (hid : ∀ param ∈ params, param.kind = .identifier)
    (hs : Spelled read ((params.map Token.nameMark).intersperse (.sign .comma))) :
    Spelled (opening :: read ++ [closing, arrow]) (parameterMarks params ++ [.sign .arrow]) := by
  have hmany : Spelled (opening :: read ++ [closing, arrow])
      (.sign .leftParen :: (params.map Token.nameMark).intersperse (.sign .comma) ++
        [.sign .rightParen, .sign .arrow]) :=
    .token ho (hs.append (.token hc (.single ha)))
  match params with
  | [] => simpa [parameterMarks] using hmany
  | [param] =>
    obtain ⟨name, rfl, hn⟩ := Spelled.of_single hs
    have hm : name.nameMark = param.nameMark := by
      rw [Token.nameMark, hn.1, hn.2, Token.nameMark]
    rw [parameterMarks, ← hm]
    exact .parameter ho (hn.1.trans (hid param (by simp))) hc ha .nil
  | _ :: _ :: _ => simpa [parameterMarks] using hmany

theorem functionHead?_spelled {tokens params rest : List Token}
    (h : functionHead? tokens = some (params, rest)) :
    (∀ param ∈ params, param.kind = .identifier) ∧ ∃ read, tokens = read ++ rest ∧
      Spelled read (parameterMarks params ++ [.sign .arrow]) := by
  unfold functionHead? at h
  dsimp only at h
  split at h
  · rename_i params' arrow rest' hb
    split at h
    · rename_i ha
      obtain ⟨rfl, rfl⟩ := Prod.mk.inj (Option.some.inj h)
      split at hb
      · rename_i t tokens
        split at hb
        · rename_i ht
          obtain ⟨rfl, rfl⟩ := Prod.mk.inj (Option.some.inj hb)
          exact ⟨by simpa using ht, [t, arrow], rfl, .token ⟨rfl, rfl⟩ (.single ha)⟩
        · split at hb
          · rename_i ht
            split at hb
            · rename_i c tokens'
              split at hb
              · rename_i hc
                obtain ⟨rfl, rfl⟩ := Prod.mk.inj (Option.some.inj hb)
                have hs : Spelled (t :: [] ++ [c, arrow]) (parameterMarks [] ++ [.sign .arrow]) :=
                  spelled_parameters ht hc ha (by simp) .nil
                exact ⟨by simp, [t, c, arrow], rfl, hs⟩
              · obtain ⟨-, hid, read, closing, hc, he, hs⟩ := closedParams?_spelled hb
                exact ⟨hid, t :: read ++ [closing, arrow], by simp [he],
                  spelled_parameters ht hc ha hid hs⟩
            · cases hb
          · cases hb
      · cases hb
    · cases h
  · cases h

/-- From one state to the other the text of an expression is taken, which can be the last operand
at this level. -/
structure Operand (least : Nat) (s s' : ParseState) (e : Expr) : Prop where
  takes : s.Takes s' e.yield
  accepted : e.Accepted
  level : least ≤ e.operandLevel
  halted : e.endsInFunction → s'.Halted

def Follows (e : Expr) (s : ParseState) : Prop :=
  ∀ op, Operator.ofToken? s.kind = some op → op.level < e.operandLevel

structure ParsersTake (n : Nat) : Prop where
  expr : ∀ s e s', s.Ended → parseExpr n s = .ok (e, s') → Operand 0 s s' e ∧ s'.Halted
  binary : ∀ least s e s', least ≤ 8 → s.Ended → parseBinary n least s = .ok (e, s') →
    Operand (least + 1) s s' e ∧ ¬ s'.AtAccess ∧
      ∀ op, Operator.ofToken? s'.kind = some op → op.level < least
  unary : ∀ s e s', s.Ended → parseUnary n s = .ok (e, s') → Operand 9 s s' e ∧ ¬ s'.AtAccess
  primary : ∀ s e s', s.Ended → parsePrimary n s = .ok (e, s') → Operand 10 s s' e
  items : ∀ stop s es s', s.Ended → parseItems n stop s = .ok (es, s') →
    s.Takes s' (yieldOfItems es) ∧ FitItems lastOperand es
  someItems : ∀ s es s', s.Ended → parseSomeItems n s = .ok (es, s') →
    es ≠ [] ∧ s.Takes s' (yieldOfItems es) ∧ FitItems lastOperand es
  branches : ∀ s branches s', s.Ended → parseBranches n s = .ok (branches, s') →
    s.Takes s' (yieldOfBranches branches) ∧ FitBranches lastOperand branches
  otherwise : ∀ s e s', s.Ended → parseOtherwise n s = .ok (e, s') →
    s.Takes s' (yieldOfOptional e) ∧ FitOptional lastOperand e
  operators : ∀ least s₀ left s e s', s₀.Ended → Operand (least + 1) s₀ s left →
    Follows left s → ¬ s.AtAccess → parseOperators n least left s = .ok (e, s') →
    Operand (least + 1) s₀ s' e ∧ ¬ s'.AtAccess ∧
      ∀ op, Operator.ofToken? s'.kind = some op → op.level < least
  accesses : ∀ s₀ e s e' s', s₀.Ended → Operand 10 s₀ s e → parsePostfix n e s = .ok (e', s') →
    Operand 9 s₀ s' e' ∧ ¬ s'.AtAccess

theorem Operator.level_lt (op : Operator) : op.level < 8 := by
  cases op with
  | binary op =>
    cases op with
    | arith op => cases op <;> decide
    | order op => cases op <;> decide
    | eq => decide
    | ne => decide
  | _ => decide

theorem Operator.ofToken?_ne_end {kind : TokenKind} {op : Operator}
    (h : Operator.ofToken? kind = some op) : kind ≠ .endOfGroup := by
  rintro rfl
  cases h

theorem Operand.closed {least : Nat} {s s' : ParseState} {e : Expr} (ht : s.Takes s' e.yield)
    (ha : e.Accepted) (hl : least ≤ e.operandLevel) (hf : e.endsInFunction = false) :
    Operand least s s' e :=
  ⟨ht, ha, hl, fun h => absurd (hf.symm.trans h) Bool.false_ne_true⟩

theorem Operand.not_endsInFunction {least : Nat} {s s' : ParseState} {e : Expr}
    (h : Operand least s s' e) (hn : ¬ s'.Halted) : e.endsInFunction = false := by
  cases he : e.endsInFunction with
  | false => rfl
  | true => exact absurd (h.halted he) hn

namespace ParsersTake

variable {n : Nat}

theorem assignTo?_takes {s s' s'' : ParseState} {target value e : Expr}
    (ht : Operand 1 s s' target) (hk : s'.Ended) (hs : s'.kind = .equal)
    (hv : Operand 0 s'.advance s'' value) (h : target.assignTo? value = some e) :
    Operand 0 s s'' e := by
  have hval := ((ht.takes.trans (takes_sign hk hs (by decide))).trans hv.takes)
  cases target with
  | name site token =>
    obtain rfl := Option.some.inj h
    exact .closed hval ⟨ht.accepted, hv.accepted⟩ (Nat.zero_le _) rfl
  | get site object member optional =>
    cases optional with
    | true => cases h
    | false =>
      obtain rfl := Option.some.inj h
      obtain ⟨hm, hl, ho⟩ := ht.accepted
      refine .closed ?_ ⟨hm, hl, ho, hv.accepted⟩ (Nat.zero_le _) rfl
      simpa [yield] using hval
  | _ => cases h

theorem expr_succ (h : ParsersTake n) (s : ParseState) (e : Expr) (s' : ParseState) (hs : s.Ended)
    (he : parseExpr (n + 1) s = .ok (e, s')) : Operand 0 s s' e ∧ s'.Halted := by
  rw [parseExpr] at he
  obtain ⟨⟨target, s₁⟩, ht, he⟩ := bind_eq_ok.mp he
  obtain ⟨hot, hacc, hop⟩ := h.binary 0 s target s₁ (by decide) hs ht
  have hs₁ := hot.takes.ended hs
  dsimp only at he
  split at he
  · rename_i hk
    obtain ⟨⟨value, s₂⟩, hv, he⟩ := bind_eq_ok.mp he
    obtain ⟨hov, hh⟩ := h.expr s₁.advance value s₂ hs₁ hv
    dsimp only at he
    split at he
    · rename_i e' ha
      obtain ⟨rfl, rfl⟩ := Prod.mk.inj (Except.ok.inj he)
      exact ⟨assignTo?_takes hot hs₁ hk hov ha, hh⟩
    · cases he
  · obtain ⟨rfl, rfl⟩ := Prod.mk.inj (Except.ok.inj he)
    refine ⟨⟨hot.takes, hot.accepted, Nat.zero_le _, hot.halted⟩, ?_, hacc⟩
    cases ho : Operator.ofToken? s₁.kind with
    | none => rfl
    | some op => exact absurd (hop op ho) (Nat.not_lt_zero _)

theorem binary_succ (h : ParsersTake n) (least : Nat) (s : ParseState) (e : Expr)
    (s' : ParseState) (hl : least ≤ 8) (hs : s.Ended)
    (he : parseBinary (n + 1) least s = .ok (e, s')) :
    Operand (least + 1) s s' e ∧ ¬ s'.AtAccess ∧
      ∀ op, Operator.ofToken? s'.kind = some op → op.level < least := by
  rw [parseBinary] at he
  obtain ⟨⟨left, s₁⟩, hleft, he⟩ := bind_eq_ok.mp he
  obtain ⟨ho, hacc⟩ := h.unary s left s₁ hs hleft
  have hlevel := ho.level
  refine h.operators least s left s₁ e s' hs ?_ (fun op _ => ?_) hacc he
  · exact ⟨ho.takes, ho.accepted, by omega, ho.halted⟩
  · have := op.level_lt
    omega

theorem operators_succ (h : ParsersTake n) (least : Nat) (s₀ : ParseState) (left : Expr)
    (s : ParseState) (e : Expr) (s' : ParseState) (hs : s₀.Ended)
    (hl : Operand (least + 1) s₀ s left) (hf : Follows left s) (ha : ¬ s.AtAccess)
    (he : parseOperators (n + 1) least left s = .ok (e, s')) :
    Operand (least + 1) s₀ s' e ∧ ¬ s'.AtAccess ∧
      ∀ op, Operator.ofToken? s'.kind = some op → op.level < least := by
  rw [parseOperators] at he
  have hs₁ := hl.takes.ended hs
  split at he
  · rename_i hop
    obtain ⟨rfl, rfl⟩ := Prod.mk.inj (Except.ok.inj he)
    refine ⟨hl, ha, fun op ho => ?_⟩
    rw [hop] at ho
    cases ho
  · rename_i op hop
    split at he
    · rename_i hlt
      obtain ⟨rfl, rfl⟩ := Prod.mk.inj (Except.ok.inj he)
      refine ⟨hl, ha, fun op' ho => ?_⟩
      rw [hop] at ho
      exact Option.some.inj ho ▸ hlt
    · rename_i hge
      obtain ⟨⟨right, s₁⟩, hr, he⟩ := bind_eq_ok.mp he
      obtain ⟨hor, hacc, hnext⟩ := h.binary _ s.advance right s₁ op.level_lt hs₁ hr
      have hclosed : left.endsInFunction = false := by
        refine hl.not_endsInFunction fun hh => ?_
        rw [hh.1] at hop
        cases hop
      refine h.operators least s₀ _ _ e s' hs ?_ ?_ ?_ he
      · refine ⟨?_, ?_, ?_, ?_⟩
        · have hk : s.kind = s.current.kind := rfl
          have ht := (hl.takes.trans
            (takes_sign hs₁ hk (Operator.ofToken?_ne_end hop))).trans hor.takes
          simpa [yield] using ht.numbered _
        · exact ⟨hop, ⟨hf op hop, .inr hclosed⟩, ⟨hor.level, .inl rfl⟩, hl.accepted,
            hor.accepted⟩
        · show least + 1 ≤ op.level + 1
          omega
        · exact hor.halted
      · exact fun op' ho => hnext op' ho
      · exact hacc

theorem unary_succ (h : ParsersTake n) (s : ParseState) (e : Expr) (s' : ParseState) (hs : s.Ended)
    (he : parseUnary (n + 1) s = .ok (e, s')) : Operand 9 s s' e ∧ ¬ s'.AtAccess := by
  rw [parseUnary] at he
  split at he
  · rename_i op hop
    obtain ⟨⟨operand, s₁⟩, ho, he⟩ := bind_eq_ok.mp he
    obtain ⟨rfl, rfl⟩ := Prod.mk.inj (Except.ok.inj he)
    have hne : s.kind ≠ .endOfGroup := by
      intro hk
      rw [hk] at hop
      cases hop
    obtain ⟨ht, ha⟩ := h.unary s.advance operand s₁ hs ho
    exact ⟨⟨((takes_sign hs rfl hne).trans ht.takes).numbered _,
      ⟨hop, ⟨ht.level, .inl rfl⟩, ht.accepted⟩, Nat.le_refl _, ht.halted⟩, ha⟩
  · obtain ⟨⟨e₁, s₁⟩, hp, he⟩ := bind_eq_ok.mp he
    exact h.accesses s e₁ s₁ e s' hs (h.primary s e₁ s₁ hs hp) he

theorem member_succ (h : ParsersTake n) {s₀ s s' : ParseState} {e e' : Expr} {optional : Bool}
    (hs : s₀.Ended) (ho : Operand 10 s₀ s e) (hc : e.endsInFunction = false)
    (hk : s.kind = if optional then .dotQuestion else .dot)
    (he : (if !s.advance.current.isMemberName then s.advance.fail .memberName
      else parsePostfix n
        (s.advance.advance.number (e.span.merge s.advance.current.span)
          (.get · e s.advance.current optional)).1
        (s.advance.advance.number (e.span.merge s.advance.current.span)
          (.get · e s.advance.current optional)).2) = .ok (e', s')) :
    Operand 9 s₀ s' e' ∧ ¬ s'.AtAccess := by
  have hs₁ := ho.takes.ended hs
  split at he
  · cases he
  · rename_i hm
    have hm : s.advance.current.isMemberName := by simpa using hm
    have hne : (if optional then TokenKind.dotQuestion else .dot) ≠ .endOfGroup := by
      cases optional <;> decide
    refine h.accesses s₀ _ _ e' s' hs ?_ he
    refine .closed ?_ ⟨hm, ⟨ho.level, .inr hc⟩, ho.accepted⟩ (Nat.le_refl _) rfl
    exact (ho.takes.trans ((takes_sign hs₁ hk hne).trans (takes_member hs₁ hm))).numbered _

theorem accesses_succ (h : ParsersTake n) (s₀ : ParseState) (e : Expr) (s : ParseState)
    (e' : Expr) (s' : ParseState) (hs : s₀.Ended) (ho : Operand 10 s₀ s e)
    (he : parsePostfix (n + 1) e s = .ok (e', s')) : Operand 9 s₀ s' e' ∧ ¬ s'.AtAccess := by
  rw [parsePostfix] at he
  have hs₁ := ho.takes.ended hs
  have hclosed (ha : s.AtAccess) : e.endsInFunction = false :=
    ho.not_endsInFunction fun hh => hh.2 ha
  split at he
  · rename_i hk
    obtain ⟨⟨args, s₁⟩, ha, he⟩ := bind_eq_ok.mp he
    obtain ⟨⟨paren, s₂⟩, hp, he⟩ := bind_eq_ok.mp he
    obtain ⟨hta, hfa⟩ := h.items .rightParen s.advance args s₁ hs₁ ha
    obtain ⟨htp, hpk⟩ := takes_expect (hta.ended hs₁) (by decide) hp
    refine h.accesses s₀ _ _ e' s' hs ?_ he
    refine .closed ?_ ⟨hpk, ⟨ho.level, .inr (hclosed (.inl hk))⟩, ho.accepted, hfa⟩
      (Nat.le_refl _) rfl
    have ht := ho.takes.trans ((takes_sign hs₁ hk (by decide)).trans (hta.trans htp))
    simpa [yield] using ht.numbered _
  · rename_i hk
    refine h.member_succ hs ho (hclosed (.inr (.inl hk))) ?_ he
    simp [hk]
  · rename_i hk
    refine h.member_succ hs ho (hclosed (.inr (.inr hk))) ?_ he
    simp [hk]
  · rename_i hp hd hq
    obtain ⟨rfl, rfl⟩ := Prod.mk.inj (Except.ok.inj he)
    have hl := ho.level
    refine ⟨⟨ho.takes, ho.accepted, by omega, ho.halted⟩, ?_⟩
    rintro (hk | hk | hk)
    · exact hp hk
    · exact hd hk
    · exact hq hk

theorem items_succ (h : ParsersTake n) (stop : TokenKind) (s : ParseState) (es : List Expr)
    (s' : ParseState) (hs : s.Ended) (he : parseItems (n + 1) stop s = .ok (es, s')) :
    s.Takes s' (yieldOfItems es) ∧ FitItems lastOperand es := by
  rw [parseItems] at he
  split at he
  · obtain ⟨rfl, rfl⟩ := Prod.mk.inj (Except.ok.inj he)
    exact ⟨.refl s, trivial⟩
  · exact (h.someItems s es s' hs he).2

theorem someItems_succ (h : ParsersTake n) (s : ParseState) (es : List Expr) (s' : ParseState)
    (hs : s.Ended) (he : parseSomeItems (n + 1) s = .ok (es, s')) :
    es ≠ [] ∧ s.Takes s' (yieldOfItems es) ∧ FitItems lastOperand es := by
  rw [parseSomeItems] at he
  obtain ⟨⟨e, s₁⟩, hf, he⟩ := bind_eq_ok.mp he
  obtain ⟨ho, -⟩ := h.expr s e s₁ hs hf
  have hs₁ := ho.takes.ended hs
  dsimp only at he
  split at he
  · rename_i hk
    obtain ⟨⟨rest, s₂⟩, hr, he⟩ := bind_eq_ok.mp he
    obtain ⟨rfl, rfl⟩ := Prod.mk.inj (Except.ok.inj he)
    obtain ⟨hne, ht, hfit⟩ := h.someItems s₁.advance rest s₂ hs₁ hr
    refine ⟨by simp, ?_, ho.accepted, hfit⟩
    obtain ⟨e₂, es, rfl⟩ := List.exists_cons_of_ne_nil hne
    exact ho.takes.trans ((takes_sign hs₁ hk (by decide)).trans ht)
  · obtain ⟨rfl, rfl⟩ := Prod.mk.inj (Except.ok.inj he)
    exact ⟨by simp, ho.takes, ho.accepted, trivial⟩

theorem branches_succ (h : ParsersTake n) (s : ParseState) (branches : List (Expr × Expr))
    (s' : ParseState) (hs : s.Ended) (he : parseBranches (n + 1) s = .ok (branches, s')) :
    s.Takes s' (yieldOfBranches branches) ∧ FitBranches lastOperand branches := by
  rw [parseBranches] at he
  split at he
  · rename_i hk
    obtain ⟨⟨condition, s₁⟩, hc, he⟩ := bind_eq_ok.mp he
    obtain ⟨⟨_, s₂⟩, hg, he⟩ := bind_eq_ok.mp he
    obtain ⟨⟨result, s₃⟩, hr, he⟩ := bind_eq_ok.mp he
    obtain ⟨⟨rest, s₄⟩, hb, he⟩ := bind_eq_ok.mp he
    obtain ⟨rfl, rfl⟩ := Prod.mk.inj (Except.ok.inj he)
    obtain ⟨hoc, -⟩ := h.expr s.advance condition s₁ hs hc
    have hs₁ := hoc.takes.ended hs
    obtain ⟨htg, -⟩ := takes_expect hs₁ (by decide) hg
    have hs₂ := htg.ended hs₁
    obtain ⟨hor, -⟩ := h.expr s₂ result s₃ hs₂ hr
    obtain ⟨htb, hfb⟩ := h.branches s₃ rest s₄ (hor.takes.ended hs₂) hb
    refine ⟨?_, hoc.accepted, hor.accepted, hfb⟩
    have ht := (takes_sign hs hk (by decide)).trans
      (hoc.takes.trans (htg.trans (hor.takes.trans htb)))
    simpa [yieldOfBranches] using ht
  · obtain ⟨rfl, rfl⟩ := Prod.mk.inj (Except.ok.inj he)
    exact ⟨.refl s, trivial⟩

theorem otherwise_succ (h : ParsersTake n) (s : ParseState) (e : Option Expr) (s' : ParseState)
    (hs : s.Ended) (he : parseOtherwise (n + 1) s = .ok (e, s')) :
    s.Takes s' (yieldOfOptional e) ∧ FitOptional lastOperand e := by
  rw [parseOtherwise] at he
  split at he
  · rename_i hk
    obtain ⟨⟨e₁, s₁⟩, hf, he⟩ := bind_eq_ok.mp he
    obtain ⟨rfl, rfl⟩ := Prod.mk.inj (Except.ok.inj he)
    obtain ⟨ho, -⟩ := h.expr s.advance e₁ s₁ hs hf
    exact ⟨(takes_sign hs hk (by decide)).trans ho.takes, ho.accepted⟩
  · obtain ⟨rfl, rfl⟩ := Prod.mk.inj (Except.ok.inj he)
    exact ⟨.refl s, trivial⟩

theorem primary_succ (h : ParsersTake n) (s : ParseState) (e : Expr) (s' : ParseState)
    (hs : s.Ended) (he : parsePrimary (n + 1) s = .ok (e, s')) : Operand 10 s s' e := by
  rw [parsePrimary] at he
  split at he
  · rename_i params rest hhead
    obtain ⟨⟨body, s₁⟩, hb, he⟩ := bind_eq_ok.mp he
    obtain ⟨rfl, rfl⟩ := Prod.mk.inj (Except.ok.inj he)
    obtain ⟨hid, hread⟩ := functionHead?_spelled hhead
    obtain ⟨ho, hh⟩ := h.expr { s with rest } body s₁ hs hb
    have ht : s.Takes { s with rest } (parameterMarks params ++ [.sign .arrow]) := ⟨rfl, hread⟩
    refine ⟨?_, ⟨hid, ho.accepted⟩, (by decide : 10 ≤ 11), fun _ => hh⟩
    simpa [yield] using (ht.trans ho.takes).numbered _
  · dsimp only at he
    split at he
    · rename_i hk
      obtain ⟨rfl, rfl⟩ := Prod.mk.inj (Except.ok.inj he)
      have hne := current_ne_last hs (by rw [ParseState.kind, hk]; decide)
      have hm : s.current.Shows s.current.nameMark := ⟨rfl, rfl⟩
      exact .closed ((takes_current hne hm).numbered _) hk (by decide : 10 ≤ 11) rfl
    · rename_i hk
      obtain ⟨⟨inner, s₁⟩, hi, he⟩ := bind_eq_ok.mp he
      obtain ⟨⟨close, s₂⟩, hc, he⟩ := bind_eq_ok.mp he
      obtain ⟨rfl, rfl⟩ := Prod.mk.inj (Except.ok.inj he)
      obtain ⟨ho, -⟩ := h.expr s.advance inner s₁ hs hi
      obtain ⟨htc, -⟩ := takes_expect (ho.takes.ended hs) (by decide) hc
      refine .closed ?_ ho.accepted (by decide : 10 ≤ 11) rfl
      exact ((takes_sign hs hk (by decide)).trans (ho.takes.trans htc)).numbered _
    · rename_i hk
      obtain ⟨⟨items, s₁⟩, hi, he⟩ := bind_eq_ok.mp he
      obtain ⟨⟨close, s₂⟩, hc, he⟩ := bind_eq_ok.mp he
      obtain ⟨rfl, rfl⟩ := Prod.mk.inj (Except.ok.inj he)
      obtain ⟨hti, hfi⟩ := h.items .rightBracket s.advance items s₁ hs hi
      obtain ⟨htc, -⟩ := takes_expect (hti.ended hs) (by decide) hc
      refine .closed ?_ hfi (by decide : 10 ≤ 11) rfl
      exact ((takes_sign hs hk (by decide)).trans (hti.trans htc)).numbered _
    · rename_i hk
      obtain ⟨⟨branches, s₁⟩, hb, he⟩ := bind_eq_ok.mp he
      dsimp only at he
      split at he
      · cases he
      · rename_i hne
        obtain ⟨⟨otherwise, s₂⟩, ho, he⟩ := bind_eq_ok.mp he
        obtain ⟨⟨close, s₃⟩, hc, he⟩ := bind_eq_ok.mp he
        obtain ⟨rfl, rfl⟩ := Prod.mk.inj (Except.ok.inj he)
        obtain ⟨htb, hfb⟩ := h.branches s.advance branches s₁ hs hb
        have hs₁ := htb.ended hs
        obtain ⟨hto, hfo⟩ := h.otherwise s₁ otherwise s₂ hs₁ ho
        obtain ⟨htc, -⟩ := takes_expect (hto.ended hs₁) (by decide) hc
        refine .closed ?_ ⟨by simpa using hne, hfb, hfo⟩ (by decide : 10 ≤ 11) rfl
        have ht := (takes_sign hs hk (by decide)).trans (htb.trans (hto.trans htc))
        simpa [yield] using ht.numbered _
    · split at he
      · rename_i value hv
        obtain ⟨rfl, rfl⟩ := Prod.mk.inj (Except.ok.inj he)
        have hne : s.kind ≠ .endOfGroup := by
          intro hk
          rw [Token.constant?, show s.current.kind = .endOfGroup from hk] at hv
          cases hv
        have hw : s.current.Shows (.constant value) := Token.writes_iff.mpr hv
        exact .closed ((takes_current (current_ne_last hs hne) hw).numbered _) trivial
          (by decide : 10 ≤ 11) rfl
      · cases he

theorem all (n : Nat) : ParsersTake n := by
  -- Every parser calls the others with less fuel only, so one induction does for all of them.
  induction n with
  | zero => constructor <;> intros <;> rename_i he <;> cases he
  | succ n h =>
    exact {
      expr := h.expr_succ
      binary := h.binary_succ
      unary := h.unary_succ
      primary := h.primary_succ
      items := h.items_succ
      someItems := h.someItems_succ
      branches := h.branches_succ
      otherwise := h.otherwise_succ
      operators := h.operators_succ
      accesses := h.accesses_succ }
end ParsersTake

theorem ParseState.expr_takes {s s' : ParseState} {e : Expr} (hs : s.Ended)
    (h : s.expr = .ok (e, s')) : s.Takes s' e.yield ∧ e.Accepted :=
  have ho := ((ParsersTake.all _).expr s e s' hs h).1
  ⟨ho.takes, ho.accepted⟩

end DocTemplate
