import DocTemplate.Program.Nodes
import DocTemplate.Program.Parse
import DocTemplate.Proofs.Expr.Soundness

namespace DocTemplate

open DocTemplate.Expr

theorem Expr.nodesOfItems_eq (es : List Expr) : nodesOfItems es = es.flatMap nodes := by
  induction es with
  | nil => rfl
  | cons e es ih => rw [nodesOfItems, List.flatMap_cons, ih]

theorem Expr.nodesOfBranches_eq (branches : List (Expr × Expr)) :
    nodesOfBranches branches =
      (branches.flatMap fun branch => [branch.1, branch.2]).flatMap nodes := by
  induction branches with
  | nil => rfl
  | cons branch branches ih => simp [nodesOfBranches, ih]

theorem Expr.nodesOfOptional_eq (e : Option Expr) : nodesOfOptional e = e.toList.flatMap nodes := by
  cases e <;> simp [nodesOfOptional]

theorem Expr.nodes_eq (e : Expr) : e.nodes = e :: e.parts.flatMap nodes := by
  cases e <;>
    simp [nodes, parts, nodesOfItems_eq, nodesOfBranches_eq, nodesOfOptional_eq]

def Expr.Fresh : Expr → Prop
  | assign _ _ _ | set _ _ _ _ => False
  | .name site token => site.span = token.span
  | get site object token _ => site.span = object.span.merge token.span
  | _ => True

theorem Expr.assignTo?_eq_some {target value e : Expr} (h : target.assignTo? value = some e) :
    e.site = ⟨target.site.id, target.span.merge value.span⟩ ∧
      e.parts = target.parts ++ [value] ∧ e.ownTokens = target.ownTokens := by
  cases target with
  | name site token =>
    obtain rfl := Option.some.inj h
    exact ⟨rfl, rfl, rfl⟩
  | get site object token optional =>
    cases optional with
    | true => cases h
    | false =>
      obtain rfl := Option.some.inj h
      exact ⟨rfl, rfl, rfl⟩
  | _ => cases h

/-- Expressions whose nodes take the numbers from one up to, but not including, another, in the
order in which they are complete. -/
inductive Consecutive : Nat → List Expr → Nat → Prop
  | nil (n : Nat) : Consecutive n [] n
  | node {lo hi : Nat} {e : Expr} {es : List Expr} (fresh : e.Fresh)
    (parts : Consecutive lo e.parts e.site.id) (rest : Consecutive (e.site.id + 1) es hi) :
    Consecutive lo (e :: es) hi
  | assign {lo mid hi : Nat} {target value e : Expr} {es : List Expr} (fresh : target.Fresh)
    (made : target.assignTo? value = some e) (parts : Consecutive lo target.parts target.site.id)
    (behind : Consecutive (target.site.id + 1) [value] mid) (rest : Consecutive mid es hi) :
    Consecutive lo (e :: es) hi

namespace Consecutive

variable {lo mid hi : Nat} {e target value : Expr} {es es' : List Expr}

theorem append (h : Consecutive lo es mid) (h' : Consecutive mid es' hi) :
    Consecutive lo (es ++ es') hi := by
  induction h with
  | nil n => exact h'
  | node fresh parts rest _ ih => exact .node fresh parts (ih h')
  | assign fresh made parts behind rest _ _ ih => exact .assign fresh made parts behind (ih h')

theorem complete (h : Consecutive lo e.parts e.site.id) (he : e.Fresh) :
    Consecutive lo [e] (e.site.id + 1) :=
  .node he h (.nil _)

theorem assignTo? (ht : Consecutive lo [target] mid) (hv : Consecutive mid [value] hi)
    (h : target.assignTo? value = some e) : Consecutive lo [e] hi := by
  cases ht with
  | node fresh parts rest =>
    cases rest
    exact .assign fresh h parts hv (.nil _)
  | assign fresh made parts behind rest =>
    -- an assignment is no target
    exfalso
    rename_i target' _
    cases target' with
    | name site token =>
      obtain rfl := Option.some.inj made
      cases h
    | get site object token optional =>
      cases optional with
      | true => cases made
      | false =>
        obtain rfl := Option.some.inj made
        cases h
    | _ => cases made

end Consecutive

namespace ParseState

variable {s s' s'' : ParseState} {kind : TokenKind} {cause : ParseCause} {t : Token}

theorem current_mem (hs : s.Ended) (hk : s.kind ≠ .endOfGroup) : s.current ∈ s.rest := by
  rcases s.rest_cases with hr | hr
  · rw [hr]
    exact List.mem_cons_self
  · exact absurd hr (current_ne_last hs hk)

theorem member_mem (hs : s.Ended) (hm : s.current.isMemberName) : s.current ∈ s.rest := by
  rcases s.rest_cases with hr | hr
  · rw [hr]
    exact List.mem_cons_self
  · rw [hr, hs.2] at hm
    cases hm

/-- From one state to the other, tokens of the group are made into these expressions. -/
structure Builds (s s' : ParseState) (es : List Expr) : Prop where
  last : s'.last = s.last
  rest : s'.rest <:+ s.rest
  consecutive : Consecutive s.nextId es s'.nextId
  tokens : ∀ e ∈ es.flatMap nodes, ∀ t ∈ e.ownTokens, t ∈ s.rest

namespace Builds

variable {e target value : Expr} {es es' : List Expr}

theorem ended (h : s.Builds s' es) (hs : s.Ended) : s'.Ended := by
  rw [Ended, h.last]
  exact hs

theorem still (hl : s'.last = s.last) (hr : s'.rest <:+ s.rest) (hn : s'.nextId = s.nextId) :
    s.Builds s' [] :=
  ⟨hl, hr, hn ▸ .nil _, by simp⟩

theorem refl (s : ParseState) : s.Builds s [] := .still rfl (List.suffix_refl _) rfl

theorem advance (s : ParseState) : s.Builds s.advance [] := .still rfl (List.tail_suffix _) rfl

theorem trans (h : s.Builds s' es) (h' : s'.Builds s'' es') : s.Builds s'' (es ++ es') where
  last := h'.last.trans h.last
  rest := h'.rest.trans h.rest
  consecutive := h.consecutive.append h'.consecutive
  tokens e he t ht := by
    rw [List.flatMap_append, List.mem_append] at he
    rcases he with he | he
    · exact h.tokens e he t ht
    · exact h.rest.subset (h'.tokens e he t ht)

theorem trans_still (h : s.Builds s' es) (h' : s'.Builds s'' []) : s.Builds s'' es :=
  List.append_nil es ▸ h.trans h'

theorem still_trans (h : s.Builds s' []) (h' : s'.Builds s'' es) : s.Builds s'' es := h.trans h'

theorem complete (h : s.Builds s' e.parts) (hid : e.site.id = s'.nextId) (he : e.Fresh)
    (ht : ∀ t ∈ e.ownTokens, t ∈ s.rest) :
    s.Builds { s' with nextId := s'.nextId + 1 } [e] where
  last := h.last
  rest := h.rest
  consecutive := by
    have hp := h.consecutive
    rw [← hid] at hp ⊢
    exact hp.complete he
  tokens e' he' := by
    rw [List.flatMap_singleton, nodes_eq, List.mem_cons] at he'
    rcases he' with rfl | he'
    · exact ht
    · exact h.tokens e' he'

theorem assignTo? (ht : s.Builds s' [target]) (hv : s'.Builds s'' [value])
    (h : target.assignTo? value = some e) : s.Builds s'' [e] where
  last := hv.last.trans ht.last
  rest := hv.rest.trans ht.rest
  consecutive := ht.consecutive.assignTo? hv.consecutive h
  tokens := by
    obtain ⟨-, hparts, hown⟩ := assignTo?_eq_some h
    have hall := (ht.trans hv).tokens
    intro e' he'
    rw [List.flatMap_singleton, nodes_eq, hparts, List.flatMap_append, List.mem_cons] at he'
    rw [List.flatMap_append, List.flatMap_singleton, nodes_eq target] at hall
    rcases he' with rfl | he'
    · rw [hown]
      exact hall target (by simp)
    · exact hall e' (List.mem_cons_of_mem _ he')

theorem expect (hs : s.Ended) (hk : kind ≠ .endOfGroup) (h : s.expect kind cause = .ok (t, s')) :
    s.Builds s' [] ∧ t ∈ s.rest := by
  unfold ParseState.expect at h
  split at h
  · rename_i hc
    obtain ⟨rfl, rfl⟩ := Prod.mk.inj (Except.ok.inj h)
    exact ⟨.advance s, current_mem hs (hc ▸ hk)⟩
  · cases h

end Builds

end ParseState

theorem closedParams?_subset {tokens params rest : List Token}
    (h : closedParams? tokens = some (params, rest)) : params ⊆ tokens := by
  fun_induction closedParams? tokens generalizing params rest with
  | case1 => cases h
  | case2 name mark rest' hname hmark =>
    obtain ⟨rfl, -⟩ := Prod.mk.inj (Option.some.inj h)
    simp
  | case3 name mark rest' hname hmark hcomma ih =>
    obtain ⟨⟨names, rest₁⟩, hn, he⟩ := Option.map_eq_some_iff.mp h
    obtain ⟨rfl, -⟩ := Prod.mk.inj he
    exact List.cons_subset_cons _ (List.subset_cons_of_subset _ (ih hn))
  | case4 => cases h
  | case5 => cases h

theorem functionHead?_subset {tokens params rest : List Token}
    (h : functionHead? tokens = some (params, rest)) : params ⊆ tokens := by
  unfold functionHead? at h
  dsimp only at h
  split at h
  · rename_i params' arrow rest' hb
    split at h
    · obtain ⟨rfl, -⟩ := Prod.mk.inj (Option.some.inj h)
      split at hb
      · split at hb
        · obtain ⟨rfl, -⟩ := Prod.mk.inj (Option.some.inj hb)
          simp
        · split at hb
          · split at hb
            · split at hb
              · obtain ⟨rfl, -⟩ := Prod.mk.inj (Option.some.inj hb)
                simp
              · exact List.subset_cons_of_subset _ (closedParams?_subset hb)
            · cases hb
          · cases hb
      · cases hb
    · cases h
  · cases h

def BuildsFrom {α : Type} (parts : α → List Expr) (s : ParseState)
    (result : Except ParseFault (α × ParseState)) : Prop :=
  s.Ended → ∀ a s', result = .ok (a, s') → s.Builds s' (parts a)

/-- That the parsers of expressions build what they give, with so much fuel. The last two start
with an operand that is built already. -/
structure ParsersBuild (n : Nat) : Prop where
  expr : ∀ s, BuildsFrom (fun e => [e]) s (parseExpr n s)
  binary : ∀ least s, BuildsFrom (fun e => [e]) s (parseBinary n least s)
  unary : ∀ s, BuildsFrom (fun e => [e]) s (parseUnary n s)
  primary : ∀ s, BuildsFrom (fun e => [e]) s (parsePrimary n s)
  items : ∀ stop s, BuildsFrom id s (parseItems n stop s)
  someItems : ∀ s, BuildsFrom id s (parseSomeItems n s)
  branches : ∀ s, BuildsFrom (fun branches => branches.flatMap fun b => [b.1, b.2]) s
    (parseBranches n s)
  otherwise : ∀ s, BuildsFrom Option.toList s (parseOtherwise n s)
  operators : ∀ least (s₀ : ParseState) left s e s', s₀.Ended → s₀.Builds s [left] →
    parseOperators n least left s = .ok (e, s') → s₀.Builds s' [e]
  accesses : ∀ (s₀ : ParseState) e s e' s', s₀.Ended → s₀.Builds s [e] →
    parsePostfix n e s = .ok (e', s') → s₀.Builds s' [e']

namespace ParsersBuild

open ParseState

variable {n : Nat}

theorem expr_succ (h : ParsersBuild n) (s : ParseState) :
    BuildsFrom (fun e => [e]) s (parseExpr (n + 1) s) := by
  intro hs e s' he
  rw [parseExpr] at he
  obtain ⟨⟨target, s₁⟩, ht, he⟩ := bind_eq_ok.mp he
  have hbt := h.binary 0 s hs target s₁ ht
  dsimp only at he
  split at he
  · obtain ⟨⟨value, s₂⟩, hv, he⟩ := bind_eq_ok.mp he
    have hbv := (Builds.advance s₁).still_trans (h.expr s₁.advance (hbt.ended hs) value s₂ hv)
    dsimp only at he
    split at he
    · rename_i e' ha
      obtain ⟨rfl, rfl⟩ := Prod.mk.inj (Except.ok.inj he)
      exact hbt.assignTo? hbv ha
    · cases he
  · obtain ⟨rfl, rfl⟩ := Prod.mk.inj (Except.ok.inj he)
    exact hbt

theorem binary_succ (h : ParsersBuild n) (least : Nat) (s : ParseState) :
    BuildsFrom (fun e => [e]) s (parseBinary (n + 1) least s) := by
  intro hs e s' he
  rw [parseBinary] at he
  obtain ⟨⟨left, s₁⟩, hl, he⟩ := bind_eq_ok.mp he
  exact h.operators least s left s₁ e s' hs (h.unary s hs left s₁ hl) he

theorem operators_succ (h : ParsersBuild n) (least : Nat) (s₀ : ParseState) (left : Expr)
    (s : ParseState) (e : Expr) (s' : ParseState) (hs : s₀.Ended) (hl : s₀.Builds s [left])
    (he : parseOperators (n + 1) least left s = .ok (e, s')) : s₀.Builds s' [e] := by
  rw [parseOperators] at he
  split at he
  · obtain ⟨rfl, rfl⟩ := Prod.mk.inj (Except.ok.inj he)
    exact hl
  · rename_i op hop
    split at he
    · obtain ⟨rfl, rfl⟩ := Prod.mk.inj (Except.ok.inj he)
      exact hl
    · obtain ⟨⟨right, s₁⟩, hr, he⟩ := bind_eq_ok.mp he
      have hs₁ := hl.ended hs
      have hbr := (Builds.advance s).still_trans (h.binary _ s.advance hs₁ right s₁ hr)
      have hop' := current_mem hs₁ (Operator.ofToken?_ne_end hop)
      refine h.operators least s₀ _ _ e s' hs ?_ he
      refine (hl.trans hbr).complete rfl trivial ?_
      simpa [ownTokens] using hl.rest.subset hop'

theorem unary_succ (h : ParsersBuild n) (s : ParseState) :
    BuildsFrom (fun e => [e]) s (parseUnary (n + 1) s) := by
  intro hs e s' he
  rw [parseUnary] at he
  split at he
  · rename_i op hop
    obtain ⟨⟨operand, s₁⟩, ho, he⟩ := bind_eq_ok.mp he
    obtain ⟨rfl, rfl⟩ := Prod.mk.inj (Except.ok.inj he)
    have hk : s.kind ≠ .endOfGroup := by
      intro hk
      rw [hk] at hop
      cases hop
    have hbo := (Builds.advance s).still_trans (h.unary s.advance hs operand s₁ ho)
    refine hbo.complete rfl trivial ?_
    simpa [ownTokens] using current_mem hs hk
  · obtain ⟨⟨e₁, s₁⟩, hp, he⟩ := bind_eq_ok.mp he
    exact h.accesses s e₁ s₁ e s' hs (h.primary s hs e₁ s₁ hp) he

theorem member_succ (h : ParsersBuild n) {s₀ s s' : ParseState} {e e' : Expr} {optional : Bool}
    (hs : s₀.Ended) (hb : s₀.Builds s [e])
    (he : (if !s.current.isMemberName then s.fail .memberName
      else parsePostfix n
        (s.advance.number (e.span.merge s.current.span) (.get · e s.current optional)).1
        (s.advance.number (e.span.merge s.current.span) (.get · e s.current optional)).2) =
        .ok (e', s')) : s₀.Builds s' [e'] := by
  split at he
  · cases he
  · rename_i hm
    have hm := hb.rest.subset (member_mem (hb.ended hs) (by simpa using hm))
    refine h.accesses s₀ _ _ e' s' hs ?_ he
    refine (hb.trans_still (.advance s)).complete rfl rfl ?_
    simpa [ParseState.number, ownTokens] using hm

theorem accesses_succ (h : ParsersBuild n) (s₀ : ParseState) (e : Expr) (s : ParseState)
    (e' : Expr) (s' : ParseState) (hs : s₀.Ended) (hb : s₀.Builds s [e])
    (he : parsePostfix (n + 1) e s = .ok (e', s')) : s₀.Builds s' [e'] := by
  rw [parsePostfix] at he
  have hs₁ := hb.ended hs
  have hb' := hb.trans_still (.advance s)
  split at he
  · obtain ⟨⟨args, s₁⟩, ha, he⟩ := bind_eq_ok.mp he
    obtain ⟨⟨paren, s₂⟩, hp, he⟩ := bind_eq_ok.mp he
    have hba := hb'.trans (h.items .rightParen s.advance hs₁ args s₁ ha)
    obtain ⟨hbp, hpm⟩ := Builds.expect (hba.ended hs) (by decide) hp
    refine h.accesses s₀ _ _ e' s' hs ?_ he
    refine (hba.trans_still hbp).complete rfl trivial ?_
    simpa [ownTokens] using hba.rest.subset hpm
  · exact h.member_succ hs hb' he
  · exact h.member_succ hs hb' he
  · obtain ⟨rfl, rfl⟩ := Prod.mk.inj (Except.ok.inj he)
    exact hb

theorem items_succ (h : ParsersBuild n) (stop : TokenKind) (s : ParseState) :
    BuildsFrom id s (parseItems (n + 1) stop s) := by
  intro hs es s' he
  rw [parseItems] at he
  split at he
  · obtain ⟨rfl, rfl⟩ := Prod.mk.inj (Except.ok.inj he)
    exact .refl s
  · exact h.someItems s hs es s' he

theorem someItems_succ (h : ParsersBuild n) (s : ParseState) :
    BuildsFrom id s (parseSomeItems (n + 1) s) := by
  intro hs es s' he
  rw [parseSomeItems] at he
  obtain ⟨⟨e, s₁⟩, hf, he⟩ := bind_eq_ok.mp he
  have hbf := h.expr s hs e s₁ hf
  dsimp only at he
  split at he
  · obtain ⟨⟨rest, s₂⟩, hr, he⟩ := bind_eq_ok.mp he
    obtain ⟨rfl, rfl⟩ := Prod.mk.inj (Except.ok.inj he)
    have hbr := h.someItems s₁.advance (hbf.ended hs) rest s₂ hr
    exact hbf.trans ((Builds.advance s₁).still_trans hbr)
  · obtain ⟨rfl, rfl⟩ := Prod.mk.inj (Except.ok.inj he)
    exact hbf

theorem branches_succ (h : ParsersBuild n) (s : ParseState) :
    BuildsFrom (fun branches => branches.flatMap fun b => [b.1, b.2]) s
      (parseBranches (n + 1) s) := by
  intro hs branches s' he
  rw [parseBranches] at he
  split at he
  · obtain ⟨⟨condition, s₁⟩, hc, he⟩ := bind_eq_ok.mp he
    obtain ⟨⟨_, s₂⟩, hg, he⟩ := bind_eq_ok.mp he
    obtain ⟨⟨result, s₃⟩, hr, he⟩ := bind_eq_ok.mp he
    obtain ⟨⟨rest, s₄⟩, hb, he⟩ := bind_eq_ok.mp he
    obtain ⟨rfl, rfl⟩ := Prod.mk.inj (Except.ok.inj he)
    have hbc := (Builds.advance s).still_trans (h.expr s.advance hs condition s₁ hc)
    have hbg := hbc.trans_still (Builds.expect (hbc.ended hs) (by decide) hg).1
    have hbr := hbg.trans (h.expr s₂ (hbg.ended hs) result s₃ hr)
    exact hbr.trans (h.branches s₃ (hbr.ended hs) rest s₄ hb)
  · obtain ⟨rfl, rfl⟩ := Prod.mk.inj (Except.ok.inj he)
    exact .refl s

theorem otherwise_succ (h : ParsersBuild n) (s : ParseState) :
    BuildsFrom Option.toList s (parseOtherwise (n + 1) s) := by
  intro hs e s' he
  rw [parseOtherwise] at he
  split at he
  · obtain ⟨⟨e, s₁⟩, hf, he⟩ := bind_eq_ok.mp he
    obtain ⟨rfl, rfl⟩ := Prod.mk.inj (Except.ok.inj he)
    exact (Builds.advance s).still_trans (h.expr s.advance hs e s₁ hf)
  · obtain ⟨rfl, rfl⟩ := Prod.mk.inj (Except.ok.inj he)
    exact .refl s

theorem primary_succ (h : ParsersBuild n) (s : ParseState) :
    BuildsFrom (fun e => [e]) s (parsePrimary (n + 1) s) := by
  intro hs e s' he
  rw [parsePrimary] at he
  split at he
  · rename_i params rest hhead
    obtain ⟨⟨body, s₁⟩, hb, he⟩ := bind_eq_ok.mp he
    obtain ⟨rfl, rfl⟩ := Prod.mk.inj (Except.ok.inj he)
    obtain ⟨-, read, hread, -⟩ := functionHead?_spelled hhead
    have hbh : s.Builds { s with rest } [] := .still rfl ⟨read, hread.symm⟩ rfl
    have hbb := hbh.still_trans (h.expr { s with rest } hs body s₁ hb)
    exact hbb.complete rfl trivial fun t ht => functionHead?_subset hhead ht
  · dsimp only at he
    have hba := Builds.advance s
    split at he
    · rename_i hk
      obtain ⟨rfl, rfl⟩ := Prod.mk.inj (Except.ok.inj he)
      refine hba.complete rfl rfl ?_
      simpa [ownTokens] using current_mem hs (by rw [ParseState.kind, hk]; decide)
    · obtain ⟨⟨inner, s₁⟩, hi, he⟩ := bind_eq_ok.mp he
      obtain ⟨⟨close, s₂⟩, hc, he⟩ := bind_eq_ok.mp he
      obtain ⟨rfl, rfl⟩ := Prod.mk.inj (Except.ok.inj he)
      have hbi := hba.still_trans (h.expr s.advance hs inner s₁ hi)
      have hbc := (Builds.expect (hbi.ended hs) (by decide) hc).1
      exact (hbi.trans_still hbc).complete rfl trivial (by simp [ownTokens])
    · obtain ⟨⟨items, s₁⟩, hi, he⟩ := bind_eq_ok.mp he
      obtain ⟨⟨close, s₂⟩, hc, he⟩ := bind_eq_ok.mp he
      obtain ⟨rfl, rfl⟩ := Prod.mk.inj (Except.ok.inj he)
      have hbi := hba.still_trans (h.items .rightBracket s.advance hs items s₁ hi)
      have hbc := (Builds.expect (hbi.ended hs) (by decide) hc).1
      exact (hbi.trans_still hbc).complete rfl trivial (by simp [ownTokens])
    · obtain ⟨⟨branches, s₁⟩, hb, he⟩ := bind_eq_ok.mp he
      dsimp only at he
      split at he
      · cases he
      · obtain ⟨⟨otherwise, s₂⟩, ho, he⟩ := bind_eq_ok.mp he
        obtain ⟨⟨close, s₃⟩, hc, he⟩ := bind_eq_ok.mp he
        obtain ⟨rfl, rfl⟩ := Prod.mk.inj (Except.ok.inj he)
        have hbb := hba.still_trans (h.branches s.advance hs branches s₁ hb)
        have hbo := hbb.trans (h.otherwise s₁ (hbb.ended hs) otherwise s₂ ho)
        have hbc := (Builds.expect (hbo.ended hs) (by decide) hc).1
        exact (hbo.trans_still hbc).complete rfl trivial (by simp [ownTokens])
    · split at he
      · obtain ⟨rfl, rfl⟩ := Prod.mk.inj (Except.ok.inj he)
        exact hba.complete rfl trivial (by simp [ownTokens])
      · cases he

theorem all (n : Nat) : ParsersBuild n := by
  induction n with
  | zero =>
    constructor
    · exact fun _ _ _ _ he => nomatch he
    · exact fun _ _ _ _ _ he => nomatch he
    · exact fun _ _ _ _ he => nomatch he
    · exact fun _ _ _ _ he => nomatch he
    · exact fun _ _ _ _ _ he => nomatch he
    · exact fun _ _ _ _ he => nomatch he
    · exact fun _ _ _ _ he => nomatch he
    · exact fun _ _ _ _ he => nomatch he
    · exact fun _ _ _ _ _ _ _ _ he => nomatch he
    · exact fun _ _ _ _ _ _ _ he => nomatch he
  | succ n h =>
    exact {
      expr := h.expr_succ
      binary := h.binary_succ
      unary := h.unary_succ
      primary := h.primary_succ
      items := h.items_succ
      someItems := h.someItems_succ
      branches := h.branches_succ
      otherwise := h.otherwise_succ
      operators := h.operators_succ
      accesses := h.accesses_succ }

end ParsersBuild

theorem ParseState.expr_builds (s : ParseState) : BuildsFrom (fun e => [e]) s s.expr :=
  (ParsersBuild.all _).expr s

end DocTemplate
