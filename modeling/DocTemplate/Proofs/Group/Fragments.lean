import DocTemplate.Proofs.Group.Closings

namespace DocTemplate

def Token.unplaced (t : Token) : Token := { t with span := .point 0 }

/-- A group without the places of its tokens. -/
def Group.unplaced (g : Group) : Group :=
  { g with tokens := g.tokens.map Token.unplaced, span := .point 0 }

/-- What the eligible content of a document stands for, in one piece. -/
def eligibleText (depth : Nat) : List RawToken → List Char
  | [] => []
  | token :: tokens =>
    (if token.isEligible depth then decode token.text.toList else []) ++
      eligibleText (elementDepthAfter depth token) tokens

def unplace {κ α β : Type} (f : α → β) (result : Except (Fault κ) α) : Except κ β :=
  (result.mapError Fault.cause).map f

section

variable {κ α α' β γ δ : Type} {result : Except (Fault κ) α} {result' : Except (Fault κ) α'}

/-- Computations agree up to places if what they start with does, and if how they go on does not
depend on places. -/
theorem unplace_bind {f : α → β} {f' : α' → β} {g : γ → δ} {next : α → Except (Fault κ) γ}
    {next' : α' → Except (Fault κ) γ} (h : unplace f result = unplace f' result')
    (hn : ∀ a a', f a = f' a' → unplace g (next a) = unplace g (next' a')) :
    unplace g (result >>= next) = unplace g (result' >>= next') := by
  cases result with
  | error fault =>
    cases result' with
    | error fault' => exact congrArg Except.error (Except.error.inj h)
    | ok => cases h
  | ok a =>
    cases result' with
    | error => cases h
    | ok a' => exact hn a a' (Except.ok.inj h)

theorem unplace_bind_eq (f : α → β) {g : γ → δ} {next : α → Except (Fault κ) γ}
    {next' : β → Except κ δ} (h : ∀ a, unplace g (next a) = next' (f a)) :
    unplace g (result >>= next) = unplace f result >>= next' := by
  cases result with
  | error fault => rfl
  | ok a => exact h a

theorem unplace_mapError {κ' : Type} {f : α → β} {f' : α' → β} {g : Fault κ → Fault κ'}
    (h : unplace f result = unplace f' result')
    (hg : ∀ a b : Fault κ, a.cause = b.cause → (g a).cause = (g b).cause) :
    unplace f (result.mapError g) = unplace f' (result'.mapError g) := by
  cases result with
  | error fault =>
    cases result' with
    | error fault' => exact congrArg Except.error (hg _ _ (Except.error.inj h))
    | ok => cases h
  | ok a =>
    cases result' with
    | error => cases h
    | ok a' => exact congrArg Except.ok (Except.ok.inj h)

end

section

variable {source : LocatedText} {delimiters : Delimiters} {nicknames : Nicknames}

theorem filter_unplaced (p : TokenKind → Bool) (tokens : List Token) :
    (tokens.map Token.unplaced).filter (fun t => p t.kind) =
      (tokens.filter fun t => p t.kind).map Token.unplaced := by
  rw [List.filter_map]
  rfl

theorem takeTarget_unplaced (tokens : List Token) :
    unplace (Prod.map (Option.map Token.unplaced) (List.map Token.unplaced)) (takeTarget tokens) =
      unplace id (takeTarget (tokens.map Token.unplaced)) := by
  have htargets := filter_unplaced (· = .target) tokens
  have hothers := filter_unplaced (· ≠ .target) tokens
  have hlast : ((tokens.map Token.unplaced).reverse[1]?).map Token.kind =
      (tokens.reverse[1]?).map Token.kind := by
    rw [← List.map_reverse, List.getElem?_map, Option.map_map]
    rfl
  unfold takeTarget
  rw [htargets, hothers, hlast]
  cases tokens.filter (·.kind = .target) with
  | nil => rfl
  | cons t ts =>
    cases ts with
    | nil =>
      dsimp only [List.map_cons, List.map_nil]
      split <;> rfl
    | cons t' ts => rfl

theorem ofTokens_unplaced (tokens : List Token) (span : Span) (nicknames : Nicknames) :
    unplace Group.unplaced (Group.ofTokens tokens span nicknames) =
      unplace Group.unplaced
        (Group.ofTokens (tokens.map Token.unplaced) (.point 0) nicknames) := by
  unfold Group.ofTokens
  refine unplace_bind (takeTarget_unplaced tokens) fun ⟨mark, rest⟩ _ heq => ?_
  subst heq
  have hkind : ((rest.map Token.unplaced)[1]?).map Token.kind = (rest[1]?).map Token.kind := by
    rw [List.getElem?_map, Option.map_map]
    rfl
  have htokens : (rest.map Token.unplaced).map Token.unplaced = rest.map Token.unplaced := by
    rw [List.map_map]
    rfl
  -- What is made of the tokens depends on the kind of one of them alone.
  dsimp only [id, Prod.map]
  rw [hkind]
  generalize GroupKind.ofToken ((rest[1]?).map Token.kind) = kind
  cases mark with
  | none => exact congrArg Except.ok (congrArg (Group.mk · _ _ _ _ _ _) htokens.symm)
  | some t =>
    by_cases ho : kind.isOpener
    · simp only [ho]
      exact congrArg Except.ok (congrArg (Group.mk · _ _ _ _ _ _) htokens.symm)
    · simp only [ho]
      rfl

theorem scanFrom_unplaced {source source' : LocatedText} {base base' : Nat} (text : List Char) :
    unplace (List.map Token.unplaced) (scanFrom source base 0 text) =
      unplace (List.map Token.unplaced) (scanFrom source' base' 0 text) := by
  rw [scanFrom_lexemes, scanFrom_lexemes]
  cases lexemes text with
  | error f => rfl
  | ok ls =>
    refine congrArg Except.ok ?_
    rw [List.map_map, List.map_map]
    rfl

/-- Scanning looks at the text alone. -/
theorem scanGroup_unplaced {source' : LocatedText} (h : source.text = source'.text) :
    unplace (List.map Token.unplaced) (scanGroup source delimiters) =
      unplace (List.map Token.unplaced) (scanGroup source' delimiters) := by
  rw [scanGroup, scanGroup, h]
  dsimp only
  split
  · rfl
  · split
    · rfl
    · refine unplace_bind (scanFrom_unplaced _) fun tokens tokens' heq => congrArg Except.ok ?_
      simp only [List.map_cons, List.map_append, heq]
      rfl

theorem readGroup_unplaced {source' : LocatedText} (h : source.text = source'.text) :
    unplace Group.unplaced (readGroup delimiters nicknames source) =
      unplace Group.unplaced (readGroup delimiters nicknames source') := by
  unfold readGroup
  have hscan : ∀ a b : ScanFault, a.cause = b.cause →
      GroupCause.scan a.cause = GroupCause.scan b.cause := fun a b h => congrArg _ h
  refine unplace_bind (unplace_mapError (scanGroup_unplaced h) hscan) fun tokens tokens' heq => ?_
  rw [ofTokens_unplaced, heq, ← ofTokens_unplaced]

end

/-- The groups read so far, and the text of the group that has started with the state of its
quotes. -/
structure Gathering where
  groups : Array Group
  pending : Option (String × Quoting)

namespace Gathering

def start : Gathering := ⟨#[], none⟩

def step (delimiters : Delimiters) (nicknames : Nicknames) (s : Gathering) (c : Char) :
    Except GroupCause Gathering :=
  match s.pending with
  | none =>
    if delimiters.opening.toList = [c] then
      .ok { s with pending := some (String.singleton c, .outside) }
    else .ok s
  | some (text, quoting) =>
    if quoting.quote = none ∧ delimiters.closing.toList = [c] then
      (unplace Group.unplaced (readGroup delimiters nicknames ⟨text.push c, #[]⟩)).map fun g =>
        ⟨s.groups.push g, none⟩
    else .ok { s with pending := some (text.push c, quoting.next c) }

def finish (delimiters : Delimiters) (s : Gathering) : Except GroupCause (Array Group) :=
  match s.pending with
  | some _ => .error (.unclosed delimiters.closing)
  | none => .ok s.groups

end Gathering

/-- What reading one character after the other knows of an extraction. -/
def Extraction.gathering (x : Extraction) : Gathering :=
  ⟨x.groups.map Group.unplaced, x.pending.map fun p => (p.source.text, p.quoting)⟩

section

variable {delimiters : Delimiters} {nicknames : Nicknames} {run : TextRun} {x : Extraction}
  {tokens : List RawToken}

theorem startsWith_single {delimiter : List Char} {c : DecodedChar} {cs : List DecodedChar}
    (h : delimiter.length = 1) :
    Extraction.startsWith delimiter (c :: cs) = true ↔ delimiter = [c.char] := by
  obtain ⟨d, rfl⟩ := List.length_eq_one_iff.mp h
  simp [Extraction.startsWith]

theorem start_gathering : (Extraction.start).gathering = .start := by
  simp [Extraction.gathering, Extraction.start, Gathering.start]

theorem flush_gathering : (x.flush run).gathering = x.gathering := by
  rw [Extraction.gathering, Extraction.flush_groups, Extraction.flush_pending]
  rfl

theorem push_gathering (item : StreamItem) : (x.push item).gathering = x.gathering := by
  unfold Extraction.push
  cases hp : x.pending with
  | none => simp [Extraction.gathering, hp]
  | some p => simp [Extraction.gathering, hp]; rfl

theorem openGroup_gathering (c : DecodedChar) :
    (x.openGroup run c [c]).gathering =
      ⟨x.gathering.groups, some (String.singleton c.char, .outside)⟩ := by
  simp only [Extraction.gathering, Extraction.openGroup, Extraction.flush_groups]
  rfl

theorem finished_text (p : PendingGroup) (c : DecodedChar) :
    (p.finished run [c]).text = p.source.text.push c.char := rfl

theorem closeGroup_gathering (p : PendingGroup) (c : DecodedChar) :
    unplace Extraction.gathering (x.closeGroup run p [c]) =
      (unplace Group.unplaced (readGroup run.delimiters run.nicknames
        ⟨p.source.text.push c.char, #[]⟩)).map fun g => ⟨x.gathering.groups.push g, none⟩ := by
  rw [Extraction.closeGroup_eq, ← readGroup_unplaced (finished_text p c)]
  cases readGroup run.delimiters run.nicknames (p.finished run [c]) with
  | error fault => rfl
  | ok g => simp [unplace, Except.map, Extraction.gathering]

theorem read_gathering (ho : run.delimiters.opening.toList.length = 1)
    (hc : run.delimiters.closing.toList.length = 1) (cs : List DecodedChar) :
    unplace Extraction.gathering (Extraction.read run run.delimiters.opening.toList
        run.delimiters.closing.toList x 0 cs) =
      (cs.map DecodedChar.char).foldlM (Gathering.step run.delimiters run.nicknames)
        x.gathering := by
  induction cs generalizing x with
  | nil => rfl
  | cons c cs ih =>
    rw [List.map_cons, List.foldlM_cons, Extraction.read, ho, hc]
    cases hp : x.pending with
    | none =>
      have hstep : Gathering.step run.delimiters run.nicknames x.gathering c.char =
          if run.delimiters.opening.toList = [c.char] then
            .ok ⟨x.gathering.groups, some (String.singleton c.char, .outside)⟩
          else .ok x.gathering := by
        simp [Gathering.step, Extraction.gathering, hp]
      simp only [startsWith_single ho, hstep]
      split
      next => rw [List.take_succ_cons, List.take_zero, ih, openGroup_gathering]; rfl
      next => exact ih
    | some p =>
      have hstep : Gathering.step run.delimiters run.nicknames x.gathering c.char =
          if p.quote = none ∧ run.delimiters.closing.toList = [c.char] then
            unplace Extraction.gathering (x.closeGroup run p [c])
          else .ok ⟨x.gathering.groups,
            some (p.source.text.push c.char, p.quoting.next c.char)⟩ := by
        rw [closeGroup_gathering]
        simp [Gathering.step, Extraction.gathering, hp, PendingGroup.quoting]
      simp only [startsWith_single hc, hstep]
      split
      next =>
        rw [List.take_succ_cons, List.take_zero]
        cases x.closeGroup run p [c] with
        | error fault => rfl
        | ok x' => exact ih
      next =>
        rw [ih, ← Extraction.quoting_track]
        rfl

theorem content_gathering (ho : run.delimiters.opening.toList.length = 1)
    (hc : run.delimiters.closing.toList.length = 1) (text : String) :
    unplace Extraction.gathering (x.content run text) =
      (decode text.toList).foldlM (Gathering.step run.delimiters run.nicknames) x.gathering := by
  rw [decode, ← read_gathering ho hc, Extraction.content]
  cases Extraction.read run run.delimiters.opening.toList run.delimiters.closing.toList x 0
      (decodeFrom 0 0 text.toList) with
  | error fault => rfl
  | ok x' => exact congrArg Except.ok flush_gathering

theorem extractFrom_gathering (ho : delimiters.opening.toList.length = 1)
    (hc : delimiters.closing.toList.length = 1) (depth : Nat) (tokens : List RawToken) :
    unplace Extraction.gathering (extractFrom delimiters nicknames x depth tokens) =
      (eligibleText depth tokens).foldlM (Gathering.step delimiters nicknames) x.gathering := by
  induction tokens generalizing x depth with
  | nil => rfl
  | cons token tokens ih =>
    cases he : token.isEligible depth with
    | false =>
      rw [extractFrom_whole he, ih, push_gathering, eligibleText, he]
      rfl
    | true =>
      cases token with
      | content text offset insideText =>
        rw [extractFrom_text he, eligibleText, he, if_pos rfl, List.foldlM_append]
        exact (unplace_bind_eq Extraction.gathering fun x' => ih depth).trans
          (congrArg (· >>= _) (content_gathering ho hc text))
      | _ => cases he

/-- The groups of a document, up to places, are read off its eligible text. -/
theorem extractGroups_gathering (ho : delimiters.opening.toList.length = 1)
    (hc : delimiters.closing.toList.length = 1) :
    unplace (fun stream => stream.groups.map Group.unplaced)
        (extractGroups delimiters nicknames tokens) =
      (eligibleText 0 tokens).foldlM (Gathering.step delimiters nicknames) .start >>=
        Gathering.finish delimiters := by
  rw [← start_gathering, ← extractFrom_gathering ho hc 0 tokens, extractGroups]
  refine unplace_bind_eq Extraction.gathering fun x => ?_
  cases hp : x.pending with
  | none => simp [Gathering.finish, Extraction.gathering, hp]; rfl
  | some p => simp [Gathering.finish, Extraction.gathering, hp]; rfl

/-- How text is cut into runs, and what markup stands between them, does not matter to its groups:
documents with the same eligible text have the same groups, up to places, or fail for the same
cause. -/
theorem extractGroups_fragments (nicknames : Nicknames) {tokens' : List RawToken}
    (ho : delimiters.opening.toList.length = 1) (hc : delimiters.closing.toList.length = 1)
    (h : eligibleText 0 tokens = eligibleText 0 tokens') :
    (∃ fault fault', extractGroups delimiters nicknames tokens = .error fault ∧
      extractGroups delimiters nicknames tokens' = .error fault' ∧ fault.cause = fault'.cause) ∨
    ∃ stream stream', extractGroups delimiters nicknames tokens = .ok stream ∧
      extractGroups delimiters nicknames tokens' = .ok stream' ∧
      stream.groups.map Group.unplaced = stream'.groups.map Group.unplaced := by
  have heq : unplace (fun stream => stream.groups.map Group.unplaced)
        (extractGroups delimiters nicknames tokens) =
      unplace (fun stream => stream.groups.map Group.unplaced)
        (extractGroups delimiters nicknames tokens') := by
    rw [extractGroups_gathering ho hc, h, ← extractGroups_gathering ho hc]
  cases hx : extractGroups delimiters nicknames tokens with
  | error fault =>
    cases hx' : extractGroups delimiters nicknames tokens' with
    | error fault' =>
      rw [hx, hx'] at heq
      exact .inl ⟨fault, fault', rfl, rfl, Except.error.inj heq⟩
    | ok => rw [hx, hx'] at heq; cases heq
  | ok stream =>
    cases hx' : extractGroups delimiters nicknames tokens' with
    | error => rw [hx, hx'] at heq; cases heq
    | ok stream' =>
      rw [hx, hx'] at heq
      exact .inr ⟨stream, stream', rfl, rfl, Except.ok.inj heq⟩

end

def wholeRun : List RawToken := [.content "a \x7bx + 'b'\x7d" 0 true]

def cutRuns : List RawToken :=
  [.content "a \x7bx " 0 true, .tag "b" .selfClosing "<b/>" 5 false, .content "+ &apos;b" 9 true,
    .verbatim "<!-- -->" 18, .content "'\x7d" 26 true]

theorem extractGroups_fragments_cutRuns :
    eligibleText 0 wholeRun = eligibleText 0 cutRuns ∧
      ∃ stream stream', extractGroups .standard [] wholeRun = .ok stream ∧
        extractGroups .standard [] cutRuns = .ok stream' ∧
        stream.groups.map Group.unplaced = stream'.groups.map Group.unplaced := by
  have ho : Delimiters.standard.opening.toList.length = 1 := by decide
  have hc : Delimiters.standard.closing.toList.length = 1 := by decide
  have h : eligibleText 0 wholeRun = eligibleText 0 cutRuns := by decide +kernel
  have hok : (extractGroups .standard [] wholeRun).isOk = true := by decide +kernel
  obtain ⟨stream, hstream⟩ := exists_ok_of_isOk hok
  rcases extractGroups_fragments [] ho hc h with ⟨_, _, hfault, -⟩ | hgroups
  · rw [hstream] at hfault
    cases hfault
  · exact ⟨h, hgroups⟩

end DocTemplate
