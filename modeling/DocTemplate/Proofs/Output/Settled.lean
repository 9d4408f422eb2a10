import DocTemplate.Proofs.Output.Mended

namespace DocTemplate

/-- Every element of an opening and a closing tag has what the rules for its name require. -/
def Satisfied (rules : List RepairRule) (tokens : List OutputToken) : Prop :=
  ∀ name body, HasElement tokens name body → ∀ rule ∈ rules, rule.tag = name → rule.Holds body

theorem HasElement.append {tokens body : List OutputToken} {name : String}
    (h : HasElement tokens name body) (more : List OutputToken) :
    HasElement (tokens ++ more) name body := by
  obtain ⟨before, opening, closing, after, rfl, ho, hc, hw⟩ := h
  exact ⟨before, opening, closing, after ++ more, by simp, ho, hc, hw⟩

theorem Satisfied.of_append {rules : List RepairRule} {tokens more : List OutputToken}
    (h : Satisfied rules (tokens ++ more)) : Satisfied rules tokens :=
  fun name body he => h name body (he.append more)

namespace Repair

namespace State

variable {s : State} {f : Frame}

theorem tokens_cons (f : Frame) (stack : List Frame) (before : List OutputToken) :
    tokens ⟨f :: stack, before⟩ = tokens ⟨stack, before⟩ ++ f.opening :: f.body.reverse := by
  simp [tokens]

theorem tokens_see (s : State) (names : List String) : (s.see names).tokens = s.tokens := by
  obtain ⟨stack, before⟩ := s
  cases stack with
  | nil => rfl
  | cons f stack => rw [see, tokens_cons, tokens_cons]

theorem tokens_foldl_emit (s : State) (more : List OutputToken) :
    (more.foldl emit s).tokens = s.tokens ++ more := by
  obtain ⟨stack, before⟩ := s
  cases stack with
  | nil =>
    rw [foldl_emit_outside]
    simp [tokens]
  | cons f stack =>
    rw [foldl_emit_inside, tokens_cons, tokens_cons]
    simp

/-- No open element is doomed. -/
def Spares (s : State) : Prop := ∀ f ∈ s.stack, f.doomed = false

theorem Spares.see (h : s.Spares) (names : List String) : (s.see names).Spares := by
  obtain ⟨stack, before⟩ := s
  cases stack with
  | nil => exact h
  | cons f stack => exact List.forall_mem_cons.mpr (List.forall_mem_cons.mp h)

theorem Spares.foldl_emit (h : s.Spares) (more : List OutputToken) :
    (more.foldl emit s).Spares := by
  obtain ⟨stack, before⟩ := s
  cases stack with
  | nil =>
    rw [foldl_emit_outside]
    exact h
  | cons f stack =>
    rw [foldl_emit_inside]
    exact List.forall_mem_cons.mpr (List.forall_mem_cons.mp h)

structure Copied (rules : List RepairRule) (opened : List String) (tokens : List OutputToken)
    (s : State) : Prop where
  sound : s.Sound rules opened
  spares : s.Spares
  tokens_eq : s.tokens = tokens

end State

section

variable {rules : List RepairRule} {opened opened' : List String} {s s' : State} {f : Frame}
  {token : OutputToken} {tokens : List OutputToken}

theorem Frame.Sound.broken_of_holds (hf : f.Sound rules)
    (h : ∀ rule ∈ rules, rule.tag = f.name → rule.Holds f.body.reverse) :
    brokenRule? rules f = none := by
  refine List.find?_eq_none.mpr fun rule hr hbroken => ?_
  obtain ⟨ht, hnot⟩ := (hf.broken_iff rule).mp hbroken
  exact hnot (h rule hr ht)

theorem State.Copied.effect (h : s.Copied rules opened tokens)
    (hs : Satisfied rules (tokens ++ [token])) (he : Effect rules s token opened opened' s') :
    s'.Copied rules opened' (tokens ++ [token]) := by
  obtain ⟨stack, before⟩ := s
  cases he with
  | plain ht =>
    refine ⟨h.sound.emit ht rfl, ?_, ?_⟩
    · rw [see_emit]
      exact (h.spares.foldl_emit [token]).see _
    · rw [see_emit, State.tokens_see, ← h.tokens_eq]
      exact State.tokens_foldl_emit _ [token]
  | @opening _ name ht =>
    have hf : Frame.Sound rules ⟨name, token, [], [], false⟩ := ⟨ht, .nil, by simp [namesWithin]⟩
    refine ⟨⟨congrArg (name :: ·) h.sound.opened, List.forall_mem_cons.mpr ⟨hf, h.sound.frames⟩,
      h.sound.before⟩, List.forall_mem_cons.mpr ⟨rfl, h.spares⟩, ?_⟩
    rw [State.tokens_cons, ← h.tokens_eq]
    rfl
  | @closing _ f stack hstack hc =>
    cases hstack
    obtain ⟨hf, hframes⟩ := List.forall_mem_cons.mp h.sound.frames
    obtain ⟨hspared, hspares⟩ := List.forall_mem_cons.mp h.spares
    have htokens : tokens ++ [token] =
        State.tokens ⟨stack, before⟩ ++ f.opening :: (f.body.reverse ++ [token]) := by
      rw [← h.tokens_eq, State.tokens_cons, List.append_assoc, List.cons_append]
    have hholds : ∀ rule ∈ rules, rule.tag = f.name → rule.Holds f.body.reverse :=
      hs f.name f.body.reverse
        ⟨_, f.opening, token, [], htokens, hf.opening, hc, hf.body.wellNested⟩
    have hrepaired : Repaired rules f.name (f.body.reverse ++ []) := by
      rw [List.append_nil]
      exact fun rule hr ht => .inl (hholds rule hr ht)
    have houter : State.Sound rules opened' ⟨stack, before⟩ :=
      ⟨(List.cons.inj h.sound.opened).2, hframes, h.sound.before⟩
    have hclose : State.close rules ⟨stack, before⟩ f token =
        State.finish ⟨stack, before⟩ f [token] := by
      rw [State.close, if_neg (by simp [hspared]), hf.broken_of_holds hholds]
      rfl
    rw [hclose]
    refine ⟨houter.finish f.inside [] hf hc .nil (by simp [namesWithin]) hrepaired, ?_, ?_⟩
    · exact (State.Spares.foldl_emit (s := ⟨stack, before⟩) hspares _).see _
    · rw [State.finish, State.tokens_see, State.tokens_foldl_emit, htokens, List.cons_append]

end

end Repair

variable {rules : List RepairRule} {tokens : List OutputToken}

/-- What is in order is copied. -/
theorem repair_of_satisfied (hn : WellNested tokens) (hs : Satisfied rules tokens) :
    repair rules tokens = tokens := by
  rw [repair]
  split
  · rfl
  · have hstart : Satisfied rules [] → Repair.State.Copied rules [] [] ⟨[], []⟩ :=
      fun _ => ⟨⟨rfl, List.forall_mem_nil _, .nil⟩, List.forall_mem_nil _, rfl⟩
    have hend := Repair.run_induction
      (I := fun opened tokens s => Satisfied rules tokens → s.Copied rules opened tokens)
      (fun _ _ _ _ _ _ h he hs => (h hs.of_append).effect hs he)
      (List.map_nil : List.map Repair.Frame.name [] = []) hstart hn
    exact (hend hs).tokens_eq

/-- What is left is well nested, and with one rule for a name no rule is overlooked. -/
theorem repair_settles (hd : (rules.map RepairRule.tag).Nodup)
    (hs : ∀ rule ∈ rules, rule.Serves) (hn : WellNested tokens) :
    WellNested (repair rules tokens) ∧ Satisfied rules (repair rules tokens) := by
  refine ⟨(Repair.repair_mended rules hn).wellNested.2, fun name body he rule hr ht => ?_⟩
  have hsound := Repair.State.Sound.steps (s := ⟨[], []⟩) ⟨rfl, nofun, .nil⟩ hs hn
  have hstack := List.map_eq_nil_iff.mp hsound.opened
  have hrepair : repair rules tokens =
      (tokens.foldl (Repair.State.step rules) ⟨[], []⟩).before.reverse := by
    rw [repair, if_neg (List.ne_nil_of_mem hr), Repair.State.tokens, hstack]
    exact List.append_nil _
  rw [hrepair] at he
  obtain h | ⟨first, xml, start, hsub, htag, -⟩ := hsound.before.of_hasElement he rule hr ht
  · exact h
  · have hpair := (hsub.map RepairRule.tag).nodup hd
    simp [htag] at hpair

/-- A second repair changes nothing, and a first one leaves tokens as they are if and only if each
element of an opening and a closing tag has what the rules for it require. -/
theorem repair_idempotent (hd : (rules.map RepairRule.tag).Nodup)
    (hs : ∀ rule ∈ rules, rule.Serves) (hn : WellNested tokens) :
    repair rules (repair rules tokens) = repair rules tokens ∧
      (repair rules tokens = tokens ↔
        ∀ name body, HasElement tokens name body →
          ∀ rule ∈ rules, rule.tag = name → rule.Holds body) := by
  obtain ⟨hw, hsettled⟩ := repair_settles hd hs hn
  refine ⟨repair_of_satisfied hw hsettled, fun h => ?_, repair_of_satisfied hn⟩
  rwa [h] at hsettled

theorem repair_idempotent_emptyCellTable :
    (FileType.docx.repairRules.map RepairRule.tag).Nodup ∧
      (∀ rule ∈ FileType.docx.repairRules, rule.Serves) ∧ WellNested emptyCellTable ∧
      repair FileType.docx.repairRules emptyCellTable ≠ emptyCellTable ∧
      repair FileType.docx.repairRules (repair FileType.docx.repairRules emptyCellTable) =
        repair FileType.docx.repairRules emptyCellTable ∧
      ¬ ∀ name body, HasElement emptyCellTable name body →
        ∀ rule ∈ FileType.docx.repairRules, rule.tag = name → rule.Holds body := by
  have hd : (FileType.docx.repairRules.map RepairRule.tag).Nodup := by decide
  have hn : WellNested emptyCellTable := by
    rw [WellNested]
    decide +kernel
  have hchanged : repair FileType.docx.repairRules emptyCellTable ≠ emptyCellTable := by
    decide +kernel
  obtain ⟨hsame, hiff⟩ := repair_idempotent hd serves_docx hn
  exact ⟨hd, serves_docx, hn, hchanged, hsame, mt hiff.mpr hchanged⟩

/-- An element of a single tag is left as it is, whatever the rules require of it. -/
example : serialize (repair [⟨"w:tr", ["w:tc"], .drop⟩] (documentTokens "<w:tr/>")) =
    "<w:tr/>" := by
  decide +kernel

end DocTemplate
