import DocTemplate.Proofs.Output.Repaired

namespace DocTemplate

namespace RepairRule

def Drops (rule : RepairRule) (name : String) : Prop :=
  rule.tag = name ∧ (rule.action = .drop ∨ ∃ parent, rule.action = .dropWithin parent) ∨
    rule.action = .dropWithin name

end RepairRule

/-- What may be added to an element of this name: nothing, or the markup of a rule for it. -/
def Addition (rules : List RepairRule) (name : String) (added : List OutputToken) : Prop :=
  added = [] ∨ ∃ rule ∈ rules, ∃ xml, rule.tag = name ∧ rule.action = .insert xml ∧
    added = [.markup xml]

/-- The second list is the first one without some whole elements, and with markup of the rules
right before closing tags of others. -/
inductive Mended (rules : List RepairRule) : List OutputToken → List OutputToken → Prop
  | nil : Mended rules [] []
  | plain {token : OutputToken} {rest rest' : List OutputToken} :
      (∀ name part, token.tag? = some (name, part) → part = .selfClosing) →
      Mended rules rest rest' → Mended rules (token :: rest) (token :: rest')
  | kept {opening closing : OutputToken} {name : String}
      {body body' added rest rest' : List OutputToken} :
      opening.tag? = some (name, .opening) → closing.tag? = some (name, .closing) →
      Addition rules name added → Mended rules body body' → Mended rules rest rest' →
      Mended rules (opening :: (body ++ closing :: rest))
        (opening :: (body' ++ added ++ closing :: rest'))
  | dropped {opening closing : OutputToken} {name : String} {body rest rest' : List OutputToken} :
      opening.tag? = some (name, .opening) → closing.tag? = some (name, .closing) →
      WellNested body → (∃ rule ∈ rules, rule.Drops name) → Mended rules rest rest' →
      Mended rules (opening :: (body ++ closing :: rest)) rest'

theorem WellNested.append {tokens more : List OutputToken} (h : WellNested tokens)
    (h' : WellNested more) : WellNested (tokens ++ more) := by
  rw [WellNested, outputTags_append, nest_skip h]
  exact h'

theorem WellNested.element {opening closing : OutputToken} {name : String}
    {body rest : List OutputToken} (ho : opening.tag? = some (name, .opening))
    (hc : closing.tag? = some (name, .closing)) (hb : WellNested body) (hr : WellNested rest) :
    WellNested (opening :: (body ++ closing :: rest)) := by
  rw [WellNested, nest_opening ho, outputTags_append, nest_skip hb, outputTags_cons_some hc]
  exact (nest_exit .right [] name _).trans hr

theorem Addition.wellNested {rules : List RepairRule} {name : String} {added : List OutputToken}
    (h : Addition rules name added) : WellNested added := by
  obtain rfl | ⟨_, -, xml, -, -, rfl⟩ := h <;> rfl

namespace Mended

variable {rules : List RepairRule} {tokens tokens' more more' : List OutputToken}

theorem append (h : Mended rules tokens tokens') (h' : Mended rules more more') :
    Mended rules (tokens ++ more) (tokens' ++ more') := by
  induction h with
  | nil => exact h'
  | plain ht _ ih => exact .plain ht ih
  | kept ho hc ha hb _ _ ih =>
    simpa only [List.cons_append, List.append_assoc] using Mended.kept ho hc ha hb ih
  | dropped ho hc hw hd _ ih =>
    simpa only [List.cons_append, List.append_assoc] using Mended.dropped ho hc hw hd ih

theorem wellNested (h : Mended rules tokens tokens') : WellNested tokens ∧ WellNested tokens' := by
  induction h with
  | nil => exact ⟨rfl, rfl⟩
  | plain ht _ ih => exact ⟨(nest_plain ht []).trans ih.1, (nest_plain ht []).trans ih.2⟩
  | kept ho hc ha _ _ ihb ihr =>
    exact ⟨.element ho hc ihb.1 ihr.1, .element ho hc (ihb.2.append ha.wellNested) ihr.2⟩
  | dropped ho hc hw _ _ ih => exact ⟨.element ho hc hw ih.1, ih.2⟩

theorem eq_of_no_rules (h : Mended [] tokens tokens') : tokens' = tokens := by
  induction h with
  | nil => rfl
  | plain _ _ ih => rw [ih]
  | kept _ _ ha _ _ ihb ihr =>
    obtain rfl | ⟨_, hr, -⟩ := ha
    · rw [ihb, ihr, List.append_nil]
    · cases hr
  | dropped _ _ _ hd _ _ =>
    obtain ⟨_, hr, -⟩ := hd
    cases hr

end Mended

namespace Repair

variable {rules : List RepairRule} {opened opened' : List String} {s s' : State} {f : Frame}
  {token closing : OutputToken} {tokens tokens' : List OutputToken}

/-- What a token does to the open elements, and to a state in which those are open. -/
inductive Effect (rules : List RepairRule) (s : State) (token : OutputToken) :
    List String → List String → State → Prop
  | plain {opened : List String} :
      (∀ name part, token.tag? = some (name, part) → part = .selfClosing) →
      Effect rules s token opened opened ((s.see token.elementNames).emit token)
  | opening {opened : List String} {name : String} : token.tag? = some (name, .opening) →
      Effect rules s token opened (name :: opened)
        { s with stack := ⟨name, token, [], [], false⟩ :: s.stack }
  | closing {opened : List String} {f : Frame} {stack : List Frame} : s.stack = f :: stack →
      token.tag? = some (f.name, .closing) →
      Effect rules s token (f.name :: opened) opened
        (State.close rules { s with stack := stack } f token)

theorem exists_of_tag {name : String} {part : TagPart} (h : token.tag? = some (name, part)) :
    ∃ text offset isText, token = .raw (.tag name part text offset isText) := by
  cases token with
  | raw piece =>
    cases piece with
    | tag =>
      obtain ⟨rfl, rfl⟩ := Prod.mk.inj (Option.some.inj h)
      exact ⟨_, _, _, rfl⟩
    | _ => cases h
  | _ => cases h

theorem step_plain (s : State)
    (h : ∀ name part, token.tag? = some (name, part) → part = .selfClosing) :
    State.step rules s token = (s.see token.elementNames).emit token := by
  have hnone (ht : token.elementNames = []) :
      s.emit token = (s.see token.elementNames).emit token := by
    rw [ht, see_nil]
  cases token with
  | text | sentinel => exact hnone rfl
  | markup => rfl
  | raw piece =>
    cases piece with
    | content | verbatim => exact hnone rfl
    | tag name part =>
      obtain rfl := h name part rfl
      rfl

theorem step_effect (rules : List RepairRule) (ho : s.stack.map Frame.name = opened)
    (hn : nest .right opened (outputTags [token]) = some opened') :
    Effect rules s token opened opened' (State.step rules s token) := by
  by_cases hplain : ∀ name part, token.tag? = some (name, part) → part = .selfClosing
  · obtain rfl : opened = opened' := Option.some.inj ((nest_plain hplain opened).symm.trans hn)
    rw [step_plain s hplain]
    exact .plain hplain
  · obtain ⟨name, hplain⟩ := Classical.not_forall.mp hplain
    obtain ⟨part, hplain⟩ := Classical.not_forall.mp hplain
    obtain ⟨ht, hpart⟩ := Classical.not_imp.mp hplain
    obtain ⟨text, offset, isText, rfl⟩ := exists_of_tag ht
    cases part with
    | selfClosing => exact absurd rfl hpart
    | opening =>
      obtain rfl : name :: opened = opened' :=
        Option.some.inj ((nest_opening ht opened).symm.trans hn)
      exact .opening rfl
    | closing =>
      obtain ⟨rest, rfl, hrest⟩ : ∃ rest, opened = name :: rest ∧
          nest .right rest [] = some opened' := eq_cons_of_nest_exit hn
      obtain rfl := Option.some.inj hrest
      obtain ⟨stack, before⟩ := s
      cases stack with
      | nil => cases ho
      | cons f stack =>
        obtain ⟨rfl, -⟩ := List.cons.inj ho
        rw [State.step]
        dsimp only
        rw [if_pos rfl]
        exact .closing (s := ⟨f :: stack, before⟩) rfl rfl

theorem map_name_see (s : State) (names : List String) :
    (s.see names).stack.map Frame.name = s.stack.map Frame.name := by
  obtain ⟨stack, before⟩ := s
  cases stack <;> rfl

theorem map_name_foldl_emit (s : State) (more : List OutputToken) :
    (more.foldl State.emit s).stack.map Frame.name = s.stack.map Frame.name := by
  obtain ⟨stack, before⟩ := s
  cases stack with
  | nil => rw [foldl_emit_outside]
  | cons f stack =>
    rw [foldl_emit_inside]
    rfl

theorem map_name_close (s : State) (f : Frame) (closing : OutputToken) :
    (State.close rules s f closing).stack.map Frame.name = s.stack.map Frame.name := by
  have hfinish (f : Frame) (last : List OutputToken) :
      (s.finish f last).stack.map Frame.name = s.stack.map Frame.name :=
    (map_name_see _ _).trans (map_name_foldl_emit s _)
  rw [State.close]
  split
  · rfl
  · split
    · exact hfinish _ _
    · exact hfinish _ _
    · rfl
    · exact map_name_doom _ _

theorem Effect.map_name (ho : s.stack.map Frame.name = opened)
    (he : Effect rules s token opened opened' s') : s'.stack.map Frame.name = opened' := by
  cases he with
  | plain _ =>
    rw [see_emit]
    exact (map_name_see _ _).trans ((map_name_foldl_emit s [token]).trans ho)
  | opening _ => exact congrArg (_ :: ·) ho
  | closing hstack _ =>
    rw [hstack] at ho
    exact (map_name_close _ _ _).trans (List.cons.inj ho).2

/-- What outlasts every effect, told of the tokens read so far, holds after all tokens. -/
theorem run_induction {I : List String → List OutputToken → State → Prop}
    (hI : ∀ opened opened' tokens token s s', I opened tokens s →
      Effect rules s token opened opened' s' → I opened' (tokens ++ [token]) s')
    (ho : s.stack.map Frame.name = opened) (h : I opened tokens s) {more : List OutputToken}
    (hn : nest .right opened (outputTags more) = some opened') :
    I opened' (tokens ++ more) (more.foldl (State.step rules) s) := by
  induction more generalizing s opened tokens with
  | nil =>
    obtain rfl := Option.some.inj hn
    rwa [List.append_nil]
  | cons token more ih =>
    rw [← List.singleton_append, outputTags_append, nest_append_eq_some] at hn
    obtain ⟨mid, htoken, hmore⟩ := hn
    have he := step_effect rules ho htoken
    rw [List.append_cons]
    exact ih (he.map_name ho) (hI _ _ _ _ _ _ h he) hmore

theorem exists_rule_of_broken {action : RepairAction}
    (h : (brokenRule? rules f).map RepairRule.action = some action) :
    ∃ rule ∈ rules, rule.tag = f.name ∧ rule.action = action := by
  obtain ⟨rule, hr, ha⟩ := Option.map_eq_some_iff.mp h
  have hbroken := List.find?_some hr
  rw [Bool.and_eq_true, beq_iff_eq] at hbroken
  exact ⟨rule, List.mem_of_find?_eq_some hr, hbroken.1, ha⟩

/-- A state as the tokens read so far make it: what stands in an open element, or before all of
them, is what was read there, mended. -/
inductive State.Mends (rules : List RepairRule) :
    List String → List OutputToken → State → Prop
  | outside {tokens before : List OutputToken} :
      Mended rules tokens before.reverse → Mends rules [] tokens ⟨[], before⟩
  | inside {opened : List String} {tokens body before : List OutputToken} {f : Frame}
      {stack : List Frame} : Mends rules opened tokens ⟨stack, before⟩ →
      f.opening.tag? = some (f.name, .opening) → Mended rules body f.body.reverse →
      (f.doomed = true → ∃ rule ∈ rules, rule.Drops f.name) →
      Mends rules (f.name :: opened) (tokens ++ f.opening :: body) ⟨f :: stack, before⟩

namespace State.Mends

theorem innermost {stack : List Frame} {before : List OutputToken}
    (h : Mends rules opened tokens ⟨f :: stack, before⟩) :
    ∃ outer start body, opened = f.name :: outer ∧ tokens = start ++ f.opening :: body ∧
      Mends rules outer start ⟨stack, before⟩ ∧ f.opening.tag? = some (f.name, .opening) ∧
      Mended rules body f.body.reverse ∧ (f.doomed = true → ∃ rule ∈ rules, rule.Drops f.name) := by
  cases h with
  | inside h ho hb hd => exact ⟨_, _, _, rfl, rfl, h, ho, hb, hd⟩

theorem add {more more' : List OutputToken} (h : s.Mends rules opened tokens)
    (hm : Mended rules more more') (names : List String) :
    ((more'.foldl State.emit s).see names).Mends rules opened (tokens ++ more) := by
  cases h with
  | outside hb =>
    rw [foldl_emit_outside]
    refine .outside ?_
    rw [List.reverse_append, List.reverse_reverse]
    exact hb.append hm
  | @inside _ _ _ _ f _ h ho hb hd =>
    rw [foldl_emit_inside, List.append_assoc, List.cons_append]
    refine .inside (f := { f with body := more'.reverse ++ f.body, inside := _ }) h ho ?_ hd
    rw [List.reverse_append, List.reverse_reverse]
    exact hb.append hm

theorem doom {parent : String} {stack : List Frame} {before : List OutputToken}
    (h : Mends rules opened tokens ⟨stack, before⟩) (hd : ∃ rule ∈ rules, rule.Drops parent) :
    Mends rules opened tokens ⟨State.doom parent stack, before⟩ := by
  induction stack generalizing opened tokens with
  | nil => exact h
  | cons f stack ih =>
    cases h with
    | inside h ho hb hf =>
      rw [State.doom]
      split
      · rename_i hname
        exact .inside (f := { f with doomed := true }) h ho hb fun _ => hname ▸ hd
      · exact .inside (ih h) ho hb hf

theorem close {body : List OutputToken} (h : s.Mends rules opened tokens)
    (ho : f.opening.tag? = some (f.name, .opening))
    (hc : closing.tag? = some (f.name, .closing)) (hb : Mended rules body f.body.reverse)
    (hd : f.doomed = true → ∃ rule ∈ rules, rule.Drops f.name) :
    (State.close rules s f closing).Mends rules opened
      (tokens ++ f.opening :: (body ++ [closing])) := by
  have hkept (added : List OutputToken) (names : List String) (ha : Addition rules f.name added) :
      (s.finish { f with inside := names } (added ++ [closing])).Mends rules opened
        (tokens ++ f.opening :: (body ++ [closing])) := by
    rw [State.finish]
    refine h.add ?_ _
    simpa using Mended.kept ho hc ha hb .nil
  have hdropped (hd : ∃ rule ∈ rules, rule.Drops f.name) :
      s.Mends rules opened (tokens ++ f.opening :: (body ++ [closing])) := by
    have hm := h.add (.dropped ho hc hb.wellNested.1 hd .nil) []
    rwa [List.foldl_nil, see_nil] at hm
  rw [State.close]
  split
  · rename_i hdoomed
    exact hdropped (hd hdoomed)
  · split
    · exact hkept [] f.inside (.inl rfl)
    · rename_i xml hb
      obtain ⟨rule, hr, ht, ha⟩ := exists_rule_of_broken hb
      exact hkept [.markup xml] _ (.inr ⟨rule, hr, xml, ht, ha, rfl⟩)
    · rename_i hb
      obtain ⟨rule, hr, ht, ha⟩ := exists_rule_of_broken hb
      exact hdropped ⟨rule, hr, .inl ⟨ht, .inl ha⟩⟩
    · rename_i parent hb
      obtain ⟨rule, hr, ht, ha⟩ := exists_rule_of_broken hb
      exact (hdropped ⟨rule, hr, .inl ⟨ht, .inr ⟨parent, ha⟩⟩⟩).doom ⟨rule, hr, .inr ha⟩

theorem effect (h : s.Mends rules opened tokens)
    (he : Effect rules s token opened opened' s') :
    s'.Mends rules opened' (tokens ++ [token]) := by
  obtain ⟨stack, before⟩ := s
  cases he with
  | plain ht =>
    rw [see_emit]
    have hone : Mended rules [token] [token] := .plain ht .nil
    exact h.add hone _
  | @opening _ name ht =>
    exact .inside (f := ⟨name, token, [], [], false⟩) h ht .nil nofun
  | closing hstack hc =>
    cases hstack
    obtain ⟨outer, start, body, hopened, rfl, houter, ho, hb, hd⟩ := h.innermost
    obtain ⟨-, rfl⟩ := List.cons.inj hopened
    rw [List.append_assoc, List.cons_append]
    exact houter.close ho hc hb hd

end State.Mends

theorem foldl_step_mends (rules : List RepairRule) (hn : WellNested tokens) :
    Mended rules tokens (tokens.foldl (State.step rules) ⟨[], []⟩).tokens := by
  have hstart : State.Mends rules [] [] ⟨[], []⟩ := .outside .nil
  have hend := run_induction (fun _ _ _ _ _ _ h he => h.effect he) rfl hstart hn
  generalize tokens.foldl (State.step rules) ⟨[], []⟩ = s at hend ⊢
  cases hend with
  | outside h => simpa [State.tokens] using h

theorem repair_mended (rules : List RepairRule) (hn : WellNested tokens) :
    Mended rules tokens (repair rules tokens) := by
  have hrun := foldl_step_mends rules hn
  rw [repair]
  split
  · rename_i hrules
    subst hrules
    rwa [hrun.eq_of_no_rules] at hrun
  · exact hrun

end Repair

/-- Repair leaves whole elements out and puts markup of the rules before closing tags; nothing else
changes. -/
theorem repair_mends (rules : List RepairRule) {tokens : List OutputToken}
    (hn : WellNested tokens) :
    WellNested (repair rules tokens) ∧ Mended rules tokens (repair rules tokens) :=
  have hmended := Repair.repair_mended rules hn
  ⟨hmended.wellNested.2, hmended⟩

def groupRules : List RepairRule :=
  [⟨"item", ["value"], .dropWithin "group"⟩, ⟨"cell", ["p"], .insert "<p/>"⟩]

def emptyItemGroup : List OutputToken :=
  documentTokens "<root><group><x></x><item></item></group>text<cell></cell></root>"

theorem repair_mends_emptyItemGroup :
    WellNested emptyItemGroup ∧
      serialize (repair groupRules emptyItemGroup) = "<root>text<cell><p/></cell></root>" ∧
      WellNested (repair groupRules emptyItemGroup) ∧
      Mended groupRules emptyItemGroup (repair groupRules emptyItemGroup) := by
  have hn : WellNested emptyItemGroup := by
    rw [WellNested]
    decide +kernel
  exact ⟨hn, by decide +kernel, repair_mends groupRules hn⟩

end DocTemplate
