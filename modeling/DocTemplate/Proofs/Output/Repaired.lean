import DocTemplate.FileType
import DocTemplate.Proofs.Output.Elements

namespace DocTemplate

namespace RepairRule

def Holds (rule : RepairRule) (body : List OutputToken) : Prop :=
  ∃ name ∈ rule.required, name ∈ namesWithin body

/-- The markup that the rule inserts has what the rule requires. -/
def Serves (rule : RepairRule) : Prop :=
  ∀ xml, rule.action = .insert xml → ∃ name ∈ rule.required, name ∈ Repair.tagNames xml

/-- A rule before this one did not hold of the same element, and put its markup there. -/
def Overlooked (rules : List RepairRule) (rule : RepairRule) (body : List OutputToken) : Prop :=
  ∃ first xml start, [first, rule].Sublist rules ∧ first.tag = rule.tag ∧
    first.action = .insert xml ∧ body = start ++ [.markup xml] ∧ ¬ first.Holds start

end RepairRule

/-- What the rules make of an element that is left. -/
def Repaired (rules : List RepairRule) (name : String) (body : List OutputToken) : Prop :=
  ∀ rule ∈ rules, rule.tag = name → rule.Holds body ∨ rule.Overlooked rules body

namespace Repair

structure Frame.Sound (rules : List RepairRule) (f : Frame) : Prop where
  opening : f.opening.tag? = some (f.name, .opening)
  body : Elements (Repaired rules) f.body.reverse
  inside : ∀ name, name ∈ f.inside ↔ name ∈ namesWithin f.body.reverse

namespace State

/-- What holds after some tokens: the elements that are open are those of the tokens, and all that
were closed are repaired. -/
structure Sound (rules : List RepairRule) (opened : List String) (s : State) : Prop where
  opened : s.stack.map Frame.name = opened
  frames : ∀ f ∈ s.stack, f.Sound rules
  before : Elements (Repaired rules) s.before.reverse

end State

section

variable {rules : List RepairRule} {opened : List String} {s : State} {f : Frame}
  {token closing : OutputToken} {tokens extra : List OutputToken} {names : List String}

theorem mem_addName {name x : String} :
    x ∈ addName names name ↔ x ∈ names ∨ x = name := by
  rw [addName]
  split
  · rename_i h
    rw [List.contains_iff_mem] at h
    constructor
    · exact .inl
    · rintro (hx | rfl)
      · exact hx
      · exact h
  · rw [List.mem_cons, or_comm]

theorem mem_addNames {more : List String} {x : String} :
    x ∈ addNames names more ↔ x ∈ names ∨ x ∈ more := by
  induction more generalizing names with
  | nil => simp [addNames]
  | cons name more ih =>
    rw [addNames, List.foldl_cons]
    refine ih.trans ?_
    rw [mem_addName, List.mem_cons, or_assoc]

theorem foldl_emit_inside (stack : List Frame) (before tokens : List OutputToken) :
    tokens.foldl State.emit ⟨f :: stack, before⟩ =
      ⟨{ f with body := tokens.reverse ++ f.body } :: stack, before⟩ := by
  induction tokens generalizing f with
  | nil => rfl
  | cons token tokens ih =>
    rw [List.foldl_cons, State.emit, ih, List.reverse_cons, List.append_assoc]
    rfl

theorem foldl_emit_outside (before tokens : List OutputToken) :
    tokens.foldl State.emit ⟨[], before⟩ = ⟨[], tokens.reverse ++ before⟩ := by
  induction tokens generalizing before with
  | nil => rfl
  | cons token tokens ih =>
    rw [List.foldl_cons, State.emit, ih, List.reverse_cons, List.append_assoc]
    rfl

theorem see_emit (s : State) (names : List String) (token : OutputToken) :
    (s.see names).emit token = (s.emit token).see names := by
  obtain ⟨stack, before⟩ := s
  cases stack <;> rfl

theorem see_nil (s : State) : s.see [] = s := by
  obtain ⟨stack, before⟩ := s
  cases stack <;> rfl

theorem State.Sound.add (h : s.Sound rules opened) (he : Elements (Repaired rules) tokens)
    (hn : ∀ name, name ∈ names ↔ name ∈ namesWithin tokens) :
    ((tokens.foldl State.emit s).see names).Sound rules opened := by
  obtain ⟨stack, before⟩ := s
  cases stack with
  | nil =>
    rw [foldl_emit_outside]
    refine ⟨h.opened, nofun, ?_⟩
    rw [see, List.reverse_append, List.reverse_reverse]
    exact h.before.append he
  | cons f stack =>
    rw [foldl_emit_inside]
    obtain ⟨hf, hstack⟩ := List.forall_mem_cons.mp h.frames
    refine ⟨h.opened, List.forall_mem_cons.mpr ⟨⟨hf.opening, ?_, fun name => ?_⟩, hstack⟩, h.before⟩
    · rw [List.reverse_append, List.reverse_reverse]
      exact hf.body.append he
    · rw [mem_addNames, List.reverse_append, List.reverse_reverse, namesWithin_append,
        List.mem_append, hf.inside, hn]

theorem State.Sound.emit (h : s.Sound rules opened)
    (ht : ∀ name part, token.tag? = some (name, part) → part = .selfClosing)
    (hn : token.elementNames = names) : ((s.see names).emit token).Sound rules opened := by
  have hnames : namesWithin [token] = names := by
    rw [namesWithin, List.flatMap_singleton, hn]
  rw [see_emit]
  exact h.add (.single ht) fun name => by rw [hnames]

theorem elementNames_of_tag {name : String} {part : TagPart} (h : token.tag? = some (name, part)) :
    token.elementNames = if part = .closing then [] else [name] := by
  cases token with
  | raw t =>
    cases t with
    | tag =>
      obtain ⟨rfl, rfl⟩ := Prod.mk.inj (Option.some.inj h)
      rfl
    | _ => cases h
  | _ => cases h

theorem Frame.Sound.keeps_iff (hf : f.Sound rules) (rule : RepairRule) :
    rule.required.any f.inside.contains = true ↔ rule.Holds f.body.reverse := by
  simp only [List.any_eq_true, List.contains_iff_mem, hf.inside, RepairRule.Holds]

theorem Frame.Sound.broken_iff (hf : f.Sound rules) (rule : RepairRule) :
    (rule.tag == f.name && !(rule.required.any f.inside.contains)) = true ↔
      rule.tag = f.name ∧ ¬ rule.Holds f.body.reverse := by
  rw [Bool.and_eq_true, beq_iff_eq, Bool.not_eq_true', ← hf.keeps_iff rule, Bool.not_eq_true]

theorem Frame.Sound.repaired_of_none (hf : f.Sound rules) (h : brokenRule? rules f = none) :
    Repaired rules f.name f.body.reverse := by
  intro rule hr ht
  have hb := mt (hf.broken_iff rule).mpr (List.find?_eq_none.mp h rule hr)
  exact .inl (Classical.not_not.mp (not_and.mp hb ht))

theorem Frame.Sound.repaired_of_insert (hf : f.Sound rules) (hs : ∀ rule ∈ rules, rule.Serves)
    {first : RepairRule} {xml : String} (h : brokenRule? rules f = some first)
    (ha : first.action = .insert xml) :
    Repaired rules f.name (f.body.reverse ++ [.markup xml]) := by
  obtain ⟨hbroken, earlier, later, rfl, hearlier⟩ := List.find?_eq_some_iff_append.mp h
  obtain ⟨htag, hfirst⟩ := (hf.broken_iff first).mp hbroken
  intro rule hr ht
  rw [List.mem_append, List.mem_cons] at hr
  obtain hr | rfl | hr := hr
  · have hb := mt (hf.broken_iff rule).mpr (by
      simpa only [Bool.not_eq_true', Bool.not_eq_true] using hearlier rule hr)
    obtain ⟨name, hq, hin⟩ := Classical.not_not.mp (not_and.mp hb ht)
    exact .inl ⟨name, hq, by rw [namesWithin_append]; exact List.mem_append_left _ hin⟩
  · obtain ⟨name, hq, hin⟩ := hs rule (by simp) xml ha
    refine .inl ⟨name, hq, ?_⟩
    rw [namesWithin_append]
    exact List.mem_append_right _ (by simpa [namesWithin, OutputToken.elementNames] using hin)
  · have hsub : [first, rule].Sublist (earlier ++ first :: later) :=
      ((List.singleton_sublist.mpr hr).cons_cons first).trans (List.sublist_append_right _ _)
    exact .inr ⟨first, xml, _, hsub, htag.trans ht.symm, ha, rfl, hfirst⟩

theorem State.Sound.finish (names : List String) (extra : List OutputToken)
    (h : s.Sound rules opened) (hf : f.Sound rules)
    (hc : closing.tag? = some (f.name, .closing)) (he : Elements (Repaired rules) extra)
    (hn : ∀ name, name ∈ names ↔ name ∈ f.inside ∨ name ∈ namesWithin extra)
    (hr : Repaired rules f.name (f.body.reverse ++ extra)) :
    (s.finish { f with inside := names } (extra ++ [closing])).Sound rules opened := by
  have hlist : f.opening :: f.body.reverse ++ (extra ++ [closing]) =
      f.opening :: ((f.body.reverse ++ extra) ++ closing :: []) := by simp
  rw [State.finish]
  dsimp only
  rw [hlist]
  refine h.add (.element hf.opening hc hr (hf.body.append he) .nil) fun name => ?_
  have hopening := elementNames_of_tag hf.opening
  have hclosing := elementNames_of_tag hc
  simp only [namesWithin, List.flatMap_cons, List.flatMap_append, List.flatMap_nil, hopening,
    hclosing, List.mem_append, List.mem_cons, hn, hf.inside] at *
  simp

theorem map_name_doom (parent : String) (stack : List Frame) :
    (State.doom parent stack).map Frame.name = stack.map Frame.name := by
  induction stack with
  | nil => rfl
  | cons f stack ih =>
    rw [State.doom]
    split
    · rfl
    · rw [List.map_cons, List.map_cons, ih]

theorem sound_doom {parent : String} {stack : List Frame} (h : ∀ f ∈ stack, f.Sound rules) :
    ∀ f ∈ State.doom parent stack, f.Sound rules := by
  induction stack with
  | nil => exact h
  | cons f stack ih =>
    obtain ⟨hf, hstack⟩ := List.forall_mem_cons.mp h
    rw [State.doom]
    split
    · exact List.forall_mem_cons.mpr ⟨⟨hf.opening, hf.body, hf.inside⟩, hstack⟩
    · exact List.forall_mem_cons.mpr ⟨hf, ih hstack⟩

theorem State.Sound.close (h : s.Sound rules opened) (hs : ∀ rule ∈ rules, rule.Serves)
    (hf : f.Sound rules) (hc : closing.tag? = some (f.name, .closing)) :
    (State.close rules s f closing).Sound rules opened := by
  rw [State.close]
  split
  · exact h
  · split
    · rename_i hb
      have hr := hf.repaired_of_none (Option.map_eq_none_iff.mp hb)
      exact h.finish f.inside [] hf hc .nil (by simp [namesWithin])
        (by rwa [List.append_nil])
    · rename_i xml hb
      obtain ⟨first, hfirst, ha⟩ := Option.map_eq_some_iff.mp hb
      have hr := hf.repaired_of_insert hs hfirst ha
      refine h.finish _ [.markup xml] hf hc (.single nofun) (fun name => ?_) hr
      rw [mem_addNames]
      simp [namesWithin, OutputToken.elementNames]
    · exact h
    · exact ⟨(map_name_doom _ _).trans h.opened, sound_doom h.frames, h.before⟩

theorem State.Sound.step (h : s.Sound rules opened) (hs : ∀ rule ∈ rules, rule.Serves)
    {opened' : List String} (hn : nest .right opened (outputTags [token]) = some opened') :
    (State.step rules s token).Sound rules opened' := by
  have hplain {names : List String} (ht : token.tag? = none) (hnames : token.elementNames = names) :
      ((s.see names).emit token).Sound rules opened' := by
    rw [outputTags, List.filterMap_cons_none ht] at hn
    obtain rfl := Option.some.inj hn
    exact h.emit (fun _ _ he => by rw [ht] at he; cases he) hnames
  cases token with
  | text text | sentinel =>
    rw [← see_nil s]
    exact hplain rfl rfl
  | markup xml => exact hplain rfl rfl
  | raw piece =>
    cases piece with
    | content text offset isText | verbatim text offset =>
      rw [← see_nil s]
      exact hplain rfl rfl
    | tag name part text offset isText =>
      cases part with
      | selfClosing =>
        obtain rfl : opened = opened' := by
          simpa [outputTags, OutputToken.tag?, RawToken.tag?] using hn
        refine h.emit (fun _ _ he => ?_) rfl
        exact (Prod.mk.inj (Option.some.inj he)).2.symm
      | opening =>
        have hopened : nest .right opened
            (outputTags [.raw (.tag name .opening text offset isText)]) = some (name :: opened) :=
          nest_opening rfl opened
        obtain rfl : name :: opened = opened' := Option.some.inj (hopened.symm.trans hn)
        refine ⟨congrArg (name :: ·) h.opened,
          List.forall_mem_cons.mpr ⟨⟨rfl, .nil, ?_⟩, h.frames⟩, h.before⟩
        simp [namesWithin]
      | closing =>
        obtain ⟨rest, rfl, hrest⟩ : ∃ rest, opened = name :: rest ∧
            nest .right rest [] = some opened' := eq_cons_of_nest_exit hn
        obtain rfl := Option.some.inj hrest
        obtain ⟨stack, before⟩ := s
        cases stack with
        | nil => cases h.opened
        | cons f stack =>
          obtain ⟨rfl, hstack⟩ := List.cons.inj h.opened
          obtain ⟨hf, hframes⟩ := List.forall_mem_cons.mp h.frames
          rw [State.step]
          dsimp only
          rw [if_pos rfl]
          exact State.Sound.close ⟨hstack, hframes, h.before⟩ hs hf rfl

theorem State.Sound.steps (h : s.Sound rules opened) (hs : ∀ rule ∈ rules, rule.Serves)
    {final : List String} (hn : nest .right opened (outputTags tokens) = some final) :
    (tokens.foldl (State.step rules) s).Sound rules final := by
  induction tokens generalizing s opened with
  | nil =>
    obtain rfl := Option.some.inj hn
    exact h
  | cons token tokens ih =>
    rw [← List.singleton_append, outputTags_append, nest_append_eq_some] at hn
    obtain ⟨mid, htoken, htokens⟩ := hn
    exact ih (h.step hs htoken) htokens

end

end Repair

/-- What is left is well nested, and each element has what its rules require, as far as no rule was
overlooked. -/
theorem repair_satisfies {rules : List RepairRule} {tokens : List OutputToken}
    (hs : ∀ rule ∈ rules, rule.Serves) (hn : WellNested tokens) :
    WellNested (repair rules tokens) ∧
      ∀ name body, HasElement (repair rules tokens) name body →
        ∀ rule ∈ rules, rule.tag = name → rule.Holds body ∨ rule.Overlooked rules body := by
  rw [repair]
  split
  · rename_i hrules
    subst hrules
    exact ⟨hn, fun _ _ _ _ hr => absurd hr List.not_mem_nil⟩
  · have hstart : Repair.State.Sound rules [] ⟨[], []⟩ := ⟨rfl, nofun, .nil⟩
    have hend := hstart.steps hs hn
    have hstack := List.map_eq_nil_iff.mp hend.opened
    have htokens : (tokens.foldl (Repair.State.step rules) ⟨[], []⟩).tokens =
        (tokens.foldl (Repair.State.step rules) ⟨[], []⟩).before.reverse := by
      rw [Repair.State.tokens, hstack]
      exact List.append_nil _
    rw [htokens]
    exact ⟨hend.before.wellNested, fun _ _ he => hend.before.of_hasElement he⟩

theorem serves_docx : ∀ rule ∈ FileType.docx.repairRules, rule.Serves := by
  have hp : "w:p" ∈ Repair.tagNames FileType.emptyParagraph := by decide +kernel
  intro rule hr xml ha
  simp only [FileType.docx, List.mem_cons, List.not_mem_nil, or_false] at hr
  obtain rfl | rfl | rfl | rfl := hr <;> cases ha <;> exact ⟨"w:p", by decide, hp⟩

def documentTokens (document : String) : List OutputToken :=
  match tokenize [] document with
  | .ok pieces => pieces.map .raw
  | .error _ => []

/-- A table with an empty cell in its first row and no cell in its second one. -/
def emptyCellTable : List OutputToken :=
  documentTokens "<w:tbl><w:tr><w:tc></w:tc></w:tr><w:tr></w:tr></w:tbl>"

theorem repair_satisfies_emptyCellTable :
    (∀ rule ∈ FileType.docx.repairRules, rule.Serves) ∧ WellNested emptyCellTable ∧
      serialize (repair FileType.docx.repairRules emptyCellTable) =
        "<w:tbl><w:tr><w:tc><w:p></w:p></w:tc></w:tr></w:tbl>" ∧
      WellNested (repair FileType.docx.repairRules emptyCellTable) ∧
      ∀ name body, HasElement (repair FileType.docx.repairRules emptyCellTable) name body →
        ∀ rule ∈ FileType.docx.repairRules, rule.tag = name →
          rule.Holds body ∨ rule.Overlooked FileType.docx.repairRules body := by
  have hn : WellNested emptyCellTable := by
    rw [WellNested]
    decide +kernel
  exact ⟨serves_docx, hn, by decide +kernel, repair_satisfies serves_docx hn⟩

/-- Of two broken rules only the first one is applied. -/
example :
    serialize (repair [⟨"a", ["x"], .insert "<x/>"⟩, ⟨"a", ["y"], .insert "<y/>"⟩]
      (documentTokens "<a></a>")) = "<a><x/></a>" := by
  decide +kernel

end DocTemplate
