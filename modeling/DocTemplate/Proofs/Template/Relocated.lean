import DocTemplate.Proofs.Program.Blocks
import DocTemplate.Proofs.Program.Interchange
import DocTemplate.Proofs.Run.Likeness
import DocTemplate.Proofs.Template.Substitution

namespace DocTemplate

structure Groups.ReadAlike (groups groups' : Groups) : Prop where
  kind : ∀ id, (groups'.lookup id).kind = (groups.lookup id).kind
  tokens : ∀ id, (groups'.lookup id).tokens = (groups.lookup id).tokens

theorem Groups.ReadAlike.refl (groups : Groups) : groups.ReadAlike groups :=
  ⟨fun _ => rfl, fun _ => rfl⟩

structure OpenBlock.Resembles (b b' : OpenBlock) : Prop where
  tokens : b'.group.tokens = b.group.tokens
  head : b'.head = b.head
  body : Interchangeable b.body.reverse b'.body.reverse

structure Program.Resembles (p p' : Program) : Prop where
  body : Interchangeable p.body p'.body
  nodeCount : p'.nodeCount = p.nodeCount

/-- States of the parser that have read interchangeable bodies. -/
structure ProgramState.Resembles (p p' : ProgramState) : Prop where
  blocks : List.Forall₂ OpenBlock.Resembles p.blocks p'.blocks
  done : Interchangeable p.done.reverse p'.done.reverse
  nextId : p'.nextId = p.nextId

theorem Program.Resembles.refl (p : Program) : p.Resembles p := ⟨.refl _, rfl⟩

theorem Program.Resembles.trans {p p' p'' : Program} (h : p.Resembles p')
    (h' : p'.Resembles p'') : p.Resembles p'' :=
  ⟨h.body.trans h'.body, h'.nodeCount.trans h.nodeCount⟩

theorem Program.Resembles.render {p p' : Program} (h : p.Resembles p') (around : Surroundings)
    (data : List (String × Value)) (store : Store) :
    p'.render around data store = p.render around data store := by
  unfold Program.render Program.run resolveNames resolve
  simp only [h.body.resolve, h.body.exec, h.nodeCount]

theorem Group.parse_congr {α : Type} {g g' : Group} (h : g'.tokens = g.tokens) (n : Nat)
    (read : ParseState → Except ParseFault (α × ParseState)) :
    g'.parse n read = g.parse n read := by
  rw [Group.parse, Group.parse, h]

namespace ProgramState

variable {p p' : ProgramState} {body body' : List Stmt}

theorem Resembles.refl (p : ProgramState) : p.Resembles p :=
  ⟨List.forall₂_same.mpr fun _ _ => ⟨rfl, rfl, .refl _⟩, .refl _, rfl⟩

theorem nextId_extend (p : ProgramState) (body : List Stmt) (n : Nat) :
    (p.extend body n).nextId = n := by
  obtain ⟨blocks, done, nextId⟩ := p
  cases blocks <;> rfl

theorem Resembles.extend (h : p.Resembles p') (hb : Interchangeable body body') (n : Nat) :
    (p.extend body n).Resembles (p'.extend body' n) := by
  obtain ⟨blocks, done, nextId⟩ := p
  obtain ⟨blocks', done', nextId'⟩ := p'
  obtain ⟨hblocks, hdone, rfl⟩ := h
  cases hblocks with
  | nil => exact ⟨.nil, by simpa [ProgramState.extend] using hdone.append hb, rfl⟩
  | cons hb₁ hrest =>
    refine ⟨.cons ⟨hb₁.tokens, hb₁.head, ?_⟩ hrest, hdone, rfl⟩
    simpa using hb₁.body.append hb

end ProgramState

namespace ProgramState.Resembles

variable {groups groups' : Groups} {p p' : ProgramState} {item : StreamItem}
  {items : List StreamItem}

theorem step (hg : groups.ReadAlike groups') (h : p.Resembles p') (item : StreamItem) :
    Results ProgramState.Resembles (p.step groups item) (p'.step groups' item) := by
  cases item with
  | raw | sentinel =>
    refine .ok ?_
    rw [push_eq_extend, push_eq_extend, h.nextId]
    exact h.extend (.refl _) _
  | group id =>
    simp only [ProgramState.step, hg.kind, Group.parse_congr (hg.tokens id), h.nextId]
    split
    · cases (groups.lookup id).parse p.nextId parseEnd with
      | error fault => exact .error fault
      | ok found =>
        obtain ⟨keyword, n⟩ := found
        obtain ⟨blocks, done, nextId⟩ := p
        obtain ⟨blocks', done', nextId'⟩ := p'
        obtain ⟨hblocks, hdone, rfl⟩ := h
        cases hblocks with
        | nil => exact .error _
        | @cons b b' blocks blocks' hb hrest =>
          have hrest : ProgramState.Resembles ⟨blocks, done, n⟩ ⟨blocks', done', n⟩ :=
            ⟨hrest, hdone, rfl⟩
          refine .ok ?_
          rw [push_eq_extend, push_eq_extend, hb.head]
          exact hrest.extend (hb.body.toStmt b.head) n
    · cases (groups.lookup id).parse p.nextId parseForm with
      | error fault => exact .error fault
      | ok found =>
        obtain ⟨form, n⟩ := found
        cases form with
        | head head =>
          exact .ok ⟨.cons ⟨hg.tokens id, rfl, .refl _⟩ h.blocks, h.done, rfl⟩
        | stmt s =>
          have hp : ProgramState.Resembles { p with nextId := n } { p' with nextId := n } :=
            ⟨h.blocks, h.done, rfl⟩
          refine .ok ?_
          rw [push_eq_extend, push_eq_extend]
          exact hp.extend (.refl _) n

theorem foldlM (hg : groups.ReadAlike groups') (h : p.Resembles p') (items : List StreamItem) :
    Results ProgramState.Resembles (items.foldlM (ProgramState.step groups) p)
      (items.foldlM (ProgramState.step groups') p') := by
  induction items generalizing p p' with
  | nil => exact .ok h
  | cons item items ih =>
    rw [List.foldlM_cons, List.foldlM_cons]
    exact (h.step hg item).bind fun _ _ h => ih h

theorem finish (h : p.Resembles p') : Results Program.Resembles p.finish p'.finish := by
  obtain ⟨blocks, done, nextId⟩ := p
  obtain ⟨blocks', done', nextId'⟩ := p'
  obtain ⟨hblocks, hdone, rfl⟩ := h
  cases hblocks with
  | nil => exact .ok ⟨hdone, rfl⟩
  | @cons b b' _ _ hb _ =>
    have hhead : b'.group.head? = b.group.head? := by rw [Group.head?, Group.head?, hb.tokens]
    simp only [ProgramState.finish, hhead]
    cases b.group.head? with
    | some keyword => exact .error _
    | none => exact .ok ⟨hdone, rfl⟩

end ProgramState.Resembles

section

variable {groups groups' : Groups} {id : GroupId} {before passed after : List StreamItem}

/-- Wherever a `do` group is read, it adds the same statement, or fails alike. -/
theorem ProgramState.step_run (hk : (groups.lookup id).kind = .run)
    (hc : (groups.lookup id).Classified) (n : Nat) :
    ∃ read : Except ParseFault (Expr × Nat), ∀ p : ProgramState, p.nextId = n →
      p.step groups (.group id) = read.map fun (e, m) => p.extend [.run e] m := by
  have hfinish : (groups.lookup id).kind ≠ .finish := by simp [hk]
  cases hparse : (groups.lookup id).parse n parseForm with
  | error fault =>
    refine ⟨.error fault, fun p hp => ?_⟩
    simp only [step, if_neg hfinish, hp, hparse]
    rfl
  | ok found =>
    obtain ⟨form, m⟩ := found
    obtain ⟨s, s', hs, hform⟩ := Group.parse_eq_ok hparse
    rw [Group.Classified, hk] at hc
    obtain ⟨stmt, rfl, hreads⟩ := parseForm_alone hs (by rw [← hc]; rfl) hform
    rw [← hc] at hreads
    obtain ⟨e, rfl⟩ : ∃ e, stmt = .run e := by
      cases stmt <;> first | exact ⟨_, rfl⟩ | cases hreads
    refine ⟨.ok (e, m), fun p hp => ?_⟩
    simp only [step, if_neg hfinish, hp, hparse]
    exact congrArg Except.ok (push_eq_extend _ _)

theorem ProgramState.foldlM_plain (hp : ∀ item ∈ passed, item.group? = none) (p : ProgramState) :
    passed.foldlM (step groups) p = .ok (p.extend (passed.map .verbatim) p.nextId) := by
  induction passed generalizing p with
  | nil => exact congrArg Except.ok p.extend_nil.symm
  | cons item passed ih =>
    obtain ⟨hitem, hpassed⟩ := List.forall_mem_cons.mp hp
    have hstep : p.step groups item = .ok (p.extend [.verbatim item] p.nextId) := by
      cases item with
      | group id => cases hitem
      | raw | sentinel => exact congrArg Except.ok (push_eq_extend _ _)
    rw [List.foldlM_cons, hstep]
    refine (ih hpassed _).trans ?_
    rw [extend_extend, nextId_extend]
    rfl

/-- The parser comes to interchangeable bodies, whether it reads a `do` group behind or before items
that are no groups. -/
theorem ProgramState.foldlM_slide (hk : (groups.lookup id).kind = .run)
    (hc : (groups.lookup id).Classified) (hp : ∀ item ∈ passed, item.group? = none)
    (p : ProgramState) :
    Results ProgramState.Resembles ((passed ++ [StreamItem.group id]).foldlM (step groups) p)
      ((StreamItem.group id :: passed).foldlM (step groups) p) := by
  obtain ⟨read, hread⟩ := step_run hk hc p.nextId
  rw [List.foldlM_append, foldlM_plain hp, List.foldlM_cons, hread p rfl]
  change Results _ ((p.extend (passed.map .verbatim) p.nextId).step groups (.group id) >>= pure) _
  rw [hread _ (nextId_extend _ _ _)]
  cases read with
  | error fault => exact .error fault
  | ok found =>
    obtain ⟨e, m⟩ := found
    change Results _ (.ok ((p.extend (passed.map .verbatim) p.nextId).extend [.run e] m))
      (passed.foldlM (step groups) (p.extend [.run e] m))
    rw [foldlM_plain hp, extend_extend, extend_extend, nextId_extend]
    exact .ok ((ProgramState.Resembles.refl p).extend (.slide hp e) m)

end

def TemplateStream.SameReading (stream stream' : TemplateStream) : Prop :=
  Results Program.Resembles (parseProgram stream) (parseProgram stream')

namespace TemplateStream.SameReading

variable {stream stream' stream'' : TemplateStream} {groups groups' : Groups} {id : GroupId}
  {before passed after : List StreamItem}

theorem refl (stream : TemplateStream) : stream.SameReading stream := .self fun p _ => .refl p

theorem trans (h : stream.SameReading stream') (h' : stream'.SameReading stream'') :
    stream.SameReading stream'' :=
  Results.trans (R := Program.Resembles) (fun _ _ _ h h' => h.trans h') h h'

theorem of_groups (h : groups.ReadAlike groups') (items : List StreamItem) :
    SameReading ⟨items, groups⟩ ⟨items, groups'⟩ :=
  ((ProgramState.Resembles.refl _).foldlM h items).bind fun _ _ hp => hp.finish

theorem of_middle {mid mid' : List StreamItem}
    (h : ∀ p, Results ProgramState.Resembles (mid.foldlM (ProgramState.step groups) p)
      (mid'.foldlM (ProgramState.step groups) p)) :
    SameReading ⟨before ++ (mid ++ after), groups⟩ ⟨before ++ (mid' ++ after), groups⟩ := by
  unfold SameReading parseProgram
  simp only [List.foldlM_append, bind_assoc]
  refine Results.bind (R := Eq) (.self fun _ _ => rfl) fun p _ hp => ?_
  subst hp
  refine Results.bind (h p) fun _ _ h => ?_
  exact (h.foldlM (.refl groups) after).bind fun _ _ h => h.finish

theorem slide (hk : (groups.lookup id).kind = .run) (hc : (groups.lookup id).Classified)
    (hp : ∀ item ∈ passed, item.group? = none) :
    SameReading ⟨before ++ (passed ++ .group id :: after), groups⟩
      ⟨before ++ .group id :: (passed ++ after), groups⟩ := by
  have h : SameReading ⟨before ++ ((passed ++ [.group id]) ++ after), groups⟩
      ⟨before ++ ((.group id :: passed) ++ after), groups⟩ :=
    of_middle (ProgramState.foldlM_slide hk hc hp)
  rwa [List.append_assoc, List.singleton_append] at h

end TemplateStream.SameReading

structure TemplateStream.Untargeted (stream : TemplateStream) : Prop where
  openers : ∀ id, (stream.groups.lookup id).kind.isOpener →
    (stream.groups.lookup id).target.reach? = none
  classified : ∀ id, (stream.groups.lookup id).kind = .run → (stream.groups.lookup id).Classified

namespace Expander

def plain : Expander := ⟨[], none, []⟩

variable {stream out : TemplateStream} {id opener closer : GroupId}

theorem rewriterTarget?_plain (g : Group) : plain.rewriterTarget? g = none := by
  unfold rewriterTarget?
  split
  · split
    · split <;> rfl
    · rfl
  · rfl

theorem target_plain (h : (stream.groups.lookup opener).target.reach? = none) :
    (plain.target stream.groups opener closer stream.items).reach? = none := by
  simp only [target, rewriterTarget?_plain]
  split
  · exact h
  · simp [plain, ExpansionTarget.reach?]

theorem aim_untargeted (h : stream.Untargeted)
    (ht : (plain.target stream.groups opener closer stream.items).reach? = none) :
    (plain.aim stream opener closer).Untargeted ∧
      stream.groups.ReadAlike (plain.aim stream opener closer).groups := by
  have htokens (id : GroupId) : ((plain.aim stream opener closer).groups.lookup id).tokens =
      (stream.groups.lookup id).tokens := by
    simp only [aim, Groups.lookup_setTarget]
    split <;> split <;> rfl
  refine ⟨⟨fun id hk => ?_, fun id hk => ?_⟩, ⟨fun id => aim_kind, htokens⟩⟩
  · rw [aim_kind] at hk
    simp only [aim, Groups.lookup_setTarget]
    split
    · exact ht
    · split
      · exact ht
      · exact h.openers id hk
  · rw [aim_kind] at hk
    have hc := h.classified id hk
    rw [Group.Classified] at hc ⊢
    rw [aim_kind, htokens, hc]

theorem expandGroup_plain (h : stream.Untargeted) (ho : plain.expandGroup stream id = .ok out) :
    out.Untargeted ∧ stream.SameReading out := by
  by_cases hr : (stream.groups.lookup id).kind = .run
  · rw [expandGroup_run hr, map_eq_ok] at ho
    obtain ⟨items, hmove, rfl⟩ := ho
    refine ⟨⟨h.openers, h.classified⟩, ?_⟩
    obtain ⟨back, front, halong, hmoved⟩ := moveGroup_cases stream.groups .left none
      (mem_of_moveGroup hmove)
    obtain ⟨passed, rest, rfl, hwalk, hplain, -⟩ := walk_none stream.groups
      (stream.groups.lookup id) .left front 0
    rw [hmoved, hwalk] at hmove
    obtain rfl := Except.ok.inj hmove
    have hsource : stream.items =
        rest.reverse ++ (passed.reverse ++ .group id :: back.reverse) := by
      have h := congrArg List.reverse halong
      simpa [Side.along] using h
    have hresult : Side.left.along (back ++ ((passed ++ rest).take passed.length ++
        .group id :: (passed ++ rest).drop passed.length)) =
          rest.reverse ++ .group id :: (passed.reverse ++ back.reverse) := by
      simp [Side.along]
    dsimp only
    rw [hresult]
    obtain ⟨items, groups⟩ := stream
    obtain rfl := hsource
    exact .slide hr (h.classified id hr) (by simpa using hplain)
  · by_cases hopener : (stream.groups.lookup id).kind.isOpener
    · rw [expandGroup_opener hopener] at ho
      obtain ⟨closer, -, ⟨hreach, rfl⟩ | ⟨tag, items, hreach, -⟩⟩ := expandPair_ok ho
      · obtain ⟨huntargeted, halike⟩ := aim_untargeted h hreach
        exact ⟨huntargeted, .of_groups halike stream.items⟩
      · rw [target_plain (h.openers id hopener)] at hreach
        cases hreach
    · rw [expandGroup_other hr hopener] at ho
      obtain rfl := Except.ok.inj ho
      exact ⟨h, .refl stream⟩

theorem expand_plain (h : stream.Untargeted) (hs : stream.Sound)
    (ho : plain.expand stream = .ok out) : stream.SameReading out := by
  obtain ⟨paired, hp, -⟩ := bind_eq_ok.mp ho
  rw [expand_eq hp] at ho
  obtain ⟨hi, -, ht⟩ := (pairGroups_iff hs).mp hp
  have hgroups : stream.groups.ReadAlike paired.groups := by
    refine ⟨ht.kind, fun id => ?_⟩
    obtain ⟨partner, he⟩ := ht.same id
    rw [he]
  have hpaired : paired.Untargeted := by
    refine ⟨fun id hk => ?_, fun id hk => ?_⟩
    · rw [ht.kind] at hk
      rw [ht.target, h.openers id hk]
    · rw [ht.kind] at hk
      have hc := h.classified id hk
      rw [Group.Classified] at hc ⊢
      rw [hgroups.kind, hgroups.tokens, hc]
  have hstart : stream.SameReading paired := by
    obtain ⟨items, groups⟩ := paired
    obtain rfl := hi
    exact .of_groups hgroups stream.items
  exact (foldlM_ok (P := fun st => st.Untargeted ∧ stream.SameReading st)
    (fun st id _ st' hst he => by
      obtain ⟨hu, hsame⟩ := expandGroup_plain hst.1 he
      exact ⟨hu, hst.2.trans hsame⟩) ⟨hpaired, hstart⟩ ho).2

end Expander

theorem Group.ofTokens_target {tokens : List Token} {span : Span} {nicknames : Nicknames}
    {g : Group} (h : Group.ofTokens tokens span nicknames = .ok g) (hk : g.kind.isOpener)
    (hg : ∀ name, g.target ≠ .tag name) : g.target.reach? = none := by
  unfold Group.ofTokens at h
  obtain ⟨⟨mark, tokens⟩, -, h⟩ := bind_eq_ok.mp h
  cases mark with
  | none =>
    obtain rfl := Except.ok.inj h
    dsimp only at hk ⊢
    generalize GroupKind.ofToken _ = kind at hk ⊢
    cases kind <;> first | rfl | cases hk
  | some t =>
    dsimp only at h
    split at h
    · cases h
    · obtain rfl := Except.ok.inj h
      dsimp only at hk hg
      generalize GroupKind.ofToken _ = kind at hk hg
      cases kind <;> first | exact absurd rfl (hg _) | cases hk

theorem TemplateStream.Lifted.untargeted {delimiters : Delimiters} {nicknames : Nicknames}
    {stream : TemplateStream} {parts : List Part} (h : stream.Lifted delimiters nicknames parts)
    (ht : ∀ g ∈ stream.groups, ∀ name, g.target ≠ .tag name) : stream.Untargeted := by
  have hlookup (id : GroupId) : (∃ g ∈ stream.groups, stream.groups.lookup id = g ∧ ∃ source,
      readGroup delimiters nicknames source = .ok g) ∨ stream.groups.lookup id = default := by
    by_cases hid : id < stream.groups.size
    · exact .inl ⟨stream.groups[id], Array.getElem_mem hid, by simp [Groups.lookup, hid], _,
        h.groups id hid⟩
    · exact .inr (by simp [Groups.lookup, hid])
  refine ⟨fun id hk => ?_, fun id hk => ?_⟩
  · rcases hlookup id with ⟨g, hg, he, source, hread⟩ | he
    · rw [he] at hk ⊢
      obtain ⟨tokens, -, hread⟩ := bind_eq_ok.mp hread
      exact Group.ofTokens_target hread hk (ht g hg)
    · rw [he]
      rfl
  · rcases hlookup id with ⟨g, hg, he, source, hread⟩ | he
    · rw [he]
      exact readGroup_classified hread
    · rw [he] at hk
      cases hk

/-- In a document whose groups name no target, an expansion without rules preserves what the
document means: the stream is read as a program before and after it, or has the same fault, and for
all data both programs write the same tokens, or fail alike, and leave the same store. -/
theorem render_relocated {fileType : FileType} {delimiters : Delimiters} {document : String}
    {stream out : TemplateStream} (hs : readStream fileType delimiters document = .ok stream)
    (ht : ∀ g ∈ stream.groups, ∀ name, g.target ≠ .tag name)
    (ho : Expander.plain.expand stream = .ok out) :
    (∃ fault, parseProgram stream = .error fault ∧ parseProgram out = .error fault) ∨
      ∃ p p', parseProgram stream = .ok p ∧ parseProgram out = .ok p' ∧
        ∀ around data store, p'.render around data store = p.render around data store := by
  obtain ⟨pieces, htokens, hextract⟩ := bind_eq_ok.mp hs
  obtain ⟨parts, -, hlifted⟩ := extractGroups_lifted (reportAs_eq_ok.mp htokens)
    (reportAs_eq_ok.mp hextract)
  have hsame := Expander.expand_plain (hlifted.untargeted ht) hlifted.sound ho
  unfold TemplateStream.SameReading at hsame
  generalize parseProgram stream = read, parseProgram out = read' at hsame
  cases hsame with
  | ok h => exact .inr ⟨_, _, rfl, rfl, h.render⟩
  | error fault => exact .inl ⟨fault, rfl, rfl⟩

def doInLoop : String := "<t>\x7bfor x in xs\x7da</t><t>b\x7bdo x\x7d\x7bend\x7d</t>"

def relocated? (document : String) : Option (TemplateStream × TemplateStream) :=
  match readStream Template.textInT .standard document with
  | .ok stream => (Expander.plain.expand stream).toOption.map (stream, ·)
  | .error _ => none

theorem of_relocated? {document : String} {stream out : TemplateStream}
    (h : relocated? document = some (stream, out)) :
    readStream Template.textInT .standard document = .ok stream ∧
      Expander.plain.expand stream = .ok out := by
  unfold relocated? at h
  split at h
  next stream' hs =>
    obtain ⟨out', ho, he⟩ := Option.map_eq_some_iff.mp h
    obtain ⟨rfl, rfl⟩ := Prod.mk.inj he
    exact ⟨hs, ok_of_toOption ho⟩
  next => cases h

theorem render_relocated_doInLoop :
    ∃ stream out, readStream Template.textInT .standard doInLoop = .ok stream ∧
      (∀ g ∈ stream.groups, ∀ name, g.target ≠ .tag name) ∧
      Expander.plain.expand stream = .ok out ∧ out.items ≠ stream.items ∧
      ∃ p p', parseProgram stream = .ok p ∧ parseProgram out = .ok p' ∧
        ∀ around data store, p'.render around data store = p.render around data store := by
  have hfound : (relocated? doInLoop).map (fun found =>
      (found.1.groups.map Group.target, decide (found.2.items ≠ found.1.items),
        (parseProgram found.1).isOk)) = some (#[.auto, .outermost, .auto], true, true) := by
    decide +kernel
  obtain ⟨⟨stream, out⟩, hresult, hdata⟩ := Option.map_eq_some_iff.mp hfound
  obtain ⟨htargets, hmoved, hparses⟩ := by simpa using hdata
  obtain ⟨hs, ho⟩ := of_relocated? hresult
  have ht : ∀ g ∈ stream.groups, ∀ name, g.target ≠ .tag name := by
    intro g hg name he
    have hmem : g.target ∈ stream.groups.map Group.target := Array.mem_map.mpr ⟨g, hg, rfl⟩
    rw [htargets, he] at hmem
    simp at hmem
  refine ⟨stream, out, hs, ht, ho, by simpa using hmoved, ?_⟩
  rcases render_relocated hs ht ho with ⟨fault, hfault, -⟩ | h
  · rw [hfault] at hparses
    cases hparses
  · exact h

end DocTemplate
