import DocTemplate.Group.Classify
import DocTemplate.Program.Parse
import DocTemplate.Proofs.Group.Lifting
import DocTemplate.Proofs.Group.Rearrangement
import Mathlib.Data.List.Forall2

namespace DocTemplate

def GroupKind.standsAlone : GroupKind → Bool
  | placeholder | run => true
  | _ => false

theorem GroupKind.not_isOpener {kind : GroupKind} (h : kind.standsAlone) :
    kind.isOpener = false := by
  cases kind <;> first | rfl | cases h

theorem GroupKind.not_isCloser {kind : GroupKind} (h : kind.standsAlone) :
    kind.isCloser = false := by
  cases kind <;> first | rfl | cases h

/-- All groups of the stream stand alone. -/
def TemplateStream.Straight (stream : TemplateStream) : Prop :=
  ∀ id ∈ groupIds stream.items, (stream.groups.lookup id).kind.standsAlone

section

variable {stream out : TemplateStream} {groups : Groups} {ids : List GroupId} {e : Expander}

theorem pairFrom_straight (h : ∀ id ∈ ids, (groups.lookup id).kind.standsAlone) :
    pairFrom groups [] ids = (groups, none) := by
  induction ids with
  | nil => rfl
  | cons id ids ih =>
    have hid := h id List.mem_cons_self
    rw [pairFrom]
    simp only [GroupKind.not_isOpener hid, GroupKind.not_isCloser hid, Bool.false_eq_true, if_false]
    exact ih fun j hj => h j (List.mem_cons_of_mem _ hj)

namespace TemplateStream.Straight

theorem pairGroups (h : stream.Straight) : pairGroups stream = .ok stream := by
  rw [DocTemplate.pairGroups, pairFrom_straight h]

theorem paired (h : stream.Straight) (hn : (groupIds stream.items).Nodup) : stream.Paired := by
  refine ⟨hn, fun id hid hc => ?_, ?_⟩
  · rw [GroupKind.not_isCloser (h id hid)] at hc
    cases hc
  · have hmarks : pairMarks stream.groups stream.items = [] := by
      rw [pairMarks_eq, List.filterMap_eq_nil_iff]
      intro id hid
      simp [memberMark, GroupKind.not_isOpener (h id hid), GroupKind.not_isCloser (h id hid)]
    rw [hmarks]
    rfl

theorem expand (h : stream.Straight) (hn : (groupIds stream.items).Nodup)
    (ho : e.expand stream = .ok out) : stream.Rearranged out := by
  rw [Expander.expand_eq h.pairGroups] at ho
  exact .of_steps (h.paired hn) (Expander.foldlM_steps (h.paired hn) (fun _ hid => hid) ho)

end TemplateStream.Straight

end

def GroupKind.Reads : GroupKind → Stmt → Prop
  | placeholder, .expr _ => True
  | placeholder, .declare _ _ => True
  | run, .run _ => True
  | _, _ => False

def Group.Classified (g : Group) : Prop :=
  g.kind = GroupKind.ofToken ((g.tokens[1]?).map Token.kind)

theorem Group.ofTokens_classified {tokens : List Token} {span : Span} {nicknames : Nicknames}
    {g : Group} (h : Group.ofTokens tokens span nicknames = .ok g) : g.Classified := by
  unfold Group.ofTokens at h
  obtain ⟨⟨mark, tokens⟩, -, h⟩ := bind_eq_ok.mp h
  cases mark with
  | none =>
    obtain rfl := Except.ok.inj h
    rfl
  | some t =>
    dsimp only at h
    split at h
    · cases h
    · obtain rfl := Except.ok.inj h
      rfl

theorem readGroup_classified {delimiters : Delimiters} {nicknames : Nicknames}
    {source : LocatedText} {g : Group} (h : readGroup delimiters nicknames source = .ok g) :
    g.Classified := by
  obtain ⟨tokens, -, hg⟩ := bind_eq_ok.mp h
  exact Group.ofTokens_classified hg

namespace TemplateStream.Lifted

variable {delimiters : Delimiters} {nicknames : Nicknames} {stream : TemplateStream}
  {parts : List Part}

theorem sound (h : stream.Lifted delimiters nicknames parts) : stream.Sound := by
  refine ⟨?_, fun id hid => ?_⟩
  · rw [h.ids]
    exact List.nodup_range
  · rwa [h.ids, List.mem_range] at hid

theorem classified (h : stream.Lifted delimiters nicknames parts) {id : GroupId}
    (hid : id ∈ groupIds stream.items) : (stream.groups.lookup id).Classified := by
  have hsize := h.sound.inTable id hid
  rw [show stream.groups.lookup id = stream.groups[id] by simp [Groups.lookup, hsize]]
  exact readGroup_classified (h.groups id hsize)

end TemplateStream.Lifted

theorem Group.parse_eq_ok {α : Type} {g : Group} {n n' : Nat}
    {read : ParseState → Except ParseFault (α × ParseState)} {a : α}
    (h : g.parse n read = .ok (a, n')) :
    ∃ s s', s.kind = ((g.tokens[1]?).map Token.kind).getD .endOfGroup ∧
      read s = .ok (a, s') := by
  unfold Group.parse at h
  obtain ⟨⟨t, s⟩, he, h⟩ := bind_eq_ok.mp h
  obtain ⟨⟨a', s'⟩, hr, h⟩ := bind_eq_ok.mp h
  obtain ⟨rfl, -⟩ := Prod.mk.inj (Except.ok.inj h)
  refine ⟨s, s', ?_, hr⟩
  unfold ParseState.expect at he
  split at he
  next hk =>
    obtain ⟨-, rfl⟩ := Prod.mk.inj (Except.ok.inj he)
    cases hg : g.tokens with
    | nil => 
      rw [ParseState.enter, hg] at hk
      cases hk
    | cons t ts =>
      cases ts <;> rfl
  next => cases he

theorem GroupKind.ofToken_eq_run {first : Option TokenKind} (h : ofToken first = .run) :
    first = some (.keyword .run) := by
  unfold ofToken at h
  split at h <;> first | rfl | cases h

theorem parseDeclaration_ok {s s' : ParseState} {form : GroupForm}
    (h : parseDeclaration s = .ok (form, s')) :
    ∃ name init, form = .stmt (.declare name init) := by
  rw [parseDeclaration] at h
  obtain ⟨⟨name, s₁⟩, -, h⟩ := bind_eq_ok.mp h
  dsimp only at h
  split at h
  · obtain ⟨⟨e, s₂⟩, -, h⟩ := bind_eq_ok.mp h
    rw [pure_bind] at h
    obtain ⟨s₃, -, h⟩ := bind_eq_ok.mp h
    exact ⟨name, some e, (Prod.mk.inj (Except.ok.inj h)).1.symm⟩
  · rw [pure_bind] at h
    obtain ⟨s₂, -, h⟩ := bind_eq_ok.mp h
    exact ⟨name, none, (Prod.mk.inj (Except.ok.inj h)).1.symm⟩

theorem parseForm_alone {s s' : ParseState} {form : GroupForm} {first : Option TokenKind}
    (hs : s.kind = first.getD .endOfGroup) (ha : (GroupKind.ofToken first).standsAlone)
    (h : parseForm s = .ok (form, s')) :
    ∃ stmt, form = .stmt stmt ∧ (GroupKind.ofToken first).Reads stmt := by
  have hfirst {k : Keyword} (hk : s.kind = .keyword k) : first = some (.keyword k) := by
    rw [hs] at hk
    cases first with
    | none => cases hk
    | some kind => exact congrArg some hk
  have hplain (hr : s.kind ≠ .keyword .run) : GroupKind.ofToken first = .placeholder := by
    cases hk : GroupKind.ofToken first with
    | placeholder => rfl
    | run =>
      rw [GroupKind.ofToken_eq_run hk] at hs
      exact absurd hs hr
    | _ =>
      rw [hk] at ha
      cases ha
  unfold parseForm at h
  split at h
  case h_1 hk | h_2 hk | h_3 hk | h_4 hk =>
    rw [hfirst hk] at ha
    cases ha
  case h_5 hk =>
    obtain ⟨name, init, rfl⟩ := parseDeclaration_ok h
    exact ⟨_, rfl, by rw [hplain (by simp [hk])]; trivial⟩
  case h_6 hk =>
    obtain ⟨⟨e, s₁⟩, -, h⟩ := bind_eq_ok.mp h
    obtain ⟨s₂, -, h⟩ := bind_eq_ok.mp h
    obtain ⟨rfl, -⟩ := Prod.mk.inj (Except.ok.inj h)
    exact ⟨_, rfl, by rw [hfirst hk]; trivial⟩
  case h_7 hk =>
    obtain ⟨⟨e, s₁⟩, -, h⟩ := bind_eq_ok.mp h
    obtain ⟨s₂, -, h⟩ := bind_eq_ok.mp h
    obtain ⟨rfl, -⟩ := Prod.mk.inj (Except.ok.inj h)
    exact ⟨_, rfl, by rw [hplain hk]; trivial⟩

/-- The statement that an item of a stream is read as, when all groups stand alone. -/
inductive StreamItem.ReadAs (groups : Groups) : StreamItem → Stmt → Prop
  | group {id : GroupId} {stmt : Stmt} {n n' : Nat} :
      (groups.lookup id).parse n parseForm = .ok (.stmt stmt, n') →
      (groups.lookup id).kind.Reads stmt → ReadAs groups (.group id) stmt
  | raw (token : RawToken) : ReadAs groups (.raw token) (.verbatim (.raw token))
  | sentinel : ReadAs groups .sentinel (.verbatim .sentinel)

theorem ProgramState.step_straight {groups : Groups} {item : StreamItem} {done : List Stmt}
    {n : Nat} {p : ProgramState}
    (ha : ∀ id ∈ item.group?, (groups.lookup id).kind.standsAlone ∧ (groups.lookup id).Classified)
    (h : step groups ⟨[], done, n⟩ item = .ok p) :
    ∃ stmt n', item.ReadAs groups stmt ∧ p = ⟨[], stmt :: done, n'⟩ := by
  cases item with
  | raw token =>
    obtain rfl := Except.ok.inj h
    exact ⟨_, n, .raw token, rfl⟩
  | sentinel =>
    obtain rfl := Except.ok.inj h
    exact ⟨_, n, .sentinel, rfl⟩
  | group id =>
    obtain ⟨halone, hclass⟩ := ha id rfl
    have hfinish : (groups.lookup id).kind ≠ .finish := by
      intro hf
      rw [hf] at halone
      cases halone
    simp only [step, if_neg hfinish] at h
    obtain ⟨⟨form, n'⟩, hparse, h⟩ := bind_eq_ok.mp h
    obtain ⟨s, s', hs, hform⟩ := Group.parse_eq_ok hparse
    rw [Group.Classified] at hclass
    obtain ⟨stmt, rfl, hreads⟩ := parseForm_alone hs (hclass ▸ halone) hform
    obtain rfl := Except.ok.inj h
    exact ⟨stmt, n', .group hparse (hclass ▸ hreads), rfl⟩

/-- A stream whose groups stand alone is read item by item. -/
theorem ProgramState.foldlM_straight {groups : Groups} {items : List StreamItem}
    {done : List Stmt} {n : Nat} {p : ProgramState}
    (ha : ∀ id ∈ groupIds items,
      (groups.lookup id).kind.standsAlone ∧ (groups.lookup id).Classified)
    (h : items.foldlM (step groups) ⟨[], done, n⟩ = .ok p) :
    ∃ body n', List.Forall₂ (StreamItem.ReadAs groups) items body ∧
      p = ⟨[], body.reverse ++ done, n'⟩ := by
  induction items generalizing done n with
  | nil =>
    obtain rfl := Except.ok.inj h
    exact ⟨[], n, .nil, rfl⟩
  | cons item items ih =>
    rw [List.foldlM_cons] at h
    obtain ⟨p₁, h₁, h⟩ := bind_eq_ok.mp h
    have hitem : ∀ id ∈ item.group?, id ∈ groupIds (item :: items) := fun id hid =>
      List.mem_filterMap.mpr ⟨item, List.mem_cons_self, hid⟩
    have hitems : ∀ id ∈ groupIds items, id ∈ groupIds (item :: items) := fun id hid =>
      ((List.sublist_cons_self item items).filterMap _).subset hid
    obtain ⟨stmt, n₁, hread, rfl⟩ := step_straight (fun id hid => ha id (hitem id hid)) h₁
    obtain ⟨body, n₂, hbody, rfl⟩ := ih (fun id hid => ha id (hitems id hid)) h
    exact ⟨stmt :: body, n₂, .cons hread hbody, by simp⟩

theorem parseProgram_straight {stream : TemplateStream} {program : Program}
    (ha : ∀ id ∈ groupIds stream.items, (stream.groups.lookup id).kind.standsAlone ∧
      (stream.groups.lookup id).Classified)
    (h : parseProgram stream = .ok program) :
    List.Forall₂ (StreamItem.ReadAs stream.groups) stream.items program.body := by
  obtain ⟨p, hp, h⟩ := bind_eq_ok.mp h
  obtain ⟨body, n, hbody, rfl⟩ := ProgramState.foldlM_straight ha hp
  obtain rfl := Except.ok.inj h
  simpa using hbody

end DocTemplate
