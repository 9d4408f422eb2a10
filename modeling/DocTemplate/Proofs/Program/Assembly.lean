import DocTemplate.Proofs.Program.Building

namespace DocTemplate

open ParseState

namespace Stmt

theorem linesOfBody_append (xs ys : List Stmt) :
    linesOfBody (xs ++ ys) = linesOfBody xs ++ linesOfBody ys := by
  induction xs with
  | nil => rfl
  | cons s xs ih => rw [List.cons_append, linesOfBody, linesOfBody, ih, List.append_assoc]

theorem linesOfBody_single (s : Stmt) : linesOfBody [s] = s.lines := by
  rw [linesOfBody, linesOfBody, List.append_nil]

mutual

theorem nodes_eq (s : Stmt) : s.nodes = (s.lines.filterMap root?).flatMap Expr.nodes := by
  cases s with
  | expr e => exact (List.flatMap_singleton _ e).symm
  | declare name init =>
    rw [nodes, Expr.nodesOfOptional_eq]
    cases init <;> rfl
  | block body => exact nodesOfBody_eq body
  | ifTrue condition body => exact congrArg (condition.nodes ++ ·) (nodesOfBody_eq body)
  | forEach element items body => exact congrArg (items.nodes ++ ·) (nodesOfBody_eq body)
  | run e => exact (List.flatMap_singleton _ e).symm
  | verbatim item => rfl
  | insert keyword rewriter body => exact congrArg (rewriter.nodes ++ ·) (nodesOfBody_eq body)
  | rewrite keyword rewriter body => exact congrArg (rewriter.nodes ++ ·) (nodesOfBody_eq body)

theorem nodesOfBody_eq (body : List Stmt) :
    nodesOfBody body = ((linesOfBody body).filterMap root?).flatMap Expr.nodes := by
  cases body with
  | nil => rfl
  | cons s body =>
    rw [nodesOfBody, linesOfBody, nodes_eq s, nodesOfBody_eq body, List.filterMap_append,
      List.flatMap_append]

end

end Stmt

theorem Program.nodes_eq (p : Program) : p.nodes = p.roots.flatMap Expr.nodes :=
  Stmt.nodesOfBody_eq p.body

def BlockHead.line (h : BlockHead) : Stmt := h.toStmt []

namespace BlockHead

theorem lines_toStmt (h : BlockHead) (body : List Stmt) :
    (h.toStmt body).lines = h.line :: Stmt.linesOfBody body := by
  cases h <;> rfl

end BlockHead

def GroupForm.lines : GroupForm → List Stmt
  | head h => h.line :: Stmt.linesOfBody h.bodyStart.reverse
  | stmt s => s.lines

theorem ParseState.Builds.close {s s' : ParseState} {context : String}
    (h : s.close context = .ok s') : s.Builds s' [] := by
  unfold ParseState.close at h
  split at h
  · obtain rfl := Except.ok.inj h
    exact .advance s
  · cases h

structure Stmt.LineOf (known : Token → Prop) (line : Stmt) : Prop where
  tokens : ∀ t ∈ line.ownTokens, known t
  copies : ∀ item, line = .verbatim item → item.group? = none

theorem Stmt.LineOf.sentinel (known : Token → Prop) : (Stmt.verbatim .sentinel).LineOf known :=
  ⟨List.forall_mem_nil _, fun _ h => Stmt.verbatim.inj h ▸ rfl⟩

def FormBuilt (s : ParseState) (result : Except ParseFault (GroupForm × ParseState)) : Prop :=
  ∀ form s', result = .ok (form, s') → s.Builds s' (form.lines.filterMap Stmt.root?) ∧
    ∀ line ∈ form.lines, line.LineOf (· ∈ s.rest)

theorem parseForHead_built {s : ParseState} (hs : s.Ended) : FormBuilt s (parseForHead s) := by
  intro form s' h
  rw [parseForHead] at h
  obtain ⟨⟨element, s₁⟩, he, h⟩ := bind_eq_ok.mp h
  obtain ⟨⟨_, s₂⟩, hk, h⟩ := bind_eq_ok.mp h
  obtain ⟨⟨items, s₃⟩, hi, h⟩ := bind_eq_ok.mp h
  obtain ⟨s₄, hc, h⟩ := bind_eq_ok.mp h
  obtain ⟨rfl, rfl⟩ := Prod.mk.inj (Except.ok.inj h)
  have hb := Builds.advance s
  obtain ⟨hbe, hem⟩ := Builds.expect (hb.ended hs) (by decide) he
  have hbk := (Builds.expect ((hb.trans hbe).ended hs) (by decide) hk).1
  have hbi := ((hb.trans hbe).trans hbk).trans
    (s₂.expr_builds (((hb.trans hbe).trans hbk).ended hs) items s₃ hi)
  refine ⟨hbi.trans_still (.close hc), List.forall_mem_singleton.mpr ⟨?_, nofun⟩⟩
  exact List.forall_mem_singleton.mpr (hb.rest.subset hem)

theorem closed_built {s s₁ : ParseState} (hs : s.Ended) (hb : s.Builds s₁ [])
    (form : Expr → GroupForm) (hf : ∀ e, (form e).lines.filterMap Stmt.root? = [e])
    (hl : ∀ e, ∀ line ∈ (form e).lines, line.LineOf (· ∈ s.rest)) (context : String) :
    FormBuilt s
      (do
        let (e, s) ← s₁.expr
        let s ← s.close context
        return (form e, s)) := by
  intro a s' h
  obtain ⟨⟨e, s₂⟩, he, h⟩ := bind_eq_ok.mp h
  obtain ⟨s₃, hc, h⟩ := bind_eq_ok.mp h
  obtain ⟨rfl, rfl⟩ := Prod.mk.inj (Except.ok.inj h)
  have hbe := hb.still_trans (s₁.expr_builds (hb.ended hs) e s₂ he)
  exact ⟨hf e ▸ hbe.trans_still (.close hc), hl e⟩

theorem parseDeclaration_built {s : ParseState} (hs : s.Ended) :
    FormBuilt s (parseDeclaration s) := by
  intro form s' h
  rw [parseDeclaration] at h
  obtain ⟨⟨name, s₁⟩, hn, h⟩ := bind_eq_ok.mp h
  have hb := Builds.advance s
  obtain ⟨hbn, hnm⟩ := Builds.expect (hb.ended hs) (by decide) hn
  have hb₁ := hb.trans hbn
  have hline (init : Option Expr) :
      ∀ line ∈ (GroupForm.stmt (.declare name init)).lines, line.LineOf (· ∈ s.rest) :=
    List.forall_mem_singleton.mpr
      ⟨List.forall_mem_singleton.mpr (hb.rest.subset hnm), nofun⟩
  dsimp only at h
  split at h
  · obtain ⟨⟨e, s₂⟩, he, h⟩ := bind_eq_ok.mp h
    rw [pure_bind] at h
    obtain ⟨s₃, hc, h⟩ := bind_eq_ok.mp h
    obtain ⟨rfl, rfl⟩ := Prod.mk.inj (Except.ok.inj h)
    have hba := hb₁.trans (.advance s₁)
    have hbe := hba.trans (s₁.advance.expr_builds (hba.ended hs) e s₂ he)
    exact ⟨hbe.trans_still (.close hc), hline (some e)⟩
  · rw [pure_bind] at h
    obtain ⟨s₂, hc, h⟩ := bind_eq_ok.mp h
    obtain ⟨rfl, rfl⟩ := Prod.mk.inj (Except.ok.inj h)
    exact ⟨hb₁.trans_still (.close hc), hline none⟩

theorem parseForm_built {s : ParseState} (hs : s.Ended) : FormBuilt s (parseForm s) := by
  have hb := Builds.advance s
  have hkeyword {k : Keyword} (hk : s.kind = .keyword k) : ∀ t ∈ [s.current], t ∈ s.rest :=
    List.forall_mem_singleton.mpr (current_mem hs (by rw [hk]; exact nofun))
  have hsentinel := List.forall_mem_singleton.mpr (Stmt.LineOf.sentinel (· ∈ s.rest))
  rw [parseForm.eq_def]
  split
  · exact parseForHead_built hs
  · exact closed_built hs hb (fun e => .head (.ifTrue s.current e)) (fun _ => rfl)
      (fun _ => List.forall_mem_singleton.mpr ⟨List.forall_mem_nil _, nofun⟩) _
  · rename_i hk
    exact closed_built hs hb (fun e => .head (.insert s.current e)) (fun _ => rfl)
      (fun _ => List.forall_mem_cons.mpr ⟨⟨hkeyword hk, nofun⟩, hsentinel⟩) _
  · rename_i hk
    exact closed_built hs hb (fun e => .head (.rewrite s.current e)) (fun _ => rfl)
      (fun _ => List.forall_mem_cons.mpr ⟨⟨hkeyword hk, nofun⟩, hsentinel⟩) _
  · exact parseDeclaration_built hs
  · exact closed_built hs hb (fun e => .stmt (.run e)) (fun _ => rfl)
      (fun _ => List.forall_mem_singleton.mpr ⟨List.forall_mem_nil _, nofun⟩) _
  · exact closed_built hs (.refl s) (fun e => .stmt (.expr e)) (fun _ => rfl)
      (fun _ => List.forall_mem_singleton.mpr ⟨List.forall_mem_nil _, nofun⟩) _

theorem parseEnd_built {s s' : ParseState} {keyword : Token} (hs : s.Ended)
    (h : parseEnd s = .ok (keyword, s')) : s.Builds s' [] := by
  rw [parseEnd] at h
  obtain ⟨⟨_, s₁⟩, hk, h⟩ := bind_eq_ok.mp h
  obtain ⟨s₂, hc, h⟩ := bind_eq_ok.mp h
  obtain ⟨rfl, rfl⟩ := Prod.mk.inj (Except.ok.inj h)
  exact (Builds.expect hs (by decide) hk).1.trans (.close hc)

theorem Group.parse_builds {α : Type} {g : Group} {lo hi : Nat} {a : α}
    {read : ParseState → Except ParseFault (α × ParseState)}
    (h : g.parse lo read = .ok (a, hi)) :
    g.head?.isSome ∧ ∃ s s', s.Ended ∧ (ParseState.enter g.tokens lo).Builds s [] ∧
      read s = .ok (a, s') ∧ s'.nextId = hi := by
  rw [Group.parse] at h
  obtain ⟨⟨t, s⟩, ho, h⟩ := bind_eq_ok.mp h
  obtain ⟨⟨a', s'⟩, ha, h⟩ := bind_eq_ok.mp h
  obtain ⟨rfl, rfl⟩ := Prod.mk.inj (Except.ok.inj h)
  have hs : (ParseState.enter g.tokens lo).Ended := ⟨rfl, rfl⟩
  obtain ⟨hb, ht⟩ := Builds.expect hs (by decide) ho
  refine ⟨?_, s, s', hb.ended hs, hb, ha, rfl⟩
  obtain ⟨first, rest, hg⟩ := List.exists_cons_of_ne_nil (List.ne_nil_of_mem ht)
  rw [Group.head?, show g.tokens = first :: rest from hg]
  cases rest <;> rfl

namespace ProgramState

def lines (p : ProgramState) : List Stmt :=
  Stmt.linesOfBody p.done.reverse ++
    p.blocks.reverse.flatMap fun b => b.head.line :: Stmt.linesOfBody b.body.reverse

variable {groups : Groups} {p p' : ProgramState} {item : StreamItem} {known : Token → Prop}

theorem lines_push (p : ProgramState) (s : Stmt) : (p.push s).lines = p.lines ++ s.lines := by
  obtain ⟨blocks, done, nextId⟩ := p
  cases blocks with
  | nil => simp [push, lines, Stmt.linesOfBody_append, Stmt.linesOfBody_single]
  | cons b blocks => simp [push, lines, Stmt.linesOfBody_append, Stmt.linesOfBody_single]

theorem nextId_push (p : ProgramState) (s : Stmt) : (p.push s).nextId = p.nextId := by
  unfold push
  split <;> rfl

theorem group_push {b : OpenBlock} {s : Stmt} (h : b ∈ (p.push s).blocks) :
    ∃ b' ∈ p.blocks, b'.group = b.group := by
  obtain ⟨blocks, done, nextId⟩ := p
  cases blocks with
  | nil => cases h
  | cons b' blocks =>
    rcases List.mem_cons.mp h with rfl | h
    · exact ⟨b', by simp, rfl⟩
    · exact ⟨b, List.mem_cons_of_mem _ h, rfl⟩

theorem lines_finish (b : OpenBlock) (blocks : List OpenBlock) (done : List Stmt) (n m : Nat) :
    (push ⟨blocks, done, n⟩ (b.head.toStmt b.body.reverse)).lines =
      lines ⟨b :: blocks, done, m⟩ := by
  rw [lines_push, BlockHead.lines_toStmt]
  simp [lines]

/-- All expressions so far are numbered in the order of the text, and made of known tokens. -/
structure Assembled (known : Token → Prop) (p : ProgramState) : Prop where
  consecutive : Consecutive 0 (p.lines.filterMap Stmt.root?) p.nextId
  nodes : ∀ e ∈ (p.lines.filterMap Stmt.root?).flatMap Expr.nodes, ∀ t ∈ e.ownTokens, known t
  lines : ∀ line ∈ p.lines, line.LineOf known
  heads : ∀ b ∈ p.blocks, b.group.head?.isSome

namespace Assembled

theorem push (hp : p.Assembled known) (hi : item.group? = none) :
    (p.push (.verbatim item)).Assembled known := by
  have hroots : (p.push (.verbatim item)).lines.filterMap Stmt.root? =
      p.lines.filterMap Stmt.root? := by
    rw [lines_push, List.filterMap_append]
    exact List.append_nil _
  constructor
  · rw [hroots, nextId_push]
    exact hp.consecutive
  · rw [hroots]
    exact hp.nodes
  · rw [lines_push]
    have hcopy : (Stmt.verbatim item).LineOf known :=
      ⟨List.forall_mem_nil _, fun _ h => Stmt.verbatim.inj h ▸ hi⟩
    exact List.forall_mem_append.mpr ⟨hp.lines, List.forall_mem_singleton.mpr hcopy⟩
  · intro b hb
    obtain ⟨b', hb', he⟩ := group_push hb
    exact he ▸ hp.heads b' hb'

theorem extend (hp : p.Assembled known) {form : GroupForm} {g : Group} {hi : Nat}
    (hg : g.parse p.nextId parseForm = .ok (form, hi)) (hk : ∀ t ∈ g.tokens, known t)
    (hlines : p'.lines = p.lines ++ form.lines) (hnext : p'.nextId = hi)
    (hheads : ∀ b ∈ p'.blocks, b.group = g ∨ ∃ b' ∈ p.blocks, b'.group = b.group) :
    p'.Assembled known := by
  obtain ⟨hhead, s, s', hs, hb, hf, rfl⟩ := Group.parse_builds hg
  obtain ⟨hbf, hlf⟩ := parseForm_built hs form s' hf
  have hbg := hb.still_trans hbf
  constructor
  · rw [hlines, hnext, List.filterMap_append]
    exact hp.consecutive.append hbg.consecutive
  · rw [hlines, List.filterMap_append, List.flatMap_append]
    refine List.forall_mem_append.mpr ⟨hp.nodes, fun e he t ht => ?_⟩
    exact hk t (hbg.tokens e he t ht)
  · rw [hlines]
    refine List.forall_mem_append.mpr ⟨hp.lines, fun line hl => ?_⟩
    obtain ⟨htokens, hcopies⟩ := hlf line hl
    exact ⟨fun t ht => hk t (hb.rest.subset (htokens t ht)), hcopies⟩
  · intro b hb
    rcases hheads b hb with rfl | ⟨b', hb', he⟩
    · exact hhead
    · exact he ▸ hp.heads b' hb'

theorem step (hp : p.Assembled known)
    (hk : ∀ id, item = .group id → ∀ t ∈ (groups.lookup id).tokens, known t)
    (h : p.step groups item = .ok p') : p'.Assembled known := by
  cases item with
  | group id =>
    simp only [ProgramState.step] at h
    split at h
    · obtain ⟨⟨keyword, nextId⟩, hg, h⟩ := bind_eq_ok.mp h
      obtain ⟨-, s, s', hs, hb, he, rfl⟩ := Group.parse_builds hg
      have hpl := hp.consecutive.append (hb.still_trans (parseEnd_built hs he)).consecutive
      obtain ⟨blocks, done, nextId⟩ := p
      cases blocks with
      | nil => cases h
      | cons b blocks =>
        obtain rfl := Except.ok.inj h
        rw [List.append_nil] at hpl
        have hlines := lines_finish b blocks done s'.nextId nextId
        constructor
        · rw [hlines, nextId_push]
          exact hpl
        · rw [hlines]
          exact hp.nodes
        · rw [hlines]
          exact hp.lines
        · intro b' hb'
          obtain ⟨b'', hb'', he⟩ := group_push hb'
          exact he ▸ hp.heads b'' (List.mem_cons_of_mem _ hb'')
    · obtain ⟨⟨form, nextId⟩, hg, h⟩ := bind_eq_ok.mp h
      cases form with
      | head head =>
        obtain rfl := Except.ok.inj h
        refine hp.extend hg (hk id rfl) ?_ rfl fun b hb => ?_
        · simp [ProgramState.lines, GroupForm.lines]
        · rcases List.mem_cons.mp hb with rfl | hb
          · exact .inl rfl
          · exact .inr ⟨b, hb, rfl⟩
      | stmt s =>
        obtain rfl := Except.ok.inj h
        refine hp.extend hg (hk id rfl) (lines_push _ _) (nextId_push _ _) fun b hb => ?_
        obtain ⟨b', hb', he⟩ := group_push hb
        exact .inr ⟨b', hb', he⟩
  | raw token =>
    obtain rfl := Except.ok.inj h
    exact hp.push rfl
  | sentinel =>
    obtain rfl := Except.ok.inj h
    exact hp.push rfl

end Assembled

end ProgramState

/-- What holds of a parsed program: its nodes are numbered in the order of the text, and what it
keeps are tokens of groups that are known. -/
structure Program.Assembled (known : Token → Prop) (p : Program) : Prop where
  consecutive : Consecutive 0 p.roots p.nodeCount
  nodes : ∀ e ∈ p.nodes, ∀ t ∈ e.ownTokens, known t
  lines : ∀ line ∈ p.lines, line.LineOf known

theorem parseProgram_assembled {stream : TemplateStream} {program : Program}
    (h : parseProgram stream = .ok program) :
    program.Assembled fun t => ∃ id ∈ groupIds stream.items,
      t ∈ (stream.groups.lookup id).tokens := by
  rw [parseProgram] at h
  obtain ⟨p, hp, h⟩ := bind_eq_ok.mp h
  have hstart : ProgramState.Assembled (fun t => ∃ id ∈ groupIds stream.items,
      t ∈ (stream.groups.lookup id).tokens) ⟨[], [], 0⟩ := by
    have hnone : ProgramState.lines ⟨[], [], 0⟩ = [] := by
      simp [ProgramState.lines, Stmt.linesOfBody]
    constructor
    · rw [hnone]
      exact .nil 0
    · rw [hnone]
      exact List.forall_mem_nil _
    · rw [hnone]
      exact List.forall_mem_nil _
    · exact List.forall_mem_nil _
  have ha := foldlM_ok (fun _ item hitem _ hs hf => ProgramState.Assembled.step hs
    (fun id he t ht => ⟨id, List.mem_filterMap.mpr ⟨item, hitem, by rw [he]; rfl⟩, ht⟩) hf)
    hstart hp
  rw [ProgramState.finish] at h
  split at h
  · rename_i hb
    obtain rfl := Except.ok.inj h
    have hlines : p.lines = Program.lines ⟨p.done.reverse, p.nextId⟩ := by
      rw [ProgramState.lines, hb]
      exact List.append_nil _
    refine ⟨?_, ?_, hlines ▸ ha.lines⟩
    · rw [Program.roots, ← hlines]
      exact ha.consecutive
    · rw [Program.nodes_eq, Program.roots, ← hlines]
      exact ha.nodes
  · -- a block that is open has a first token, so parsing fails here
    rename_i b blocks hb
    split at h
    · cases h
    · rename_i hh
      have hsome := ha.heads b (hb ▸ List.mem_cons_self)
      rw [hh] at hsome
      cases hsome

/-- A program keeps tokens of its groups only. -/
theorem parseProgram_tokens {stream : TemplateStream} {program : Program}
    (h : parseProgram stream = .ok program) :
    ∀ t ∈ program.tokens, ∃ id ∈ groupIds stream.items, t ∈ (stream.groups.lookup id).tokens := by
  have ha := parseProgram_assembled h
  intro t ht
  rcases List.mem_append.mp ht with ht | ht
  · obtain ⟨line, hl, ht⟩ := List.mem_flatMap.mp ht
    exact (ha.lines line hl).tokens t ht
  · obtain ⟨e, he, ht⟩ := List.mem_flatMap.mp ht
    exact ha.nodes e he t ht

end DocTemplate
