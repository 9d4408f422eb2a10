import DocTemplate.Proofs.Expr.Faults
import DocTemplate.Proofs.Program.Straight

namespace DocTemplate

/-- The items that lie inside no pair, among them the openers of pairs. Inside a pair, `inside` is
the closer that ends it. -/
def surface (groups : Groups) (inside : Option GroupId) : List StreamItem → List StreamItem
  | [] => []
  | item :: items =>
    match inside, item with
    | some closer, item => surface groups (if item = .group closer then none else some closer) items
    | none, .group id =>
      let g := groups.lookup id
      .group id :: surface groups (if g.kind.isOpener then g.partner else none) items
    | none, item => item :: surface groups none items

def StreamItem.stmt (read : GroupId → Stmt) : StreamItem → Stmt
  | .group id => read id
  | item => .verbatim item

namespace Stmt

mutual

def blocks : Stmt → List Stmt
  | s@(.ifTrue _ body) => s :: blocksOfBody body
  | s@(.forEach _ _ body) => s :: blocksOfBody body
  | s@(.insert _ _ body) => s :: blocksOfBody body
  | s@(.rewrite _ _ body) => s :: blocksOfBody body
  | .block body => blocksOfBody body
  | _ => []

def blocksOfBody : List Stmt → List Stmt
  | [] => []
  | s :: ss => blocks s ++ blocksOfBody ss

end

end Stmt

def BlockHead.kind : BlockHead → GroupKind
  | forEach .. => .forEach
  | ifTrue .. => .ifTrue
  | insert .. => .insert
  | rewrite .. => .rewrite

/-- A block for each pair: `read` says what groups are read as, and `body` has the statements of the
items that lie inside no pair. The block of a pair has the items between its members that lie in no
pair further in, and no other block is there. -/
structure Blocks (groups : Groups) (items : List StreamItem) (body : List Stmt)
    (read : GroupId → Stmt) : Prop where
  outside : body = (surface groups none items).map (StreamItem.stmt read)
  inside : ∀ id ∈ groupIds items, (groups.lookup id).kind.isOpener →
    ∃ before within closer after head n n',
      items = before ++ .group id :: (within ++ .group closer :: after) ∧
      (groups.lookup id).partner = some closer ∧
      (groups.lookup id).parse n parseForm = .ok (.head head, n') ∧
      head.kind = (groups.lookup id).kind ∧
      read id = head.toStmt
        (head.bodyStart ++ (surface groups none within).map (StreamItem.stmt read))
  alone : ∀ id ∈ groupIds items, (groups.lookup id).kind.standsAlone →
    StreamItem.ReadAs groups (.group id) (read id)
  once : Stmt.blocksOfBody body =
    ((groupIds items).filter fun id => (groups.lookup id).kind.isOpener).map read

section

variable {groups : Groups} {id opener closer : GroupId} {item : StreamItem}
  {items within after : List StreamItem} {body more : List Stmt} {read read' : GroupId → Stmt}

theorem surface_unpaired (h : groups.Unpaired item) :
    surface groups none (item :: items) = item :: surface groups none items := by
  cases item with
  | group id => simp [surface, (h id rfl).1]
  | raw | sentinel => rfl

theorem surface_inside (h : .group closer ∉ within) :
    surface groups (some closer) (within ++ .group closer :: after) =
      surface groups none after := by
  induction within with
  | nil => simp [surface]
  | cons item within ih =>
    obtain ⟨hi, hw⟩ := not_or.mp (List.mem_cons.not.mp h)
    rw [List.cons_append, surface, if_neg (Ne.symm hi), ih hw]

theorem surface_pair (hl : groups.Linked opener closer) (h : .group closer ∉ within) :
    surface groups none (.group opener :: (within ++ .group closer :: after)) =
      .group opener :: surface groups none after := by
  simp only [surface, hl.isOpener, if_true, hl.toCloser, surface_inside h]

theorem surface_sublist (inside : Option GroupId) :
    (surface groups inside items).Sublist items := by
  induction items generalizing inside with
  | nil => exact .slnil
  | cons item items ih =>
    cases inside with
    | some closer => exact (ih _).cons _
    | none => cases item <;> exact (ih _).cons_cons _

theorem map_stmt_congr (h : ∀ id ∈ groupIds items, read' id = read id) :
    (surface groups none items).map (StreamItem.stmt read') =
      (surface groups none items).map (StreamItem.stmt read) := by
  refine List.map_congr_left fun item hi => ?_
  cases item with
  | group id => exact h id (mem_groupIds.mpr ((surface_sublist none).subset hi))
  | raw | sentinel => rfl

theorem groupIds_append (items items' : List StreamItem) :
    groupIds (items ++ items') = groupIds items ++ groupIds items' := List.filterMap_append

theorem groupIds_group (id : GroupId) (items : List StreamItem) :
    groupIds (.group id :: items) = id :: groupIds items := rfl

theorem BlockHead.blocks_toStmt (head : BlockHead) (body : List Stmt) :
    (head.toStmt (head.bodyStart ++ body)).blocks =
      head.toStmt (head.bodyStart ++ body) :: Stmt.blocksOfBody body := by
  cases head <;> rfl

theorem StreamItem.ReadAs.blocks {stmt : Stmt} (h : item.ReadAs groups stmt) :
    stmt.blocks = [] := by
  cases h with
  | raw | sentinel => rfl
  | @group id stmt n n' hparse hreads =>
    cases hk : (groups.lookup id).kind <;> cases stmt <;> rw [hk] at hreads <;>
      first | rfl | cases hreads

namespace Blocks

theorem nil (read : GroupId → Stmt) : Blocks groups [] [] read := ⟨rfl, nofun, nofun, rfl⟩

theorem congr (h : Blocks groups items body read) (hr : ∀ id ∈ groupIds items, read' id = read id) :
    Blocks groups items body read' := by
  refine ⟨?_, fun id hid ho => ?_, fun id hid ha => ?_, ?_⟩
  · rw [h.outside, map_stmt_congr hr]
  · obtain ⟨before, within, closer, after, head, n, n', rfl, hp, hparse, hk, hread⟩ :=
      h.inside id hid ho
    refine ⟨before, within, closer, after, head, n, n', rfl, hp, hparse, hk, ?_⟩
    rw [hr id hid, hread, map_stmt_congr fun j hj => hr j ?_]
    simp [groupIds_append, groupIds_group, hj]
  · rw [hr id hid]
    exact h.alone id hid ha
  · rw [h.once]
    exact List.map_congr_left fun id hid => (hr id (List.mem_filter.mp hid).1).symm

theorem cons (h : Blocks groups items body read) (hu : groups.Unpaired item)
    (hs : item.ReadAs groups (item.stmt read)) :
    Blocks groups (item :: items) (item.stmt read :: body) read := by
  have hids : ∀ id ∈ groupIds (item :: items), item = .group id ∨ id ∈ groupIds items := by
    intro id hid
    rcases List.mem_cons.mp (mem_groupIds.mp hid) with hi | hi
    · exact .inl hi.symm
    · exact .inr (mem_groupIds.mpr hi)
  refine ⟨?_, fun id hid ho => ?_, fun id hid ha => ?_, ?_⟩
  · rw [surface_unpaired hu, h.outside, List.map_cons]
  · rcases hids id hid with rfl | hid
    · exact absurd ho (hu id rfl).1
    · obtain ⟨before, within, closer, after, head, n, n', rfl, hrest⟩ := h.inside id hid ho
      exact ⟨item :: before, within, closer, after, head, n, n', rfl, hrest⟩
  · rcases hids id hid with rfl | hid
    · exact hs
    · exact h.alone id hid ha
  · rw [Stmt.blocksOfBody, hs.blocks, h.once]
    cases item with
    | group id => simp [groupIds_group, (hu id rfl).1]
    | raw | sentinel => rfl

theorem pair {head : BlockHead} {n n' : Nat} (hw : Blocks groups within body read)
    (ha : Blocks groups after more read) (hl : groups.Linked opener closer)
    (hn : .group closer ∉ within)
    (hp : (groups.lookup opener).parse n parseForm = .ok (.head head, n'))
    (hk : head.kind = (groups.lookup opener).kind)
    (hread : read opener = head.toStmt (head.bodyStart ++ body)) :
    Blocks groups (.group opener :: (within ++ .group closer :: after)) (read opener :: more)
      read := by
  have hco : ¬ (groups.lookup closer).kind.isOpener := fun ho => by
    have hc := hl.isCloser
    rw [GroupKind.not_isCloser_of_isOpener ho] at hc
    cases hc
  have hids : groupIds (.group opener :: (within ++ .group closer :: after)) =
      opener :: (groupIds within ++ closer :: groupIds after) := by
    rw [groupIds_group, groupIds_append, groupIds_group]
  have hcases : ∀ id ∈ groupIds (.group opener :: (within ++ .group closer :: after)),
      id = opener ∨ id = closer ∨ id ∈ groupIds within ∨ id ∈ groupIds after := by
    intro id hid
    simpa [hids, or_left_comm] using hid
  refine ⟨?_, fun id hid ho => ?_, fun id hid hal => ?_, ?_⟩
  · rw [surface_pair hl hn, ha.outside]
    rfl
  · rcases hcases id hid with rfl | rfl | hid | hid
    · refine ⟨[], within, closer, after, head, n, n', rfl, hl.toCloser, hp, hk, ?_⟩
      rw [hread, hw.outside]
    · exact absurd ho hco
    · obtain ⟨before', within', closer', after', head', m, m', rfl, hrest⟩ := hw.inside id hid ho
      exact ⟨.group opener :: before', within', closer', after' ++ .group closer :: after, head', m,
        m', by simp, hrest⟩
    · obtain ⟨before', within', closer', after', head', m, m', rfl, hrest⟩ := ha.inside id hid ho
      exact ⟨.group opener :: (within ++ .group closer :: before'), within', closer', after', head',
        m, m', by simp, hrest⟩
  · rcases hcases id hid with rfl | rfl | hid | hid
    · have ho := hl.isOpener
      rw [GroupKind.not_isOpener hal] at ho
      cases ho
    · have hc := hl.isCloser
      rw [GroupKind.not_isCloser hal] at hc
      cases hc
    · exact hw.alone id hid hal
    · exact ha.alone id hid hal
  · rw [Stmt.blocksOfBody, hread, BlockHead.blocks_toStmt, hw.once, ha.once, hids]
    simp [hl.isOpener, hco, hread]

end Blocks

end

inductive Forest (groups : Groups) : List StreamItem → Prop
  | nil : Forest groups []
  | item {item : StreamItem} {items : List StreamItem} : groups.Unpaired item →
      Forest groups items → Forest groups (item :: items)
  | pair {opener closer : GroupId} {within after : List StreamItem} :
      groups.Linked opener closer → Forest groups within → Forest groups after →
      Forest groups (.group opener :: (within ++ .group closer :: after))

theorem forest_of_nest {groups : Groups} {items : List StreamItem} (hl : groups.LinkedAt items)
    (h : nest .right [] (pairMarks groups items) = some []) : Forest groups items := by
  induction hk : items.length using Nat.strongRecOn generalizing items with
  | ind k ih =>
    subst hk
    cases items with
    | nil => exact .nil
    | cons item items =>
      have hl' : groups.LinkedAt items := fun j hj => hl j (List.mem_cons_of_mem _ hj)
      cases hm : pairMark groups item with
      | none =>
        rw [pairMarks_cons_none hm] at h
        exact .item (unpaired_of_pairMark hl hm) (ih items.length (by simp) hl' h rfl)
      | some mark =>
        obtain ⟨id, rfl, hid⟩ := pairMark_eq_some.mp hm
        rcases Side.right.pair_cases (groups.lookup id).kind with hk | hk | ⟨ho, hc⟩
        · obtain ⟨label, hlabel⟩ := memberMark_leaves (hl id (by simp)) hk
          rw [pairMarks_cons_some hm, Option.some.inj (hid.symm.trans hlabel), nest_exit_nil] at h
          cases h
        · obtain ⟨label, hlabel, hlast⟩ := memberMark_enters (hl id (by simp)) hk
          rw [pairMarks_cons_some hm, Option.some.inj (hid.symm.trans hlabel), nest_entry] at h
          obtain ⟨ys, zs, he, hy, hz⟩ := exists_exit [] h (by simp)
          obtain ⟨within, last, after, rfl, hmark, rfl, rfl⟩ := exists_of_pairMarks he
          simp only [List.length_cons, List.length_append] at ih
          refine .pair (hlast last (hl last (by simp)) hmark)
            (ih within.length (by omega) (fun j hj => hl j (by simp [hj])) hy rfl)
            (ih after.length (by omega) (fun j hj => hl j (by simp [hj])) hz rfl)
        · rw [memberMark_other ho hc] at hid
          cases hid

theorem ParseState.close_local (s : ParseState) (context : String) :
    FailsLocally (s.close context) := .ite (.ok _) (.error rfl)

theorem closedExpr_local (form : Expr → GroupForm) (s : ParseState) (context : String) :
    FailsLocally (do
      let (e, s) ← s.expr
      let s ← s.close context
      return (form e, s)) :=
  s.expr_local.bind fun ⟨_, s₁⟩ => (s₁.close_local _).bind fun _ => .ok _

theorem closedExpr_ok (form : Expr → GroupForm) {s s' : ParseState} {context : String}
    {read : GroupForm} (h : (do
      let (e, s) ← s.expr
      let s ← s.close context
      return (form e, s)) = Except.ok (read, s')) : ∃ e, read = form e := by
  obtain ⟨⟨e, s₁⟩, -, h⟩ := bind_eq_ok.mp h
  obtain ⟨s₂, -, h⟩ := bind_eq_ok.mp h
  exact ⟨e, (Prod.mk.inj (Except.ok.inj h)).1.symm⟩

theorem parseForHead_local (s : ParseState) : FailsLocally (parseForHead s) :=
  (s.advance.expect_local _ rfl).bind fun ⟨_, s₁⟩ => (s₁.expect_local _ rfl).bind
    fun ⟨_, s₂⟩ => s₂.expr_local.bind fun ⟨_, s₃⟩ => (s₃.close_local _).bind fun _ => .ok _

theorem parseDeclaration_local (s : ParseState) : FailsLocally (parseDeclaration s) := by
  have hclosed (name : Token) (init : Option Expr) (s : ParseState) : FailsLocally (do
      let s ← s.close "after variable declaration"
      return (GroupForm.stmt (.declare name init), s)) :=
    (s.close_local _).bind fun _ => .ok _
  rw [parseDeclaration]
  refine (s.advance.expect_local _ rfl).bind ?_
  rintro ⟨name, s₁⟩
  dsimp only
  split
  · exact s₁.advance.expr_local.bind fun _ => (FailsLocally.ok _).bind fun _ => hclosed name _ _
  · exact (FailsLocally.ok _).bind fun _ => hclosed name _ _

theorem parseForm_local (s : ParseState) : FailsLocally (parseForm s) := by
  rw [parseForm.eq_def]
  split
  · exact parseForHead_local s
  · exact closedExpr_local (fun e => .head (.ifTrue s.current e)) s.advance _
  · exact closedExpr_local (fun e => .head (.insert s.current e)) s.advance _
  · exact closedExpr_local (fun e => .head (.rewrite s.current e)) s.advance _
  · exact parseDeclaration_local s
  · exact closedExpr_local (fun e => .stmt (.run e)) s.advance _
  · exact closedExpr_local (fun e => .stmt (.expr e)) s _

theorem parseEnd_local (s : ParseState) : FailsLocally (parseEnd s) :=
  (s.expect_local _ rfl).bind fun ⟨_, s₁⟩ => (s₁.close_local _).bind fun _ => .ok _

theorem Group.parse_local {α : Type} {read : ParseState → Except ParseFault (α × ParseState)}
    (g : Group) (n : Nat) (hr : ∀ s, FailsLocally (read s)) : FailsLocally (g.parse n read) :=
  (ParseState.expect_local _ _ rfl).bind fun ⟨_, s⟩ => (hr s).bind fun _ => .ok _

theorem parseForm_head {s s' : ParseState} {form : GroupForm} {first : Option TokenKind}
    (hs : s.kind = first.getD .endOfGroup) (ho : (GroupKind.ofToken first).isOpener)
    (h : parseForm s = .ok (form, s')) :
    ∃ head, form = .head head ∧ head.kind = GroupKind.ofToken first := by
  unfold GroupKind.ofToken at ho ⊢
  split at ho
  · rw [parseForm, hs] at h
    obtain ⟨⟨element, s₁⟩, -, h⟩ := bind_eq_ok.mp h
    obtain ⟨⟨_, s₂⟩, -, h⟩ := bind_eq_ok.mp h
    obtain ⟨⟨items, s₃⟩, -, h⟩ := bind_eq_ok.mp h
    obtain ⟨s₄, -, h⟩ := bind_eq_ok.mp h
    exact ⟨_, (Prod.mk.inj (Except.ok.inj h)).1.symm, rfl⟩
  · rw [parseForm, hs] at h
    obtain ⟨e, rfl⟩ := closedExpr_ok (fun e => .head (.ifTrue s.current e)) h
    exact ⟨_, rfl, rfl⟩
  · rw [parseForm, hs] at h
    obtain ⟨e, rfl⟩ := closedExpr_ok (fun e => .head (.insert s.current e)) h
    exact ⟨_, rfl, rfl⟩
  · rw [parseForm, hs] at h
    obtain ⟨e, rfl⟩ := closedExpr_ok (fun e => .head (.rewrite s.current e)) h
    exact ⟨_, rfl, rfl⟩
  all_goals cases ho

namespace ProgramState

def extend (p : ProgramState) (body : List Stmt) (nextId : Nat) : ProgramState :=
  match p.blocks with
  | b :: blocks =>
    { p with blocks := { b with body := body.reverse ++ b.body } :: blocks, nextId := nextId }
  | [] => { p with done := body.reverse ++ p.done, nextId := nextId }

variable {groups : Groups} {p p' : ProgramState} {id closer : GroupId} {item : StreamItem}

theorem extend_nil (p : ProgramState) : p.extend [] p.nextId = p := by
  obtain ⟨blocks, done, nextId⟩ := p
  cases blocks <;> rfl

theorem extend_extend (p : ProgramState) (body more : List Stmt) (n m : Nat) :
    (p.extend body n).extend more m = p.extend (body ++ more) m := by
  obtain ⟨blocks, done, nextId⟩ := p
  cases blocks <;> simp [extend]

theorem push_eq_extend (p : ProgramState) (s : Stmt) : p.push s = p.extend [s] p.nextId := by
  obtain ⟨blocks, done, nextId⟩ := p
  cases blocks <;> rfl

def opened (p : ProgramState) (g : Group) (head : BlockHead) (n : Nat) : ProgramState :=
  { p with blocks := ⟨g, head, head.bodyStart⟩ :: p.blocks, nextId := n }

theorem step_opener (ho : (groups.lookup id).kind.isOpener) (hc : (groups.lookup id).Classified) :
    FailsLocally (p.step groups (.group id)) ∧
      ∀ p', p.step groups (.group id) = .ok p' → ∃ head n,
        (groups.lookup id).parse p.nextId parseForm = .ok (.head head, n) ∧
          head.kind = (groups.lookup id).kind ∧ p' = p.opened (groups.lookup id) head n := by
  have hf : (groups.lookup id).kind ≠ .finish := fun hf => by
    rw [hf] at ho
    cases ho
  simp only [step, if_neg hf]
  refine ⟨(Group.parse_local _ _ parseForm_local).bind fun read => ?_, fun p' h => ?_⟩
  · obtain ⟨form, n⟩ := read
    cases form <;> exact .ok _
  · obtain ⟨⟨form, n⟩, hparse, h⟩ := bind_eq_ok.mp h
    obtain ⟨s, s', hs, hform⟩ := Group.parse_eq_ok hparse
    rw [Group.Classified] at hc
    obtain ⟨head, rfl, hk⟩ := parseForm_head hs (hc ▸ ho) hform
    exact ⟨head, n, hparse, hk.trans hc.symm, (Except.ok.inj h).symm⟩

theorem step_closer {g : Group} {head : BlockHead} {n m : Nat} {body : List Stmt}
    (hc : (groups.lookup closer).kind.isCloser) :
    FailsLocally (((p.opened g head n).extend body m).step groups (.group closer)) ∧
      ∀ p', ((p.opened g head n).extend body m).step groups (.group closer) = .ok p' →
        ∃ n', p' = p.extend [head.toStmt (head.bodyStart ++ body)] n' := by
  have hf : (groups.lookup closer).kind = .finish := by
    cases hk : (groups.lookup closer).kind <;> rw [hk] at hc <;> first | rfl | cases hc
  have hstart : head.bodyStart.reverse = head.bodyStart := by cases head <;> rfl
  simp only [step, if_pos hf, opened, extend]
  refine ⟨(Group.parse_local _ _ parseEnd_local).bind fun _ => .ok _, fun p' h => ?_⟩
  obtain ⟨⟨keyword, n'⟩, -, h⟩ := bind_eq_ok.mp h
  obtain rfl := Except.ok.inj h
  exact ⟨n', by rw [push_eq_extend]; simp [hstart]; rfl⟩

theorem step_unpaired (hu : groups.Unpaired item)
    (hc : ∀ id ∈ item.group?, (groups.lookup id).Classified) :
    FailsLocally (p.step groups item) ∧
      ∀ p', p.step groups item = .ok p' →
        ∃ stmt n, item.ReadAs groups stmt ∧ p' = p.extend [stmt] n := by
  cases item with
  | raw token =>
    refine ⟨.ok _, fun p' h => ?_⟩
    obtain rfl := Except.ok.inj h
    exact ⟨_, _, .raw token, push_eq_extend _ _⟩
  | sentinel =>
    refine ⟨.ok _, fun p' h => ?_⟩
    obtain rfl := Except.ok.inj h
    exact ⟨_, _, .sentinel, push_eq_extend _ _⟩
  | group id =>
    obtain ⟨ho, hcl⟩ := hu id rfl
    have halone : (groups.lookup id).kind.standsAlone := by
      cases hk : (groups.lookup id).kind <;> simp_all [GroupKind.isOpener, GroupKind.isCloser,
        GroupKind.standsAlone]
    have hf : (groups.lookup id).kind ≠ .finish := fun hf => by
      rw [hf] at halone
      cases halone
    simp only [step, if_neg hf]
    refine ⟨(Group.parse_local _ _ parseForm_local).bind fun read => ?_, fun p' h => ?_⟩
    · obtain ⟨form, n⟩ := read
      cases form <;> exact .ok _
    · obtain ⟨⟨form, n⟩, hparse, h⟩ := bind_eq_ok.mp h
      obtain ⟨s, s', hs, hform⟩ := Group.parse_eq_ok hparse
      have hclass := hc id rfl
      rw [Group.Classified] at hclass
      obtain ⟨stmt, rfl, hreads⟩ := parseForm_alone hs (hclass ▸ halone) hform
      obtain rfl := Except.ok.inj h
      exact ⟨stmt, n, .group hparse (hclass ▸ hreads), push_eq_extend _ _⟩

end ProgramState

section

variable {groups : Groups} {item : StreamItem} {items : List StreamItem}

theorem exists_read {stmt : Stmt} (read : GroupId → Stmt) (h : item.ReadAs groups stmt)
    (hn : ∀ id, item = .group id → id ∉ groupIds items) :
    ∃ read', item.stmt read' = stmt ∧ ∀ id ∈ groupIds items, read' id = read id := by
  cases h with
  | raw | sentinel => exact ⟨read, rfl, fun _ _ => rfl⟩
  | @group id stmt n n' hparse hreads =>
    refine ⟨fun j => if j = id then stmt else read j, if_pos rfl, fun j hj => if_neg ?_⟩
    rintro rfl
    exact hn j rfl hj

theorem exists_reads {opener : GroupId} {within after : List StreamItem} (stmt : Stmt)
    (read read' : GroupId → Stmt) (hw : opener ∉ groupIds within) (ha : opener ∉ groupIds after)
    (hd : (groupIds within).Disjoint (groupIds after)) :
    ∃ all : GroupId → Stmt, all opener = stmt ∧ (∀ id ∈ groupIds within, all id = read id) ∧
      ∀ id ∈ groupIds after, all id = read' id := by
  refine ⟨fun j => if j = opener then stmt else if j ∈ groupIds within then read j else read' j,
    if_pos rfl, fun j hj => ?_, fun j hj => ?_⟩
  · have hne : j ≠ opener := fun he => hw (he ▸ hj)
    simp [hne, hj]
  · have hne : j ≠ opener := fun he => ha (he ▸ hj)
    have hnw : j ∉ groupIds within := fun hjw => hd hjw hj
    simp [hne, hnw]

theorem nodup_pair {opener closer : GroupId} {within after : List StreamItem}
    (hn : (groupIds (.group opener :: (within ++ .group closer :: after))).Nodup) :
    ((groupIds within).Nodup ∧ (groupIds after).Nodup ∧
        (groupIds within).Disjoint (groupIds after)) ∧
      opener ∉ groupIds within ∧ opener ∉ groupIds after ∧ closer ∉ groupIds within := by
  rw [groupIds_group, groupIds_append, groupIds_group] at hn
  obtain ⟨hopener, hn⟩ := List.nodup_cons.mp hn
  obtain ⟨hnw, hna, hd⟩ := List.nodup_append.mp hn
  refine ⟨⟨hnw, hna.of_cons, fun j hj hj' => hd j hj j (by simp [hj']) rfl⟩,
    fun hm => hopener (by simp [hm]), fun hm => hopener (by simp [hm]),
    fun hm => hd closer hm closer (by simp) rfl⟩

/-- A forest leaves the blocks around it as they are: reading it never ends one of them, and all
that it opens is closed. -/
theorem Forest.read (hf : Forest groups items) (hn : (groupIds items).Nodup)
    (hc : ∀ id ∈ groupIds items, (groups.lookup id).Classified) (p : ProgramState) :
    FailsLocally (items.foldlM (ProgramState.step groups) p) ∧
      ∀ p', items.foldlM (ProgramState.step groups) p = .ok p' →
        ∃ body read n, p' = p.extend body n ∧ Blocks groups items body read := by
  -- along the pairs, not the items: the reader comes back to the block that it was in only behind
  -- the closer of a pair
  induction hf generalizing p with
  | nil =>
    refine ⟨.ok p, fun p' h => ?_⟩
    obtain rfl := Except.ok.inj h
    exact ⟨[], fun _ => .verbatim .sentinel, _, p.extend_nil.symm, .nil _⟩
  | @item item items hu _ ih =>
    have hsub : (groupIds items).Sublist (groupIds (item :: items)) :=
      (List.sublist_cons_self item items).filterMap _
    have hnew : ∀ id, item = .group id → id ∉ groupIds items := by
      rintro id rfl
      exact (List.nodup_cons.mp hn).1
    obtain ⟨hfails, hsteps⟩ := ProgramState.step_unpaired (p := p) hu fun id hid =>
      hc id (List.mem_filterMap.mpr ⟨item, List.mem_cons_self, hid⟩)
    have ih := ih (hn.sublist hsub) fun id hid => hc id (hsub.subset hid)
    rw [List.foldlM_cons]
    refine ⟨hfails.bind fun p₁ => (ih p₁).1, fun p' h => ?_⟩
    obtain ⟨p₁, h₁, h⟩ := bind_eq_ok.mp h
    obtain ⟨stmt, n, hread, rfl⟩ := hsteps p₁ h₁
    obtain ⟨body, read, m, rfl, hblocks⟩ := (ih _).2 p' h
    obtain ⟨read', rfl, hsame⟩ := exists_read read hread hnew
    exact ⟨_, read', m, ProgramState.extend_extend .., (hblocks.congr hsame).cons hu hread⟩
  | @pair opener closer within after hl _ _ ihw iha =>
    obtain ⟨⟨hnw, hna, hwa⟩, how, hoa, hcw⟩ := nodup_pair hn
    rw [groupIds_group, groupIds_append, groupIds_group] at hc
    obtain ⟨hofails, hosteps⟩ := ProgramState.step_opener (p := p) hl.isOpener (hc opener (by simp))
    have ihw := ihw hnw fun id hid => hc id (by simp [hid])
    have iha := iha hna fun id hid => hc id (by simp [hid])
    simp only [List.foldlM_cons, List.foldlM_append]
    refine ⟨fun fault he => ?_, fun p' h => ?_⟩
    · rcases bind_eq_error.mp he with he | ⟨p₁, h₁, he⟩
      · exact hofails fault he
      obtain ⟨head, n, -, -, rfl⟩ := hosteps p₁ h₁
      rcases bind_eq_error.mp he with he | ⟨p₂, h₂, he⟩
      · exact (ihw _).1 fault he
      obtain ⟨body, read, m, rfl, -⟩ := (ihw _).2 p₂ h₂
      rcases bind_eq_error.mp he with he | ⟨p₃, -, he⟩
      · exact (ProgramState.step_closer hl.isCloser).1 fault he
      · exact (iha p₃).1 fault he
    · obtain ⟨p₁, h₁, h⟩ := bind_eq_ok.mp h
      obtain ⟨head, n, hparse, hk, rfl⟩ := hosteps p₁ h₁
      obtain ⟨p₂, h₂, h⟩ := bind_eq_ok.mp h
      obtain ⟨body, read, m, rfl, hwithin⟩ := (ihw _).2 p₂ h₂
      obtain ⟨p₃, h₃, h⟩ := bind_eq_ok.mp h
      obtain ⟨n', rfl⟩ := (ProgramState.step_closer hl.isCloser).2 p₃ h₃
      obtain ⟨more, read', m', rfl, hafter⟩ := (iha _).2 p' h
      obtain ⟨all, hall, hw, ha⟩ := exists_reads (head.toStmt (head.bodyStart ++ body)) read read'
        how hoa hwa
      refine ⟨_, all, m', ProgramState.extend_extend .., ?_⟩
      rw [List.singleton_append, ← hall]
      exact (hwithin.congr hw).pair (hafter.congr ha) hl (fun hm => hcw (mem_groupIds.mpr hm))
        hparse hk hall

end

section

variable {textTags : List String} {document : String} {pieces : List RawToken}
  {delimiters : Delimiters} {nicknames : Nicknames} {stream out : TemplateStream} {e : Expander}

/-- The blocks of a program are the pairs that pairing finds before expansion. The parser never
meets an `end` that closes nothing and never lacks one, and each opener has one block, whose
statements are those of what lies between it and its partner, but in no pair further in. -/
theorem parseProgram_blocks (ht : tokenize textTags document = .ok pieces)
    (hx : extractGroups delimiters nicknames pieces = .ok stream) (ho : e.expand stream = .ok out) :
    ∃ paired, pairGroups stream = .ok paired ∧ out.items.Perm stream.items ∧
      (∀ id, (out.groups.lookup id).kind = (stream.groups.lookup id).kind ∧
        (out.groups.lookup id).partner = (paired.groups.lookup id).partner) ∧
      (∀ fault, parseProgram out = .error fault →
        fault.cause ≠ .strayEnd ∧ ∀ keyword, fault.cause ≠ .missingEnd keyword) ∧
      ∀ program, parseProgram out = .ok program →
        ∃ read, Blocks out.groups out.items program.body read := by
  obtain ⟨parts, -, hl⟩ := extractGroups_lifted ht hx
  obtain ⟨paired, hp, -⟩ := bind_eq_ok.mp ho
  obtain ⟨hi, hpaired, ht⟩ := (pairGroups_iff hl.sound).mp hp
  rw [Expander.expand_eq hp] at ho
  have hr := TemplateStream.Rearranged.of_steps hpaired
    (Expander.foldlM_steps hpaired (fun _ hid => hid) ho)
  have hclassified : ∀ id ∈ groupIds out.items, (out.groups.lookup id).Classified := by
    intro id hid
    obtain ⟨target, htarget⟩ := hr.same id
    obtain ⟨partner, hpartner⟩ := ht.same id
    rw [htarget, hpartner]
    exact hl.classified (hi ▸ (hr.perm.filterMap _).mem_iff.mp hid)
  have hforest : Forest out.groups out.items := by
    refine forest_of_nest (fun id hid hc => ?_) hr.paired.nested
    exact hr.paired.linked id (mem_groupIds.mpr hid) hc
  obtain ⟨hlocal, hread⟩ := hforest.read hr.paired.nodup hclassified ⟨[], [], 0⟩
  have hfinish : ∀ p, out.items.foldlM (ProgramState.step out.groups) ⟨[], [], 0⟩ = .ok p →
      ∃ body read n, p.finish = .ok ⟨body, n⟩ ∧ Blocks out.groups out.items body read := by
    intro p h
    obtain ⟨body, read, n, rfl, hblocks⟩ := hread p h
    exact ⟨body, read, n, by simp [ProgramState.extend, ProgramState.finish], hblocks⟩
  refine ⟨paired, hp, hi ▸ hr.perm, fun id => ⟨(hr.kind id).trans (ht.kind id), hr.partner id⟩,
    fun fault he => ?_, fun program h => ?_⟩
  · rcases bind_eq_error.mp he with he | ⟨p, h, he⟩
    · have hcause := hlocal fault he
      refine ⟨fun hs => ?_, fun keyword hm => ?_⟩
      · rw [hs] at hcause
        cases hcause
      · rw [hm] at hcause
        cases hcause
    · obtain ⟨body, read, n, hok, -⟩ := hfinish p h
      rw [hok] at he
      cases he
  · obtain ⟨p, hfold, h⟩ := bind_eq_ok.mp h
    obtain ⟨body, read, n, hok, hblocks⟩ := hfinish p hfold
    rw [hok] at h
    obtain rfl := Except.ok.inj h
    exact ⟨read, hblocks⟩

end

def expanded? (document : String) : Option (TemplateStream × Program) :=
  match tokenize ["t"] document with
  | .error _ => none
  | .ok pieces =>
    match extractGroups .standard [] pieces with
    | .error _ => none
    | .ok stream =>
      match Expander.expand ⟨[], none, []⟩ stream with
      | .error _ => none
      | .ok out => (parseProgram out).toOption.map (out, ·)

theorem of_expanded? {document : String} {out : TemplateStream} {program : Program}
    (h : expanded? document = some (out, program)) :
    ∃ pieces stream, tokenize ["t"] document = .ok pieces ∧
      extractGroups .standard [] pieces = .ok stream ∧
      Expander.expand ⟨[], none, []⟩ stream = .ok out ∧ parseProgram out = .ok program := by
  unfold expanded? at h
  split at h
  · cases h
  · split at h
    · cases h
    · split at h
      · cases h
      next pieces hp _ stream hs _ out' ho =>
        obtain ⟨program', hprogram, he⟩ := Option.map_eq_some_iff.mp h
        obtain ⟨rfl, rfl⟩ := Prod.mk.inj he
        refine ⟨pieces, stream, hp, hs, ho, ?_⟩
        cases hr : parseProgram out' with
        | error => rw [hr] at hprogram; cases hprogram
        | ok => rw [hr] at hprogram; rw [Option.some.inj hprogram]

/-- An `if` that leaves its paragraph, with a loop inside. -/
def nestedBlocks : String :=
  "<p><t>\x7bif x @p\x7da\x7bfor y in z\x7db\x7bend\x7d\x7bend\x7d</t></p>"

theorem parseProgram_blocks_nestedBlocks :
    ∃ pieces stream out program, tokenize ["t"] nestedBlocks = .ok pieces ∧
      extractGroups .standard [] pieces = .ok stream ∧
      Expander.expand ⟨[], none, []⟩ stream = .ok out ∧ parseProgram out = .ok program ∧
      ∃ read, Blocks out.groups out.items program.body read ∧ program.body = [read 0] ∧
        Stmt.blocksOfBody program.body = [read 0, read 1] := by
  have hexpanded : (expanded? nestedBlocks).map (fun result =>
      (surface result.1.groups none result.1.items,
        (groupIds result.1.items).filter fun id => (result.1.groups.lookup id).kind.isOpener)) =
      some ([.group 0], [0, 1]) := by
    decide +kernel
  obtain ⟨⟨out, program⟩, hresult, hsurface⟩ := Option.map_eq_some_iff.mp hexpanded
  obtain ⟨hsurface, hopeners⟩ := Prod.mk.inj hsurface
  obtain ⟨pieces, stream, ht, hx, ho, hprogram⟩ := of_expanded? hresult
  obtain ⟨_, -, -, -, -, hblocks⟩ := parseProgram_blocks ht hx ho
  obtain ⟨read, hread⟩ := hblocks program hprogram
  refine ⟨pieces, stream, out, program, ht, hx, ho, hprogram, read, hread, ?_, ?_⟩
  · rw [hread.outside, hsurface]
    rfl
  · rw [hread.once, hopeners]
    rfl

end DocTemplate
