import DocTemplate.Proofs.Group.Walk

namespace DocTemplate

/-- What a walk from a group meets. -/
def ahead (side : Side) (id : GroupId) (items : List StreamItem) : List StreamItem :=
  ((side.along items).dropWhile (· ≠ .group id)).drop 1

/-- The groups that move to a side: those around what lies between them, and to the left also the
groups that run on their own. -/
def Side.moves : Side → GroupKind → Bool
  | left, kind => kind.isOpener || kind = .run
  | right, kind => kind.isCloser

section

variable {side : Side} {id : GroupId} {back front items : List StreamItem}

theorem append_cons_unique {α : Type} {x : α} {xs ys xs' ys' : List α}
    (h : xs ++ x :: ys = xs' ++ x :: ys') (hx : x ∉ xs) (hx' : x ∉ xs') : xs = xs' ∧ ys = ys' := by
  have hxs : xs = xs' := by
    rcases List.append_eq_append_iff.mp h with ⟨zs, rfl, hz⟩ | ⟨zs, rfl, hz⟩
    · cases zs with
      | nil => simp
      | cons z zs =>
        obtain ⟨rfl, -⟩ := List.cons.inj hz
        simp at hx'
    · cases zs with
      | nil => simp
      | cons z zs =>
        obtain ⟨rfl, -⟩ := List.cons.inj hz
        simp at hx
  subst hxs
  exact ⟨rfl, (List.cons.inj (List.append_cancel_left h)).2⟩

theorem mem_groupIds : id ∈ groupIds items ↔ .group id ∈ items := by
  rw [groupIds, List.mem_filterMap]
  constructor
  · rintro ⟨item, hm, hi⟩
    cases item with
    | group j =>
      obtain rfl : j = id := Option.some.inj hi
      exact hm
    | raw | sentinel => cases hi
  · intro h
    exact ⟨_, h, rfl⟩

theorem groupIds_along (side : Side) (items : List StreamItem) :
    groupIds (side.along items) = side.along (groupIds items) :=
  side.filterMap_along _ _

theorem nodup_along (side : Side) (hn : (groupIds items).Nodup) :
    (groupIds (side.along items)).Nodup := by
  rw [groupIds_along]
  exact (side.along_perm _).nodup_iff.mpr hn

theorem not_mem_of_nodup (hn : (groupIds (back ++ .group id :: front)).Nodup) :
    .group id ∉ back ∧ .group id ∉ front := by
  have hg : groupIds (back ++ .group id :: front) = groupIds back ++ id :: groupIds front := by
    simp [groupIds, StreamItem.group?]
  rw [hg] at hn
  have hn' := List.nodup_cons.mp (List.perm_middle.nodup_iff.mp hn)
  refine ⟨fun hm => hn'.1 ?_, fun hm => hn'.1 ?_⟩
  · exact List.mem_append_left _ (mem_groupIds.mpr hm)
  · exact List.mem_append_right _ (mem_groupIds.mpr hm)

theorem exists_along (side : Side) (h : .group id ∈ items) :
    ∃ back front, side.along items = back ++ .group id :: front :=
  List.append_of_mem (Side.mem_along.mpr h)

theorem split_unique {back' front' : List StreamItem} (hn : (groupIds items).Nodup)
    (h : items = back ++ .group id :: front) (h' : items = back' ++ .group id :: front') :
    back = back' ∧ front = front' := by
  have hb := (not_mem_of_nodup (h ▸ hn)).1
  have hb' := (not_mem_of_nodup (h' ▸ hn)).1
  exact append_cons_unique (h.symm.trans h') hb hb'

theorem between_unique {first last : GroupId}
    {before body after before' body' after' : List StreamItem} (hn : (groupIds items).Nodup)
    (h : items = before ++ .group first :: (body ++ .group last :: after))
    (h' : items = before' ++ .group first :: (body' ++ .group last :: after')) : body = body' := by
  obtain ⟨rfl, -⟩ := split_unique hn h h'
  rw [List.append_cons, ← List.append_assoc] at h h'
  exact List.append_cancel_left (split_unique hn h h').1

theorem ahead_eq (hn : (groupIds items).Nodup) (h : side.along items = back ++ .group id :: front) :
    ahead side id items = front := by
  have hn' := nodup_along side hn
  rw [h] at hn'
  have hb := (not_mem_of_nodup hn').1
  rw [ahead, h, List.dropWhile_append_of_pos]
  · simp
  · intro item hi
    simpa using fun he : item = .group id => hb (he ▸ hi)

theorem splitAtGroup?_some {before after : List StreamItem}
    (h : splitAtGroup? id back items = some (before, after)) :
    ∃ near, items = near ++ .group id :: after ∧ before = near.reverse ++ back := by
  induction items generalizing back with
  | nil => cases h
  | cons item items ih =>
    rw [splitAtGroup?] at h
    split at h
    case isTrue hi =>
      obtain ⟨rfl, rfl⟩ := Prod.mk.inj (Option.some.inj h)
      exact ⟨[], by rw [hi]; rfl, rfl⟩
    case isFalse hi =>
      obtain ⟨near, rfl, rfl⟩ := ih h
      exact ⟨item :: near, rfl, by simp⟩

theorem splitAtGroup?_none (h : splitAtGroup? id back items = none) : .group id ∉ items := by
  induction items generalizing back with
  | nil => simp
  | cons item items ih =>
    rw [splitAtGroup?] at h
    split at h
    case isTrue => cases h
    case isFalse hi => simpa [Ne.symm hi] using ih h

theorem mem_of_moveGroup {groups : Groups} {target : Option String} {items' : List StreamItem}
    (h : moveGroup groups side target id items = .ok items') :
    .group id ∈ items := by
  cases hs : splitAtGroup? id [] items with
  | none => simp [moveGroup, hs] at h
  | some parts =>
    obtain ⟨near, rfl, -⟩ := splitAtGroup?_some hs
    simp

theorem moveGroup_cases (groups : Groups) (side : Side) (target : Option String)
    (h : .group id ∈ items) : ∃ back front, side.along items = back ++ .group id :: front ∧
      moveGroup groups side target id items =
        (walk groups (groups.lookup id) side target none 0 front).map fun n =>
          side.along (back ++ (front.take n ++ .group id :: front.drop n)) := by
  cases hs : splitAtGroup? id [] items with
  | none => exact absurd h (splitAtGroup?_none hs)
  | some parts =>
    obtain ⟨before, after⟩ := parts
    obtain ⟨near, rfl, rfl⟩ := splitAtGroup?_some hs
    cases side with
    | left =>
      refine ⟨after.reverse, near.reverse, by simp [Side.along], ?_⟩
      simp [moveGroup, hs, Side.along]
    | right =>
      refine ⟨near, after, rfl, ?_⟩
      simp [moveGroup, hs, Side.along]

end

/-- A group steps over items in which no pair is open. On its way to an element it stops as walks
do. -/
structure Moved (groups : Groups) (side : Side) (target : Option String) (id : GroupId)
    (items items' back passed rest : List StreamItem) : Prop where
  source : side.along items = back ++ .group id :: (passed ++ rest)
  result : side.along items' = back ++ (passed ++ .group id :: rest)
  closed : nest side [] (pairMarks groups passed) = some []
  halt : ∀ name, target = some name → Halt groups side name 0 passed rest

section

variable {stream : TemplateStream} {side : Side} {target : Option String} {id : GroupId}
  {items back front passed rest : List StreamItem}

theorem pairMarks_along (groups : Groups) (side : Side) (items : List StreamItem) :
    pairMarks groups (side.along items) = side.along (pairMarks groups items) :=
  side.filterMap_along _ _

theorem pairMarks_reverse (groups : Groups) (items : List StreamItem) :
    pairMarks groups items.reverse = (pairMarks groups items).reverse := List.filterMap_reverse

theorem moveGroup_none {groups : Groups} {items' : List StreamItem}
    (h : moveGroup groups side none id items = .ok items') :
    ∃ back passed rest, Moved groups side none id items items' back passed rest ∧
      (∀ item ∈ passed, item.group? = none) ∧
      (rest = [] ∨ ∃ j after, rest = .group j :: after) := by
  obtain ⟨back, front, ha, hm⟩ := moveGroup_cases groups side none (mem_of_moveGroup h)
  rw [hm, map_eq_ok] at h
  obtain ⟨n, hn, rfl⟩ := h
  obtain ⟨passed, rest, rfl, hw, hg, hr⟩ := walk_none groups (groups.lookup id) side front 0
  obtain rfl : passed.length = n := Except.ok.inj (hw.symm.trans hn)
  have hc : pairMarks groups passed = [] :=
    List.filterMap_eq_nil_iff.mpr fun item hi => by simp [pairMark, hg item hi]
  exact ⟨back, passed, rest, ⟨ha, by simp, by rw [hc, nest_nil], by simp⟩, hg, hr⟩

namespace TemplateStream.Paired

theorem linkedAt (hp : stream.Paired) {items : List StreamItem}
    (hs : ∀ item ∈ items, item ∈ stream.items) : stream.groups.LinkedAt items :=
  fun j hj => hp.linked j (mem_groupIds.mpr (hs _ hj))

theorem nested_along (hp : stream.Paired) (side : Side) :
    nest side [] (pairMarks stream.groups (side.along stream.items)) = some [] := by
  rw [pairMarks_along]
  exact nest_along hp.nested side

theorem mem_of_along (h : side.along stream.items = back ++ front) :
    ∀ item ∈ front, item ∈ stream.items := fun _ hi =>
  Side.mem_along.mp (h ▸ List.mem_append_right back hi)

theorem exists_nest (hp : stream.Paired) (h : side.along stream.items = back ++ front) :
    ∃ opened, nest side opened (pairMarks stream.groups front) = some [] := by
  have hn := hp.nested_along side
  rw [h, pairMarks_append, nest_append_eq_some] at hn
  obtain ⟨opened, -, ho⟩ := hn
  exact ⟨opened, ho⟩

theorem way (hp : stream.Paired) (h : side.along stream.items = back ++ front) :
    Way stream.groups side front := by
  obtain ⟨opened, ho⟩ := hp.exists_nest h
  have hn := nodup_along side hp.nodup
  rw [h] at hn
  exact way_of_nest (hn.sublist ((List.sublist_append_right back front).filterMap _))
    (hp.linkedAt (mem_of_along h)) ho

/-- A pair that a walk enters has its other member further on, behind all pairs that are closed
until then. -/
theorem exists_last (hp : stream.Paired) {first : GroupId} (side : Side)
    (chunk : List StreamItem)
    (h : side.along stream.items = back ++ .group first :: (chunk ++ front))
    (he : side.entersPair (stream.groups.lookup first).kind)
    (hc : nest side [] (pairMarks stream.groups chunk) = some []) :
    ∃ between last after, front = between ++ .group last :: after ∧
      stream.groups.LinkedAlong side first last ∧
      nest side [] (pairMarks stream.groups between) = some [] := by
  obtain ⟨opened, ho⟩ := hp.exists_nest h
  have hl := hp.linkedAt (mem_of_along h)
  obtain ⟨label, hlabel, hlast⟩ := memberMark_enters (hl first (by simp)) he
  have hm : pairMark stream.groups (.group first) = some (label, side.entry) := hlabel
  rw [pairMarks_cons_some hm, nest_entry, pairMarks_append, nest_skip hc] at ho
  obtain ⟨ys, zs, hx, hy, -⟩ := exists_exit [] ho (by simp)
  obtain ⟨between, last, after, rfl, hmark, rfl, -⟩ := exists_of_pairMarks hx
  exact ⟨between, last, after, rfl, hlast last (hl last (by simp)) hmark, hy⟩

theorem closed_pair {opener closer : GroupId} {before body after : List StreamItem}
    (hp : stream.Paired) (hl : stream.groups.Linked opener closer)
    (h : stream.items = before ++ .group opener :: (body ++ .group closer :: after)) :
    nest .right [] (pairMarks stream.groups (.group opener :: (body ++ [.group closer]))) =
      some [] := by
  obtain ⟨between, last, after', hfront, hlast, hclosed⟩ :=
    hp.exists_last .right [] h hl.isOpener rfl
  obtain rfl : last = closer := Option.some.inj (hlast.partner.symm.trans hl.toCloser)
  have hfront : body ++ .group last :: after = between ++ .group last :: after' := hfront
  have h' := h
  rw [hfront] at h'
  obtain rfl := between_unique hp.nodup h h'
  have ho : pairMark stream.groups (.group opener) = some (opener, Side.right.entry) :=
    memberMark_opener hl.isOpener
  have hc : pairMark stream.groups (.group last) = some (opener, Side.right.exit) :=
    memberMark_closer hl
  rw [pairMarks_cons_some ho, nest_entry, pairMarks_append, nest_skip hclosed,
    pairMarks_cons_some hc, nest_exit]
  rfl

theorem moved (hp : stream.Paired)
    (h : moveGroup stream.groups side target id stream.items = .ok items) :
    ∃ back passed rest, Moved stream.groups side target id stream.items items back passed rest := by
  cases target with
  | none =>
    obtain ⟨back, passed, rest, hm, -⟩ := moveGroup_none h
    exact ⟨back, passed, rest, hm⟩
  | some name =>
    obtain ⟨back, front, ha, hm⟩ :=
      moveGroup_cases stream.groups side (some name) (mem_of_moveGroup h)
    rw [hm, map_eq_ok] at h
    obtain ⟨n, hn, rfl⟩ := h
    rw [List.append_cons] at ha
    obtain ⟨passed, rest, rfl, rfl, hc, hh⟩ := walk_ok (hp.way ha) hn
    refine ⟨back, passed, rest, by simpa using ha, by simp, hc, ?_⟩
    rintro _ ⟨⟩
    exact hh

/-- A group that is there fails to move only for want of an element, or at a pair that straddles
one. -/
theorem moveGroup_error (hp : stream.Paired) (hid : .group id ∈ stream.items)
    {fault : StructureFault}
    (h : moveGroup stream.groups side target id stream.items = .error fault) :
    (∃ name, fault.cause = .noEnclosing (stream.groups.lookup id).keyword name) ∨
      fault.cause = .straddling (stream.groups.lookup id).keyword ∧
        ∃ back front, side.along stream.items = back ++ .group id :: front ∧
          Straddles stream.groups side front := by
  obtain ⟨back, front, ha, hm⟩ := moveGroup_cases stream.groups side target hid
  rw [hm, map_eq_error] at h
  cases target with
  | none =>
    obtain ⟨passed, rest, rfl, hw, -, -⟩ :=
      walk_none stream.groups (stream.groups.lookup id) side front 0
    rw [hw] at h
    cases h
  | some name =>
    have ha' := ha
    rw [List.append_cons] at ha'
    rcases walk_error (hp.way ha') h with rfl | ⟨rfl, hs⟩
    · exact .inl ⟨name, rfl⟩
    · exact .inr ⟨rfl, back, front, ha, hs⟩

end TemplateStream.Paired

namespace Moved

variable {groups : Groups} {items' : List StreamItem}

theorem perm (h : Moved groups side target id items items' back passed rest) :
    items'.Perm items := by
  have hp : (side.along items').Perm (side.along items) := by
    rw [h.source, h.result]
    exact List.perm_middle.append_left back
  exact (side.along_perm items').symm.trans (hp.trans (side.along_perm items))

theorem filter_eq (h : Moved groups side target id items items' back passed rest) :
    items'.filter (· ≠ .group id) = items.filter (· ≠ .group id) := by
  have hf : (side.along items').filter (· ≠ .group id) =
      (side.along items).filter (· ≠ .group id) := by
    rw [h.source, h.result]
    simp
  cases side with
  | left => simpa [Side.along] using hf
  | right => exact hf

theorem nest_eq (h : Moved groups side target id items items' back passed rest)
    (opened : List GroupId) :
    nest side opened (pairMarks groups (side.along items')) =
      nest side opened (pairMarks groups (side.along items)) := by
  have hx : ∀ ys, StreamItem.group id :: ys = [.group id] ++ ys := fun _ => rfl
  rw [h.source, h.result, hx rest, hx (passed ++ rest)]
  simp only [pairMarks_append]
  rw [nest_append, nest_append]
  congr 1
  funext mid
  exact nest_swap h.closed mid _ _

theorem paired (h : Moved stream.groups side target id stream.items items' back passed rest)
    (hp : stream.Paired) : TemplateStream.Paired { stream with items := items' } := by
  have hg : (groupIds items').Perm (groupIds stream.items) := h.perm.filterMap _
  refine ⟨hg.nodup_iff.mpr hp.nodup, fun j hj => hp.linked j (hg.mem_iff.mp hj), ?_⟩
  refine nest_of_along side ?_
  rw [← pairMarks_along, h.nest_eq]
  exact hp.nested_along side

theorem ahead_source (h : Moved groups side target id items items' back passed rest)
    (hn : (groupIds items).Nodup) : ahead side id items = passed ++ rest :=
  ahead_eq hn h.source

theorem ahead_result (h : Moved groups side target id items items' back passed rest)
    (hn : (groupIds items).Nodup) : ahead side id items' = rest := by
  have hg : (groupIds items').Perm (groupIds items) := h.perm.filterMap _
  have ha := h.result
  rw [← List.append_assoc] at ha
  exact ahead_eq (hg.nodup_iff.mpr hn) ha

end Moved

theorem drop_dropWhile_filter {α : Type} (p q f : α → Bool) (xs : List α)
    (h : ∀ x, p x = false → q x = true ∧ f x = false) :
    (((xs.filter p).dropWhile q).drop 1).filter f = ((xs.dropWhile q).drop 1).filter f := by
  induction xs with
  | nil => rfl
  | cons x xs ih =>
    cases hp : p x with
    | false => simpa [hp, (h x hp).1] using ih
    | true =>
      cases hq : q x with
      | false =>
        simp only [List.filter_cons, hp, ↓reduceIte, List.dropWhile_cons, hq, Bool.false_eq_true,
          List.drop_succ_cons, List.drop_zero, List.filter_filter]
        apply List.filter_congr
        intro y _
        cases hy : p y with
        | false => simp [(h y hy).2]
        | true => simp
      | true => simpa [hp, hq] using ih

theorem filter_ahead {fixed : StreamItem → Bool} {j : GroupId} (hf : fixed (.group id) = false)
    (hj : j ≠ id) (side : Side) (items : List StreamItem) :
    (ahead side j (items.filter (· ≠ .group id))).filter fixed =
      (ahead side j items).filter fixed := by
  have ha : side.along (items.filter (· ≠ .group id)) =
      (side.along items).filter (· ≠ .group id) := by
    cases side <;> simp [Side.along]
  rw [ahead, ha, drop_dropWhile_filter]
  · rfl
  · intro item hi
    obtain rfl : item = .group id := by simpa using hi
    simpa [Ne.symm hj] using hf

/-- Both members of a pair step outwards, the opener first. -/
structure PairMoved (groups : Groups) (tag : Option String) (opener closer : GroupId)
    (items items' restLeft left body right restRight : List StreamItem) : Prop where
  source : items = restLeft.reverse ++ (left.reverse ++
    .group opener :: (body ++ .group closer :: (right ++ restRight)))
  result : items' = restLeft.reverse ++
    .group opener :: (left.reverse ++ (body ++ right) ++ .group closer :: restRight)
  closedLeft : nest .left [] (pairMarks groups left) = some []
  closedRight : nest .right [] (pairMarks groups right) = some []
  haltLeft : ∀ name, tag = some name → Halt groups .left name 0 left restLeft
  haltRight : ∀ name, tag = some name → Halt groups .right name 0 right restRight

theorem TemplateStream.Paired.exists_body {opener closer : GroupId} {before after : List StreamItem}
    (hp : stream.Paired) (hlink : stream.groups.Linked opener closer)
    (h : stream.items = before ++ .group opener :: after) :
    ∃ body rest, after = body ++ .group closer :: rest := by
  obtain ⟨body, last, rest, hb, hlast, -⟩ := hp.exists_last .right [] h hlink.isOpener rfl
  obtain rfl : last = closer := Option.some.inj (hlast.partner.symm.trans hlink.toCloser)
  exact ⟨body, rest, hb⟩

theorem TemplateStream.Paired.exists_pair {opener closer : GroupId} (hp : stream.Paired)
    (hlink : stream.groups.Linked opener closer) (hid : .group opener ∈ stream.items) :
    ∃ before body after,
      stream.items = before ++ .group opener :: (body ++ .group closer :: after) := by
  obtain ⟨before, rest, h⟩ := List.append_of_mem hid
  obtain ⟨body, after, rfl⟩ := hp.exists_body hlink h
  exact ⟨before, body, after, h⟩

theorem PairMoved.of_moved {opener closer : GroupId}
    {mid items' back left restLeft back' right restRight : List StreamItem} (hp : stream.Paired)
    (hlink : stream.groups.Linked opener closer)
    (hl : Moved stream.groups .left target opener stream.items mid back left restLeft)
    (hr : Moved stream.groups .right target closer mid items' back' right restRight) :
    ∃ body, PairMoved stream.groups target opener closer stream.items items' restLeft left body
      right restRight := by
  have hpm := hl.paired hp
  have hs : stream.items = (left ++ restLeft).reverse ++ .group opener :: back.reverse := by
    rw [← Side.along_along .left stream.items, hl.source]
    simp [Side.along]
  have hm : mid = restLeft.reverse ++ .group opener :: (left.reverse ++ back.reverse) := by
    rw [← Side.along_along .left mid, hl.result]
    simp [Side.along]
  obtain ⟨body, after, hb⟩ := hp.exists_body hlink hs
  rw [hb] at hs hm
  have hm' : mid = restLeft.reverse ++ .group opener :: (left.reverse ++ body) ++
      .group closer :: after := by
    rw [hm]
    simp
  obtain ⟨rfl, rfl⟩ := split_unique hpm.nodup hm' hr.source
  refine ⟨body, ?_, ?_, hl.closed, hr.closed, hl.halt, hr.halt⟩
  · rw [hs]
    simp
  · have h := hr.result
    rw [Side.along] at h
    rw [h]
    simp

theorem TemplateStream.Paired.pairMoved {opener closer : GroupId} {mid items' : List StreamItem}
    (hp : stream.Paired) (hlink : stream.groups.Linked opener closer)
    (hl : moveGroup stream.groups .left target opener stream.items = .ok mid)
    (hr : moveGroup stream.groups .right target closer mid = .ok items') :
    ∃ restLeft left body right restRight, PairMoved stream.groups target opener closer
      stream.items items' restLeft left body right restRight := by
  obtain ⟨back, left, restLeft, hleft⟩ := hp.moved hl
  obtain ⟨back', right, restRight, hright⟩ := (hleft.paired hp).moved hr
  obtain ⟨body, hm⟩ := PairMoved.of_moved hp hlink hleft hright
  exact ⟨restLeft, left, body, right, restRight, hm⟩

end

end DocTemplate
