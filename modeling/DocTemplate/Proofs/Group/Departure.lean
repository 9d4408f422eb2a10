import DocTemplate.Proofs.Group.Rearrangement

namespace DocTemplate

/-- What a walk can pass before it meets a group around the pair that it comes from. `depth` counts
the pairs entered and not left. -/
def room (groups : Groups) (side : Side) : Nat → List StreamItem → List StreamItem
  | _, [] => []
  | depth, item :: items =>
    match pairMark groups item with
    | none => item :: room groups side depth items
    | some (_, part) =>
      if part = side.entry then item :: room groups side (depth + 1) items
      else if part = side.exit then
        match depth with
        | 0 => []
        | depth + 1 => item :: room groups side depth items
      else item :: room groups side depth items

/-- From its place among some items to its place among others a group leaves an element of the
name: one that it does not enter on the way. -/
def Leaves (side : Side) (name : String) (id : GroupId) (items items' : List StreamItem) : Prop :=
  ∃ tags, tagsOf (ahead side id items) = tags ++ tagsOf (ahead side id items') ∧
    name ∈ exits side 0 tags

def Expander.before (e : Expander) (stream : TemplateStream) (id : GroupId) :
    Except StructureFault TemplateStream := do
  let paired ← pairGroups stream
  ((groupIds paired.items).takeWhile (· ≠ id)).foldlM e.expandGroup paired

section

variable {groups : Groups} {side : Side} {name : String} {id opener closer : GroupId}
  {items items' passed rest : List StreamItem}

theorem room_append {opened final : List GroupId}
    (h : nest side opened (pairMarks groups passed) = some final) (rest : List StreamItem) :
    room groups side opened.length (passed ++ rest) =
      passed ++ room groups side final.length rest := by
  induction passed generalizing opened with
  | nil =>
    obtain rfl : opened = final := by simpa [pairMarks] using h
    rfl
  | cons item passed ih =>
    cases hm : pairMark groups item with
    | none =>
      rw [pairMarks_cons_none hm] at h
      simp [room, hm, ih h]
    | some mark =>
      obtain ⟨label, part⟩ := mark
      rw [pairMarks_cons_some hm] at h
      rcases side.part_cases part with rfl | rfl | rfl
      · rw [nest_entry] at h
        have hi := ih h
        rw [List.length_cons] at hi
        simp [room, hm, hi]
      · obtain ⟨outer, rfl, ho⟩ := eq_cons_of_nest_exit h
        simp [room, hm, ih ho]
      · rw [nest_selfClosing] at h
        simp [room, hm, ih h]

theorem room_held {label : GroupId} (h : memberMark groups id = some (label, side.exit)) :
    room groups side 0 (.group id :: rest) = [] := by
  have hm : pairMark groups (.group id) = some (label, side.exit) := h
  simp [room, hm]

theorem room_congr {groups' : Groups} (h : memberMark groups' = memberMark groups) (depth : Nat) :
    room groups' side depth items = room groups side depth items := by
  have hp : pairMark groups' = pairMark groups := by
    funext item
    rw [pairMark, h]
    rfl
  induction items generalizing depth with
  | nil => rfl
  | cons item items ih =>
    simp only [room, hp, ih]

/-- A walk leaves the element that it looks for if there is room to do so. -/
theorem Halt.mem_exits_iff (h : Halt groups side name 0 passed rest)
    (hc : nest side [] (pairMarks groups passed) = some []) (hl : groups.LinkedAt rest) :
    name ∈ exits side 0 (tagsOf passed) ↔
      name ∈ exits side 0 (tagsOf (room groups side 0 (passed ++ rest))) := by
  have hr := room_append hc rest
  rw [List.length_nil] at hr
  rw [hr, tagsOf_append, exits_append]
  cases h with
  | reached tags eq fresh level =>
    have hm : name ∈ exits side 0 (tagsOf passed) := by
      rw [eq, exits_append, level]
      simp [exits]
    simp [hm]
  | @held rest id leaves fresh =>
    obtain ⟨label, hid⟩ := memberMark_leaves (hl id (by simp)) leaves
    rw [room_held hid]
    simp [exits]

theorem tagsOf_filter_tag (items : List StreamItem) :
    tagsOf (items.filter (·.tag?.isSome)) = tagsOf items := by
  induction items with
  | nil => rfl
  | cons item items ih =>
    cases ht : item.tag? with
    | none => rw [List.filter_cons_of_neg (by simp [ht]), ih, tagsOf_cons, tagsOf_plain ht]; rfl
    | some tag => rw [List.filter_cons_of_pos (by simp [ht]), tagsOf_cons, ih, ← tagsOf_cons]

theorem Moved.tagsOf_ahead {target : Option String} {back : List StreamItem}
    (hm : Moved groups side target id items items' back passed rest) {j : GroupId} (hj : j ≠ id)
    (side' : Side) : tagsOf (ahead side' j items') = tagsOf (ahead side' j items) := by
  have hf : StreamItem.tag? (.group id) = none := rfl
  rw [← tagsOf_filter_tag, ← filter_ahead (by rw [hf]; rfl) hj, hm.filter_eq,
    filter_ahead (by rw [hf]; rfl) hj, tagsOf_filter_tag]

theorem leaves_iff {tags : List (String × TagPart)}
    (h : tagsOf (ahead side id items) = tags ++ tagsOf (ahead side id items')) :
    Leaves side name id items items' ↔ name ∈ exits side 0 tags := by
  constructor
  · rintro ⟨tags', h', hm⟩
    obtain rfl := List.append_cancel_right (h'.symm.trans h)
    exact hm
  · intro hm
    exact ⟨tags, h, hm⟩

namespace PairMoved

variable {tag : Option String} {restLeft left body right restRight : List StreamItem}

theorem ahead_opener (hm : PairMoved groups tag opener closer items items' restLeft left body right
    restRight) (hn : (groupIds items).Nodup) (hn' : (groupIds items').Nodup) :
    ahead .left opener items = left ++ restLeft ∧ ahead .left opener items' = restLeft := by
  have h : Side.left.along items = (body ++ .group closer :: (right ++ restRight)).reverse ++
      .group opener :: (left ++ restLeft) := by
    rw [hm.source]
    simp [Side.along]
  have h' : Side.left.along items' =
      (left.reverse ++ (body ++ right) ++ .group closer :: restRight).reverse ++
        .group opener :: restLeft := by
    rw [hm.result]
    simp [Side.along]
  exact ⟨ahead_eq hn h, ahead_eq hn' h'⟩

theorem ahead_closer (hm : PairMoved groups tag opener closer items items' restLeft left body right
    restRight) (hn : (groupIds items).Nodup) (hn' : (groupIds items').Nodup) :
    ahead .right closer items = right ++ restRight ∧ ahead .right closer items' = restRight := by
  have h : Side.right.along items = (restLeft.reverse ++ (left.reverse ++ .group opener :: body)) ++
      .group closer :: (right ++ restRight) := by
    rw [hm.source]
    simp [Side.along]
  have h' : Side.right.along items' =
      (restLeft.reverse ++ .group opener :: (left.reverse ++ (body ++ right))) ++
        .group closer :: restRight := by
    rw [hm.result]
    simp [Side.along]
  exact ⟨ahead_eq hn h, ahead_eq hn' h'⟩

end PairMoved

theorem TemplateStream.Rearranged.linked_iff {start stream : TemplateStream}
    (h : start.Rearranged stream) :
    stream.groups.Linked opener closer ↔ start.groups.Linked opener closer := by
  constructor
  · intro hl
    exact ⟨h.kind opener ▸ hl.isOpener, h.kind closer ▸ hl.isCloser,
      h.partner opener ▸ hl.toCloser, h.partner closer ▸ hl.toOpener⟩
  · intro hl
    exact ⟨by rw [h.kind]; exact hl.isOpener, by rw [h.kind]; exact hl.isCloser,
      by rw [h.partner]; exact hl.toCloser, by rw [h.partner]; exact hl.toOpener⟩

/-- Two states between which a pair does not move, nor get another target. -/
structure TemplateStream.Rests (opener closer : GroupId) (stream stream' : TemplateStream) : Prop
    where
  aheadOpener : ∀ side,
    tagsOf (ahead side opener stream'.items) = tagsOf (ahead side opener stream.items)
  aheadCloser : ∀ side,
    tagsOf (ahead side closer stream'.items) = tagsOf (ahead side closer stream.items)
  target : (stream'.groups.lookup opener).target = (stream.groups.lookup opener).target

theorem TemplateStream.Rests.trans {a b c : TemplateStream}
    (h : TemplateStream.Rests opener closer a b) (h' : TemplateStream.Rests opener closer b c) :
    TemplateStream.Rests opener closer a c :=
  ⟨fun side => (h'.aheadOpener side).trans (h.aheadOpener side),
    fun side => (h'.aheadCloser side).trans (h.aheadCloser side), h'.target.trans h.target⟩

end

namespace Expander

variable {e : Expander} {stream paired out : TemplateStream} {opener closer id : GroupId}
  {name : String}

theorem aim_target_of_ne (ho : id ≠ opener) (hc : id ≠ closer) :
    ((e.aim stream opener closer).groups.lookup id).target = (stream.groups.lookup id).target := by
  rw [aim, Groups.lookup_setTarget_of_ne hc, Groups.lookup_setTarget_of_ne ho]

theorem expandGroup_rests (hp : stream.Paired) (hid : .group id ∈ stream.items)
    (hlink : stream.groups.Linked opener closer) (hne : opener ≠ id)
    (h : e.expandGroup stream id = .ok out) : stream.Rests opener closer out := by
  by_cases hr : (stream.groups.lookup id).kind = .run
  · rw [expandGroup_run hr, map_eq_ok] at h
    obtain ⟨items, hm, rfl⟩ := h
    obtain ⟨back, passed, rest, hmoved⟩ := hp.moved hm
    have hcne : closer ≠ id := by
      rintro rfl
      have hk := hlink.isCloser
      rw [hr] at hk
      cases hk
    exact ⟨hmoved.tagsOf_ahead hne, hmoved.tagsOf_ahead hcne, rfl⟩
  · by_cases ho : (stream.groups.lookup id).kind.isOpener
    · rw [expandGroup_opener ho] at h
      obtain ⟨last, hl, -⟩ := hp.exists_closer hid ho
      have hcne : closer ≠ id := (hl.ne hlink).symm
      have hlast : opener ≠ last := hlink.ne hl
      have hclast : closer ≠ last := by
        rintro rfl
        exact hne (Option.some.inj (hlink.toOpener.symm.trans hl.toOpener))
      obtain ⟨last', hc, hcases⟩ := expandPair_ok h
      obtain rfl : last' = last := Option.some.inj (hc.symm.trans hl.toCloser)
      obtain ⟨-, rfl⟩ | ⟨tag, mid, -, hleft, hright, hg⟩ := hcases
      · exact ⟨fun _ => rfl, fun _ => rfl, aim_target_of_ne hne hlast⟩
      · have hpa : (e.aim stream id last').Paired := hp.of_same (by simp) (by simp)
        obtain ⟨back, passed, rest, hm⟩ := hpa.moved hleft
        obtain ⟨back', passed', rest', hm'⟩ := (hm.paired hpa).moved hright
        refine ⟨fun side => ?_, fun side => ?_, ?_⟩
        · exact (hm'.tagsOf_ahead hlast side).trans (hm.tagsOf_ahead hne side)
        · exact (hm'.tagsOf_ahead hclast side).trans (hm.tagsOf_ahead hcne side)
        · rw [hg]
          exact aim_target_of_ne hne hlast
    · rw [expandGroup_other hr ho] at h
      obtain rfl := Except.ok.inj h
      exact ⟨fun _ => rfl, fun _ => rfl, rfl⟩

theorem foldlM_rests (hp : paired.Paired) {st : TemplateStream} (hst : paired.Steps st)
    (hlink : paired.groups.Linked opener closer) {ids : List GroupId}
    (hids : ∀ id ∈ ids, id ∈ groupIds paired.items ∧ opener ≠ id)
    (h : ids.foldlM e.expandGroup st = .ok out) :
    paired.Steps out ∧ st.Rests opener closer out := by
  refine foldlM_ok (P := fun mid => paired.Steps mid ∧ st.Rests opener closer mid) ?_
    ⟨hst, fun _ => rfl, fun _ => rfl, rfl⟩ h
  rintro mid id hid mid' ⟨hsteps, hrests⟩ he
  obtain ⟨hmem, hne⟩ := hids id hid
  have hr := TemplateStream.Rearranged.of_steps hp hsteps
  exact ⟨steps_expandGroup hp hmem hsteps he, hrests.trans
    (expandGroup_rests hr.paired (hr.mem.mpr (mem_groupIds.mp hmem)) (hr.linked_iff.mpr hlink) hne
      he)⟩

theorem aim_target (hs : opener < stream.groups.size) :
    ((e.aim stream opener closer).groups.lookup opener).target =
      e.target stream.groups opener closer stream.items := by
  simp only [aim, Groups.lookup_setTarget]
  split
  · rfl
  · simp [hs]

/-- In its own turn a pair leaves the elements that it has room to leave. -/
theorem expandPair_leaves (hp : stream.Paired) (hlink : stream.groups.Linked opener closer)
    (hs : opener < stream.groups.size) (h : e.expandPair stream opener = .ok out)
    (hn : (groupIds out.items).Nodup) (ht : (out.groups.lookup opener).target = .tag name) :
    ∃ left right,
      tagsOf (ahead .left opener stream.items) = left ++ tagsOf (ahead .left opener out.items) ∧
      tagsOf (ahead .right closer stream.items) =
        right ++ tagsOf (ahead .right closer out.items) ∧
      (name ∈ exits .left 0 left ↔ name ∈ exits .left 0
        (tagsOf (room stream.groups .left 0 (ahead .left opener stream.items)))) ∧
      (name ∈ exits .right 0 right ↔ name ∈ exits .right 0
        (tagsOf (room stream.groups .right 0 (ahead .right closer stream.items)))) := by
  obtain ⟨closer', hc, hcases⟩ := expandPair_ok h
  obtain rfl : closer' = closer := Option.some.inj (hc.symm.trans hlink.toCloser)
  have hg : out.groups = (e.aim stream opener closer').groups := by
    rcases hcases with ⟨-, rfl⟩ | ⟨-, -, -, -, -, hg⟩
    · rfl
    · exact hg
  rw [hg, aim_target hs] at ht
  obtain ⟨hr, -⟩ | ⟨tag, mid, hr, hl, hright, -⟩ := hcases
  · rw [ht] at hr
    cases hr
  · rw [ht] at hr
    obtain rfl : some name = tag := Option.some.inj hr
    have hpa : (e.aim stream opener closer').Paired := hp.of_same (by simp) (by simp)
    obtain ⟨restLeft, left, body, right, restRight, hm⟩ := hpa.pairMoved hlink.aim hl hright
    have hmark : memberMark (e.aim stream opener closer').groups = memberMark stream.groups :=
      memberMark_congr (by simp) (by simp)
    obtain ⟨ho, ho'⟩ := hm.ahead_opener hp.nodup hn
    obtain ⟨hcl, hcl'⟩ := hm.ahead_closer hp.nodup hn
    have hil := (hm.haltLeft name rfl).mem_exits_iff hm.closedLeft
      (hpa.linkedAt fun item hi => by rw [hm.source]; simp [hi])
    have hir := (hm.haltRight name rfl).mem_exits_iff hm.closedRight
      (hpa.linkedAt fun item hi => by rw [hm.source]; simp [hi])
    rw [room_congr hmark] at hil hir
    rw [aim_items] at ho hcl
    refine ⟨tagsOf left, tagsOf right, ?_, ?_, ?_, ?_⟩
    · rw [ho, ho', tagsOf_append]
    · rw [hcl, hcl', tagsOf_append]
    · rw [hil, ho]
    · rw [hir, hcl]

theorem exists_turn (hn : (groupIds paired.items).Nodup) (hp : pairGroups stream = .ok paired)
    (hid : id ∈ groupIds paired.items) (h : e.expand stream = .ok out) :
    ∃ st st', ∃ rest : List GroupId, e.before stream id = .ok st ∧ e.expandGroup st id = .ok st' ∧
      rest.foldlM e.expandGroup st' = .ok out ∧
      (∀ j ∈ (groupIds paired.items).takeWhile (· ≠ id), j ∈ groupIds paired.items ∧ id ≠ j) ∧
      ∀ j ∈ rest, j ∈ groupIds paired.items ∧ id ≠ j := by
  obtain ⟨done, rest, hids⟩ := List.append_of_mem hid
  rw [hids] at hn
  have hnot := (List.nodup_cons.mp (List.perm_middle.nodup_iff.mp hn)).1
  have hdone : ∀ j ∈ done, j ≠ id := fun j hj he => hnot (he ▸ List.mem_append_left rest hj)
  have htake : (groupIds paired.items).takeWhile (· ≠ id) = done := by
    rw [hids, List.takeWhile_append_of_pos]
    · simp
    · simpa using hdone
  rw [expand_eq hp, hids, List.foldlM_append, bind_eq_ok] at h
  obtain ⟨st, hst, h⟩ := h
  rw [List.foldlM_cons, bind_eq_ok] at h
  obtain ⟨st', hst', h⟩ := h
  refine ⟨st, st', rest, ?_, hst', h, fun j hj => ?_, fun j hj => ?_⟩
  · rw [before, hp]
    show List.foldlM _ _ _ = _
    rw [htake, hst]
  · rw [htake] at hj
    rw [hids]
    exact ⟨List.mem_append_left _ hj, (hdone j hj).symm⟩
  · rw [hids]
    exact ⟨by simp [hj], fun he => hnot (he ▸ List.mem_append_right done hj)⟩

/-- A pair's own turn in an expansion: `st` is the stream before it and `st'` the one after it. All
other turns let the pair rest. -/
structure PairTurn (e : Expander) (opener closer : GroupId) (stream st st' out : TemplateStream) :
    Prop where
  before : e.before stream opener = .ok st
  turn : e.expandPair st opener = .ok st'
  rests : stream.Rests opener closer st
  rests' : st'.Rests opener closer out
  linked : st.groups.Linked opener closer
  inTable : opener < st.groups.size
  paired : st.Paired
  paired' : st'.Paired
  pairedOut : out.Paired
  fixed : st.items.filter st.groups.fixed = stream.items.filter st.groups.fixed
  source : ∃ before body after,
    stream.items = before ++ .group opener :: (body ++ .group closer :: after)
  result : ∃ before body after,
    out.items = before ++ .group opener :: (body ++ .group closer :: after)

theorem exists_pairTurn (hs : stream.Sound) (h : e.expand stream = .ok out)
    (hid : .group opener ∈ stream.items) (hlink : out.groups.Linked opener closer) :
    ∃ st st', PairTurn e opener closer stream st st' out := by
  cases hp : pairGroups stream with
  | error fault =>
    rw [expand, hp] at h
    cases h
  | ok paired =>
    obtain ⟨hi, hpaired, htable⟩ := (pairGroups_iff hs).mp hp
    rw [← hi] at hid
    obtain ⟨st, st', rest, hst, hturn, hrest, hdone, hlater⟩ :=
      exists_turn hpaired.nodup hp (mem_groupIds.mpr hid) h
    have hfold := foldlM_steps hpaired (fun _ hj => hj) (by rw [← expand_eq hp]; exact h)
    have hrout := TemplateStream.Rearranged.of_steps hpaired hfold
    have hlink' : paired.groups.Linked opener closer := hrout.linked_iff.mp hlink
    have hst' := hst
    rw [before, hp] at hst'
    obtain ⟨hsteps, hrests⟩ := foldlM_rests hpaired .refl hlink' hdone hst'
    have hr := TemplateStream.Rearranged.of_steps hpaired hsteps
    have hsteps' := steps_expandGroup hpaired (mem_groupIds.mpr hid) hsteps hturn
    have hr' := TemplateStream.Rearranged.of_steps hpaired hsteps'
    obtain ⟨-, hrests'⟩ := foldlM_rests hpaired hsteps' hlink' hlater hrest
    have hlst := hr.linked_iff.mpr hlink'
    rw [expandGroup_opener hlst.isOpener] at hturn
    have hsize : opener < st.groups.size := by
      rw [hr.size, htable.size]
      exact hs.inTable opener (mem_groupIds.mpr (hi ▸ hid))
    have hstart : stream.Rests opener closer st :=
      ⟨fun side => by rw [hrests.aheadOpener, hi], fun side => by rw [hrests.aheadCloser, hi],
        by rw [hrests.target, htable.target]⟩
    refine ⟨st, st', hst, hturn, hstart, hrests', hlst, hsize, hr.paired, hr'.paired, hrout.paired,
      ?_, hi ▸ hpaired.exists_pair hlink' hid, hrout.paired.exists_pair hlink (hrout.mem.mpr hid)⟩
    rw [fixed_eq hr.kind, hr.fixed, hi]

/-- Both members of a pair leave its target, or none of them does, exactly when both have room for
it, or none, once it is their turn. Room ends at the groups around the pair, and they may have
stopped in different elements. -/
theorem expand_leaves_iff (e : Expander) (hs : stream.Sound) (h : e.expand stream = .ok out)
    (hid : .group opener ∈ stream.items) (hlink : out.groups.Linked opener closer)
    (ht : (out.groups.lookup opener).target = .tag name) :
    ∃ st, e.before stream opener = .ok st ∧
      ((Leaves .left name opener stream.items out.items ↔
          Leaves .right name closer stream.items out.items) ↔
        (name ∈ exits .left 0 (tagsOf (room st.groups .left 0 (ahead .left opener st.items))) ↔
          name ∈ exits .right 0
            (tagsOf (room st.groups .right 0 (ahead .right closer st.items))))) := by
  obtain ⟨st, st', ht'⟩ := exists_pairTurn hs h hid hlink
  obtain ⟨left, right, hleft, hright, hil, hir⟩ := expandPair_leaves ht'.paired ht'.linked
    ht'.inTable ht'.turn ht'.paired'.nodup (by rw [← ht'.rests'.target, ht])
  refine ⟨st, ht'.before, ?_⟩
  rw [ht'.rests.aheadOpener, ← ht'.rests'.aheadOpener] at hleft
  rw [ht'.rests.aheadCloser, ← ht'.rests'.aheadCloser] at hright
  rw [leaves_iff hleft, leaves_iff hright, hil, hir]

/-- A loop that is to leave its paragraph, in a condition that spans two of them:
`<p><t>{if x}{for y in z @p}a{end}</t></p><p><t>b{end}</t></p>`. -/
def loopInSpanningIf : TemplateStream where
  items := [.raw (.tag "p" .opening "<p>" 0 false), .raw (.tag "t" .opening "<t>" 3 true),
    .group 0, .group 1, .raw (.content "a" 27 true), .group 2,
    .raw (.tag "t" .closing "</t>" 33 true), .raw (.tag "p" .closing "</p>" 37 false),
    .raw (.tag "p" .opening "<p>" 41 false), .raw (.tag "t" .opening "<t>" 44 true),
    .raw (.content "b" 47 true), .group 3, .raw (.tag "t" .closing "</t>" 53 true),
    .raw (.tag "p" .closing "</p>" 57 false)]
  groups := #[⟨[], .ifTrue, ⟨6, 12⟩, .stay, .both, true, none⟩,
    ⟨[], .forEach, ⟨12, 27⟩, .tag "p", .both, true, none⟩,
    ⟨[], .finish, ⟨28, 33⟩, .auto, .both, true, none⟩,
    ⟨[], .finish, ⟨48, 53⟩, .auto, .both, true, none⟩]

/-- The condition holds the start of the loop back, and its end goes on to leave the paragraph. -/
theorem expand_leaves_iff_loopInSpanningIf :
    loopInSpanningIf.Sound ∧ nest .right [] (tagsOf loopInSpanningIf.items) = some [] ∧
      ∃ out, expand ⟨[], none, []⟩ loopInSpanningIf = .ok out ∧
      out.groups.Linked 1 2 ∧ (out.groups.lookup 1).target = .tag "p" ∧
      ¬ (Leaves .left "p" 1 loopInSpanningIf.items out.items ↔
        Leaves .right "p" 2 loopInSpanningIf.items out.items) := by
  have hs : loopInSpanningIf.Sound := ⟨by decide, by decide⟩
  have hid : .group 1 ∈ loopInSpanningIf.items := by decide
  refine ⟨hs, by decide, _, rfl, ⟨rfl, rfl, rfl, rfl⟩, rfl, ?_⟩
  obtain ⟨st, hst, hiff⟩ :=
    expand_leaves_iff ⟨[], none, []⟩ hs rfl hid ⟨rfl, rfl, rfl, rfl⟩ rfl
  obtain rfl := Except.ok.inj hst
  rw [hiff]
  decide

end Expander

end DocTemplate
