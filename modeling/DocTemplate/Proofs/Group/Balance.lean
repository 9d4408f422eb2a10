import DocTemplate.Proofs.Group.Rearrangement

namespace DocTemplate

section

variable {α : Type} [DecidableEq α] {side : Side} {name : α}

omit [DecidableEq α] in
theorem exits_reached (side : Side) (name : α) {tags : List (α × TagPart)}
    (level : entered side 0 tags = 0) :
    exits side 0 (tags ++ [(name, side.exit)]) = exits side 0 tags ++ [name] ∧
      entered side 0 (tags ++ [(name, side.exit)]) = 0 := by
  rw [exits_append, entered_append, level]
  simp [exits, entered]

/-- Walks to both sides that reach an element of one name leave the same elements. -/
theorem nest_of_reached {opened finalLeft finalRight : List α} {left right : List (α × TagPart)}
    (hl : nest .left opened (left ++ [(name, Side.left.exit)]) = some finalLeft)
    (hr : nest .right opened (right ++ [(name, Side.right.exit)]) = some finalRight)
    (freshLeft : name ∉ exits .left 0 left) (freshRight : name ∉ exits .right 0 right)
    (levelLeft : entered .left 0 left = 0) (levelRight : entered .right 0 right = 0) :
    nest .right [] ((left ++ [(name, Side.left.exit)]).reverse ++
      (right ++ [(name, Side.right.exit)])) = some [] := by
  obtain ⟨base, -, ho, -⟩ := exists_base [] hl
  obtain ⟨base', -, ho', -⟩ := exists_base [] hr
  obtain ⟨he, hd⟩ := exits_reached .left name levelLeft
  obtain ⟨he', hd'⟩ := exits_reached .right name levelRight
  have hs : exits .left 0 left = exits .right 0 right := by
    rw [List.length_nil, he, List.append_assoc] at ho
    rw [List.length_nil, he', List.append_assoc] at ho'
    exact (append_cons_unique (ho.symm.trans ho') freshLeft freshRight).1
  refine (nest_around_iff (nest_append_eq_some.mpr ⟨_, nest_reverse hl, hr⟩)).mpr ⟨?_, hd, hd'⟩
  rw [he, he', hs]

/-- When brackets close around a place, what a walk to one side leaves, one to the other side would
leave at their other end. -/
theorem mem_exits_other {before passed rest : List (α × TagPart)}
    (h : nest side [] (before.reverse ++ (passed ++ rest)) = some [])
    (hm : name ∈ exits side 0 passed) : name ∈ exits side.other 0 before := by
  obtain ⟨mid, hb, hmid⟩ := nest_append_eq_some.mp h
  obtain ⟨final, hp, -⟩ := nest_append_eq_some.mp hmid
  have hb' := nest_reverse hb
  rw [List.reverse_reverse] at hb'
  obtain ⟨base, news, ho, hf, -, -⟩ := exists_base [] hb'
  obtain ⟨base', news', ho', -, -, -⟩ := exists_base [] hp
  obtain ⟨rfl, rfl⟩ := List.append_eq_nil_iff.mp hf.symm
  rw [List.append_nil] at ho
  rw [List.length_nil] at ho ho'
  rw [← ho, ho']
  exact List.mem_append_left base' hm

end

namespace TemplateStream

/-- The tags between two groups nest. -/
def BalancedPair (stream : TemplateStream) (opener closer : GroupId) : Prop :=
  ∀ before body after,
    stream.items = before ++ .group opener :: (body ++ .group closer :: after) →
    nest .right [] (tagsOf body) = some []

def BalancedAlong (stream : TemplateStream) (side : Side) (first last : GroupId) : Prop :=
  match side with
  | .left => stream.BalancedPair last first
  | .right => stream.BalancedPair first last

def Balanced (stream : TemplateStream) : Prop :=
  ∀ opener closer, stream.groups.Linked opener closer → stream.BalancedPair opener closer

def BalancedBut (stream : TemplateStream) (id : GroupId) : Prop :=
  ∀ opener closer, stream.groups.Linked opener closer → opener ≠ id → closer ≠ id →
    stream.BalancedPair opener closer

end TemplateStream

section

variable {stream : TemplateStream} {side : Side} {first last opener closer id : GroupId}
  {items items' back before body after chunk front : List StreamItem} {name : String}

namespace TemplateStream

theorem BalancedAlong.nest_eq (hb : stream.BalancedAlong side first last)
    (h : side.along stream.items = before ++ .group first :: (body ++ .group last :: after)) :
    nest side [] (tagsOf body) = some [] := by
  cases side with
  | right => exact hb before body after h
  | left =>
    have hi : stream.items =
        after.reverse ++ .group last :: (body.reverse ++ .group first :: before.reverse) := by
      rw [← Side.along_along .left stream.items, h]
      simp [Side.along]
    have hn := nest_reverse (hb _ _ _ hi)
    rw [tagsOf_reverse, List.reverse_reverse] at hn
    exact hn

theorem Balanced.balancedAlong (hb : stream.Balanced)
    (hl : stream.groups.LinkedAlong side first last) : stream.BalancedAlong side first last := by
  cases side with
  | left => exact hb last first hl
  | right => exact hb first last hl

theorem BalancedBut.balancedAlong (hb : stream.BalancedBut id)
    (hl : stream.groups.LinkedAlong side first last) (hf : first ≠ id) (hlast : last ≠ id) :
    stream.BalancedAlong side first last := by
  cases side with
  | left => exact hb last first hl hlast hf
  | right => exact hb first last hl hf hlast

end TemplateStream

theorem tagsOf_filter (id : GroupId) (items : List StreamItem) :
    tagsOf (items.filter (· ≠ .group id)) = tagsOf items := by
  induction items with
  | nil => rfl
  | cons item items ih =>
    by_cases hi : item = .group id
    · simpa [hi] using ih
    · rw [List.filter_cons_of_pos (by simpa using hi), tagsOf_cons, ih, ← tagsOf_cons]

theorem exists_between (hf : items'.filter (· ≠ .group id) = items.filter (· ≠ .group id))
    (hfirst : first ≠ id) (hlast : last ≠ id)
    (h : items' = before ++ .group first :: (body ++ .group last :: after)) :
    ∃ before' body' after',
      items = before' ++ .group first :: (body' ++ .group last :: after') ∧
        tagsOf body' = tagsOf body := by
  rw [h] at hf
  simp only [List.filter_append, List.filter_cons] at hf
  simp only [ne_eq, StreamItem.group.injEq, hfirst, not_false_eq_true, decide_true, ↓reduceIte,
    hlast] at hf
  obtain ⟨before', rest, rfl, -, hr⟩ := List.filter_eq_append_iff.mp hf.symm
  obtain ⟨skip, rest', rfl, -, -, hr'⟩ := List.filter_eq_cons_iff.mp hr
  obtain ⟨body', rest'', rfl, hb, hr''⟩ := List.filter_eq_append_iff.mp hr'
  obtain ⟨skip', after', rfl, hs, -, -⟩ := List.filter_eq_cons_iff.mp hr''
  refine ⟨before' ++ skip, body' ++ skip', after', by simp, ?_⟩
  have hskip : skip'.filter (· ≠ .group id) = [] := List.filter_eq_nil_iff.mpr hs
  rw [← tagsOf_filter id, List.filter_append, hskip, List.append_nil]
  have hb' : body'.filter (· ≠ .group id) = body.filter (· ≠ .group id) := hb
  rw [hb', tagsOf_filter]

/-- A pair around two walks from one place: the walk away from its first member leaves no element
that the walk up to it does not leave. -/
theorem mem_exits_of_held {passed other mid rest : List StreamItem} (hp : stream.Paired)
    (hb : stream.Balanced)
    (h : side.along stream.items =
      back ++ .group first :: (other.reverse ++ (mid ++ passed) ++ rest))
    (he : side.entersPair (stream.groups.lookup first).kind)
    (hc : nest side [] (pairMarks stream.groups (other.reverse ++ (mid ++ passed))) = some [])
    (ht : nest side [] (tagsOf mid) = some []) (hm : name ∈ exits side 0 (tagsOf passed)) :
    name ∈ exits side.other 0 (tagsOf other) := by
  obtain ⟨between, last, after, rfl, hl, -⟩ := hp.exists_last side _ h he hc
  rw [← List.append_assoc] at h
  have hn := (hb.balancedAlong hl).nest_eq h
  simp only [tagsOf_append, tagsOf_reverse, List.append_assoc] at hn
  rw [nest_append_eq_some] at hn
  obtain ⟨opened, hother, hrest⟩ := hn
  rw [nest_skip ht] at hrest
  exact mem_exits_other (nest_append_eq_some.mpr ⟨opened, hother, hrest⟩) hm

/-- Groups that hold up walks from both ends of a stretch that is closed under pairs are the members
of one pair. -/
theorem linked_of_held (hp : stream.Paired)
    (h : stream.items = back ++ .group first :: (chunk ++ .group last :: front))
    (hf : Side.right.entersPair (stream.groups.lookup first).kind)
    (hl : Side.right.leavesPair (stream.groups.lookup last).kind)
    (hc : nest .right [] (pairMarks stream.groups chunk) = some []) :
    stream.groups.Linked first last := by
  obtain ⟨between, last', after, hfront, hlink, hclosed⟩ := hp.exists_last .right _ h hf hc
  cases between with
  | nil =>
    obtain ⟨he, -⟩ := List.cons.inj hfront
    obtain rfl := StreamItem.group.inj he
    exact hlink
  | cons item between =>
    -- A closer with nothing to close would stand first between the two.
    obtain ⟨rfl, -⟩ := List.cons.inj hfront
    have hmem : last ∈ groupIds stream.items := by
      rw [mem_groupIds, h]
      simp
    obtain ⟨label, hlabel⟩ := memberMark_leaves (hp.linked last hmem) hl
    have hm : pairMark stream.groups (.group last) = some (label, Side.right.exit) := hlabel
    rw [pairMarks_cons_some hm, nest_exit_nil] at hclosed
    cases hclosed

namespace PairMoved

variable {restLeft left right restRight : List StreamItem}

theorem closed (hm : PairMoved stream.groups (some name) opener closer stream.items items' restLeft
      left body right restRight) (hp : stream.Paired)
    (hlink : stream.groups.Linked opener closer) :
    nest .right [] (pairMarks stream.groups (left.reverse ++
      (.group opener :: (body ++ [.group closer]) ++ right))) = some [] := by
  have hpair : nest .right []
      (pairMarks stream.groups (.group opener :: (body ++ [.group closer]))) = some [] := by
    have hi := hm.source
    rw [← List.append_assoc] at hi
    exact hp.closed_pair hlink hi
  have hrev : nest .right [] (pairMarks stream.groups left.reverse) = some [] := by
    rw [pairMarks_reverse]
    exact nest_reverse hm.closedLeft
  rw [pairMarks_append, nest_skip hrev, pairMarks_append, nest_skip hpair, hm.closedRight]

theorem nest_between
    (hm : PairMoved stream.groups (some name) opener closer stream.items items' restLeft left body
      right restRight) (hp : stream.Paired) (hb : stream.Balanced)
    (hw : nest .right [] (tagsOf stream.items) ≠ none)
    (hlink : stream.groups.Linked opener closer) :
    nest .right [] (tagsOf (left.reverse ++ (body ++ right))) = some [] := by
  have hi := hm.source
  have hl := hm.haltLeft name rfl
  have hr := hm.haltRight name rfl
  have hbody : nest .right [] (tagsOf body) = some [] := by
    rw [← List.append_assoc] at hi
    exact hb opener closer hlink _ _ _ hi
  have hright := hm.closed hp hlink
  have hleft : nest .left [] (pairMarks stream.groups (right.reverse ++
      ((.group opener :: (body ++ [.group closer])).reverse ++ left))) = some [] := by
    have h := nest_reverse hright
    rw [← pairMarks_reverse] at h
    simpa using h
  rw [tagsOf_append, tagsOf_append, ← nest_swap hbody, nest_skip hbody, tagsOf_reverse]
  cases hl with
  | @reached _ tagsLeft eqLeft freshLeft levelLeft =>
    cases hr with
    | @reached _ tagsRight eqRight freshRight levelRight =>
      -- both have left the nearest element of the name, which is the same one
      obtain ⟨final, hf⟩ := Option.ne_none_iff_exists'.mp hw
      simp only [hi, tagsOf_append, tagsOf_group_cons, tagsOf_reverse] at hf
      obtain ⟨outer, -, hf⟩ := nest_append_eq_some.mp hf
      obtain ⟨inner, hin, hf⟩ := nest_append_eq_some.mp hf
      rw [nest_skip hbody] at hf
      obtain ⟨outer', hout, -⟩ := nest_append_eq_some.mp hf
      have hin' := nest_reverse hin
      rw [List.reverse_reverse, eqLeft] at hin'
      rw [eqRight] at hout
      rw [eqLeft, eqRight]
      exact nest_of_reached hin' hout freshLeft freshRight levelLeft levelRight
    | @held rest' last leaves fresh =>
      -- what holds the closer back encloses the opener as well, and so the element that it left
      have halong : Side.left.along stream.items = rest'.reverse ++ .group last ::
          (right.reverse ++ ((.group opener :: (body ++ [.group closer])).reverse ++
            left) ++ restLeft) := by
        rw [hi]
        simp [Side.along]
      have hmid : nest .left [] (tagsOf (.group opener :: (body ++ [.group closer])).reverse) =
          some [] := by
        simpa using nest_reverse hbody
      refine absurd (mem_exits_of_held hp hb halong leaves hleft hmid ?_) fresh
      rw [eqLeft, (exits_reached .left name levelLeft).1]
      simp
  | @held rest first leaves fresh =>
    cases hr with
    | @reached _ tagsRight eqRight freshRight levelRight =>
      have halong : Side.right.along stream.items = rest.reverse ++ .group first ::
          (left.reverse ++ (.group opener :: (body ++ [.group closer]) ++ right) ++
            restRight) := by
        rw [hi]
        simp [Side.along]
      have hmid : nest .right [] (tagsOf (.group opener :: (body ++ [.group closer]))) =
          some [] := by
        simpa using hbody
      refine absurd (mem_exits_of_held hp hb halong leaves hright hmid ?_) fresh
      rw [eqRight, (exits_reached .right name levelRight).1]
      simp
    | @held rest' last leaves' fresh' =>
      -- both stop at the members of one pair, between which the tags nest
      have hchunk : stream.items = rest.reverse ++ .group first ::
          (left.reverse ++ (.group opener :: (body ++ [.group closer]) ++ right) ++
            .group last :: rest') := by
        rw [hi]
        simp
      have hlast := linked_of_held hp hchunk leaves leaves' hright
      have hn := hb first last hlast _ _ _ hchunk
      simp only [tagsOf_append, tagsOf_group_cons, tagsOf_nil, tagsOf_reverse,
        List.append_nil] at hn
      rwa [← nest_swap hbody, nest_skip hbody] at hn

end PairMoved

section

variable {target : Option String} {passed rest : List StreamItem}

theorem Moved.tagsOf_eq {groups : Groups}
    (hm : Moved groups side target id items items' back passed rest) :
    tagsOf items' = tagsOf items := by
  rw [← tagsOf_filter id, hm.filter_eq, tagsOf_filter]

theorem Moved.balancedPair
    (hm : Moved stream.groups side target id stream.items items' back passed rest)
    (hb : stream.BalancedPair opener closer) (ho : opener ≠ id) (hc : closer ≠ id) :
    TemplateStream.BalancedPair ⟨items', stream.groups⟩ opener closer := by
  intro before body after h
  obtain ⟨before', body', after', h', ht⟩ := exists_between hm.filter_eq ho hc h
  rw [← ht]
  exact hb before' body' after' h'

end

namespace TemplateStream

variable {target : Option String} {fault : StructureFault}

theorem BalancedBut.moveGroup_error (hb : stream.BalancedBut id) (hp : stream.Paired)
    (hid : .group id ∈ stream.items)
    (h : moveGroup stream.groups side target id stream.items = .error fault) :
    ∃ keyword name, fault.cause = .noEnclosing keyword name := by
  rcases hp.moveGroup_error hid h with ⟨name, hc⟩ | ⟨-, back, front, ha, hs⟩
  · exact ⟨_, name, hc⟩
  · obtain ⟨before, first, body, last, after, rfl, he, hpart, hn⟩ := hs
    have hnd := nodup_along side hp.nodup
    rw [ha] at hnd
    have hfront := (not_mem_of_nodup hnd).2
    have ha' : side.along stream.items = (back ++ .group id :: before) ++
        .group first :: ([] ++ (body ++ .group last :: after)) := by
      rw [ha]
      simp
    obtain ⟨between, last', after', -, hl, -⟩ := hp.exists_last side [] ha' he rfl
    obtain rfl : last' = last := Option.some.inj (hl.partner.symm.trans hpart)
    have hfirst : first ≠ id := by
      rintro rfl
      exact hfront (by simp)
    have hlast : last' ≠ id := by
      rintro rfl
      exact hfront (by simp)
    exact absurd ((hb.balancedAlong hl hfirst hlast).nest_eq ha') hn

theorem Balanced.but (hb : stream.Balanced) (id : GroupId) : stream.BalancedBut id :=
  fun opener closer hl _ _ => hb opener closer hl

theorem Balanced.moveOpener {mid : List StreamItem} (hb : stream.Balanced) (hp : stream.Paired)
    (hlink : stream.groups.Linked opener closer)
    (hl : moveGroup stream.groups .left target opener stream.items = .ok mid) :
    BalancedBut ⟨mid, stream.groups⟩ closer := by
  obtain ⟨back, passed, rest, hm⟩ := hp.moved hl
  intro opener' closer' hlink' ho hc
  refine hm.balancedPair (hb opener' closer' hlink') ?_ (hlink.ne hlink').symm
  rintro rfl
  exact hc (Option.some.inj (hlink'.toCloser.symm.trans hlink.toCloser))

theorem Balanced.movePair {mid : List StreamItem} (hb : stream.Balanced) (hp : stream.Paired)
    (hw : nest .right [] (tagsOf stream.items) ≠ none)
    (hlink : stream.groups.Linked opener closer)
    (hl : moveGroup stream.groups .left (some name) opener stream.items = .ok mid)
    (hr : moveGroup stream.groups .right (some name) closer mid = .ok items') :
    Balanced ⟨items', stream.groups⟩ := by
  obtain ⟨restLeft, left, body, right, restRight, hpm⟩ := hp.pairMoved hlink hl hr
  obtain ⟨back, passed, rest, hleft⟩ := hp.moved hl
  have hpmid := hleft.paired hp
  obtain ⟨back', passed', rest', hright⟩ := hpmid.moved hr
  intro opener' closer' hlink'
  by_cases hc : closer' = closer
  · subst hc
    obtain rfl : opener' = opener := Option.some.inj (hlink'.toOpener.symm.trans hlink.toOpener)
    intro before body' after h
    obtain rfl := between_unique (hright.paired hpmid).nodup h hpm.result
    exact hpm.nest_between hp hb hw hlink
  · refine hright.balancedPair (hb.moveOpener hp hlink hl opener' closer' hlink' ?_ hc) ?_ hc
    · exact hlink'.ne hlink
    · exact hlink'.ne hlink

end TemplateStream

namespace Expander

variable {e : Expander} {out : TemplateStream} {target : ExpansionTarget} {groups : Groups}
  {fault : StructureFault}

theorem rewriterTarget?_mem {g : Group} (h : e.rewriterTarget? g = some target) :
    ∃ name, (name, target) ∈ e.rewriterTargets := by
  unfold rewriterTarget? at h
  split at h
  case isFalse => cases h
  case isTrue =>
    cases ht : g.tokens[2]? with
    | none => simp [ht] at h
    | some t =>
      simp only [ht] at h
      split at h
      case isFalse => cases h
      case isTrue =>
        obtain ⟨before, after, hr, -⟩ := List.lookup_eq_some_iff.mp h
        have hm : (t.lexeme, target) ∈ e.rewriterTargets.reverse := by
          rw [hr]
          simp
        exact ⟨t.lexeme, List.mem_reverse.mp hm⟩

theorem target_ne_outermost (he : ∀ default ∈ e.rewriterTargets, default.2 ≠ .outermost)
    (ho : (groups.lookup opener).target ≠ .outermost) :
    e.target groups opener closer items ≠ .outermost := by
  simp only [Expander.target]
  split
  · exact ho
  · split
    case h_1 target ht =>
      obtain ⟨name, hm⟩ := rewriterTarget?_mem ht
      exact he _ hm
    case h_2 =>
      split
      · simp
      · split <;> simp

theorem reach?_eq_some {tag : Option String} (ht : target ≠ .outermost)
    (h : target.reach? = some tag) : ∃ name, target = .tag name ∧ tag = some name := by
  cases target with
  | tag name => exact ⟨name, rfl, (Option.some.inj h).symm⟩
  | outermost => exact absurd rfl ht
  | stay | auto => cases h

/-- A stream whose tags nest, also between the members of each pair, and no pair of which is to move
out of everything. -/
structure Settled (stream : TemplateStream) : Prop where
  paired : stream.Paired
  balanced : stream.Balanced
  nested : nest .right [] (tagsOf stream.items) ≠ none
  bounded : ∀ id, .group id ∈ stream.items → (stream.groups.lookup id).kind.isOpener →
    (stream.groups.lookup id).target ≠ .outermost

namespace Settled

theorem aim (hs : Settled stream) (he : ∀ default ∈ e.rewriterTargets, default.2 ≠ .outermost)
    (ho : (stream.groups.lookup opener).target ≠ .outermost) :
    Settled (e.aim stream opener closer) := by
  refine ⟨hs.paired.of_same (by simp) (by simp), fun a c hl => ?_, hs.nested, fun id hid hk => ?_⟩
  · exact hs.balanced a c ⟨by simpa using hl.isOpener, by simpa using hl.isCloser,
      by simpa using hl.toCloser, by simpa using hl.toOpener⟩
  · rw [aim_kind] at hk
    have ht : e.target stream.groups opener closer stream.items ≠ .outermost :=
      target_ne_outermost he ho
    have hid := hs.bounded id hid hk
    simp only [Expander.aim, Groups.lookup_setTarget]
    split
    · exact ht
    · split
      · exact ht
      · exact hid

theorem run (hs : Settled stream) (hr : (stream.groups.lookup id).kind = .run)
    (h : moveGroup stream.groups .left none id stream.items = .ok items) :
    Settled { stream with items } := by
  obtain ⟨back, passed, rest, hm⟩ := hs.paired.moved h
  refine ⟨hm.paired hs.paired, fun a c hl => ?_, ?_, fun j hj => hs.bounded j (hm.perm.subset hj)⟩
  · refine hm.balancedPair (hs.balanced a c hl) ?_ ?_
    · rintro rfl
      have hk := hl.isOpener
      rw [hr] at hk
      cases hk
    · rintro rfl
      have hk := hl.isCloser
      rw [hr] at hk
      cases hk
  · rw [hm.tagsOf_eq]
    exact hs.nested

theorem pair {mid : List StreamItem} (hs : Settled stream)
    (hlink : stream.groups.Linked opener closer)
    (hl : moveGroup stream.groups .left (some name) opener stream.items = .ok mid)
    (hr : moveGroup stream.groups .right (some name) closer mid = .ok items) :
    Settled ⟨items, stream.groups⟩ := by
  obtain ⟨back, passed, rest, hleft⟩ := hs.paired.moved hl
  have hpmid := hleft.paired hs.paired
  obtain ⟨back', passed', rest', hright⟩ := hpmid.moved hr
  refine ⟨hright.paired hpmid, hs.balanced.movePair hs.paired hs.nested hlink hl hr, ?_, ?_⟩
  · have ht : tagsOf items = tagsOf stream.items := hright.tagsOf_eq.trans hleft.tagsOf_eq
    rw [ht]
    exact hs.nested
  · intro j hj
    exact hs.bounded j (hleft.perm.subset (hright.perm.subset hj))

theorem expandGroup_ok (hs : Settled stream)
    (he : ∀ default ∈ e.rewriterTargets, default.2 ≠ .outermost) (hid : .group id ∈ stream.items)
    (h : e.expandGroup stream id = .ok out) : Settled out := by
  by_cases hr : (stream.groups.lookup id).kind = .run
  · rw [expandGroup_run hr, map_eq_ok] at h
    obtain ⟨items, hm, rfl⟩ := h
    exact hs.run hr hm
  · by_cases ho : (stream.groups.lookup id).kind.isOpener
    · rw [expandGroup_opener ho] at h
      have hb := hs.bounded id hid ho
      obtain ⟨closer, hc, ⟨-, rfl⟩ | ⟨tag, mid, ht, hl, hr, hg⟩⟩ := expandPair_ok h
      · exact hs.aim he hb
      · obtain ⟨name, -, rfl⟩ := reach?_eq_some (target_ne_outermost he hb) ht
        obtain ⟨closer', hlink, -⟩ := hs.paired.exists_closer hid ho
        obtain rfl : closer = closer' := Option.some.inj (hc.symm.trans hlink.toCloser)
        obtain ⟨items, groups⟩ := out
        obtain rfl : groups = (e.aim stream id closer).groups := hg
        exact (hs.aim he hb).pair hlink.aim hl hr
    · rw [expandGroup_other hr ho] at h
      obtain rfl := Except.ok.inj h
      exact hs

theorem expandGroup_error (hs : Settled stream)
    (he : ∀ default ∈ e.rewriterTargets, default.2 ≠ .outermost) (hid : .group id ∈ stream.items)
    (h : e.expandGroup stream id = .error fault) :
    ∃ keyword name, fault.cause = .noEnclosing keyword name := by
  by_cases hr : (stream.groups.lookup id).kind = .run
  · rw [expandGroup_run hr, map_eq_error] at h
    exact (hs.balanced.but id).moveGroup_error hs.paired hid h
  · by_cases ho : (stream.groups.lookup id).kind.isOpener
    · rw [expandGroup_opener ho] at h
      have hb := hs.bounded id hid ho
      obtain ⟨closer, hlink, hcm⟩ := hs.paired.exists_closer hid ho
      have ha : Settled (e.aim stream id closer) := hs.aim he hb
      obtain ⟨tag, ht, hl | ⟨mid, hl, hr⟩⟩ := expandPair_error hlink.toCloser h
      · exact (ha.balanced.but id).moveGroup_error ha.paired hid hl
      · obtain ⟨back, passed, rest, hm⟩ := ha.paired.moved hl
        exact (ha.balanced.moveOpener ha.paired hlink.aim hl).moveGroup_error (hm.paired ha.paired)
          (hm.perm.mem_iff.mpr hcm) hr
    · rw [expandGroup_other hr ho] at h
      cases h

end Settled

/-- When tags nest, in the whole stream and between the members of every pair, and no pair is to
move out of everything, they nest between the members of every pair after an expansion, and no pair
straddles an element on the way. -/
theorem expand_balanced (e : Expander) (hs : stream.Sound)
    (he : ∀ default ∈ e.rewriterTargets, default.2 ≠ .outermost)
    (hb : ∀ id ∈ groupIds stream.items, (stream.groups.lookup id).kind.isOpener →
      (stream.groups.lookup id).target ≠ .outermost)
    (hw : nest .right [] (tagsOf stream.items) ≠ none)
    (hp : ∀ paired, pairGroups stream = .ok paired → paired.Balanced) :
    (∀ out, e.expand stream = .ok out → out.Balanced) ∧
    ∀ fault keyword, e.expand stream = .error fault → fault.cause ≠ .straddling keyword := by
  cases hpair : pairGroups stream with
  | error fault =>
    have hexpand : e.expand stream = .error fault := by
      rw [expand, hpair]
      rfl
    refine ⟨fun out h => ?_, fun fault' keyword h hc => ?_⟩
    · rw [hexpand] at h
      cases h
    · obtain rfl := Except.error.inj (hexpand.symm.trans h)
      rcases pairGroups_error hpair with hc' | ⟨keyword', hc'⟩ <;> rw [hc'] at hc <;> cases hc
  | ok paired =>
    obtain ⟨hi, hpaired, ht⟩ := (pairGroups_iff hs).mp hpair
    have hstart : Settled paired := by
      refine ⟨hpaired, hp paired hpair, by rw [hi]; exact hw, fun id hid hk => ?_⟩
      rw [ht.kind] at hk
      rw [ht.target]
      exact hb id (mem_groupIds.mpr (hi ▸ hid)) hk
    rw [expand_eq hpair]
    have hstep : ∀ st, ∀ id ∈ groupIds paired.items, ∀ st', Settled st ∧ paired.Steps st →
        e.expandGroup st id = .ok st' → Settled st' ∧ paired.Steps st' := by
      rintro st id hid st' ⟨hst, hsteps⟩ h
      have hr := TemplateStream.Rearranged.of_steps hpaired hsteps
      exact ⟨hst.expandGroup_ok he (hr.mem.mpr (mem_groupIds.mp hid)) h,
        steps_expandGroup hpaired hid hsteps h⟩
    refine ⟨fun out h => ?_, fun fault keyword h hc => ?_⟩
    · exact (foldlM_ok hstep ⟨hstart, .refl⟩ h).1.balanced
    · obtain ⟨st, id, hid, ⟨hst, hsteps⟩, hfault⟩ := foldlM_error hstep ⟨hstart, .refl⟩ h
      have hr := TemplateStream.Rearranged.of_steps hpaired hsteps
      obtain ⟨keyword', name, hc'⟩ :=
        hst.expandGroup_error he (hr.mem.mpr (mem_groupIds.mp hid)) hfault
      rw [hc'] at hc
      cases hc

/-- The loop's members leave the paragraph together. -/
theorem expand_balanced_loopInParagraph :
    loopInParagraph.Sound ∧ ∃ out, expand ⟨[], none, []⟩ loopInParagraph = .ok out ∧
      out.Balanced := by
  have hs : loopInParagraph.Sound := ⟨by decide, by decide⟩
  have hp : ∀ paired, pairGroups loopInParagraph = .ok paired → paired.Balanced := by
    intro paired h opener closer hl before body after hi
    have hnodup := ((pairGroups_iff hs).mp h).2.1.nodup
    obtain rfl := Except.ok.inj h
    have ho := hl.isOpener
    have hc := hl.toCloser
    match opener with
    | 0 =>
      obtain rfl : 1 = closer := Option.some.inj hc
      have hitems : loopInParagraph.items = [.raw (.tag "p" .opening "<p>" 0 false)] ++
          .group 0 :: ([.raw (.content "text" 20 true)] ++
            .group 1 :: [.raw (.tag "p" .closing "</p>" 29 false)]) := rfl
      obtain rfl := between_unique hnodup hitems hi
      rfl
    | 1 => cases ho
    | _ + 2 => cases hc
  exact ⟨hs, _, rfl, (expand_balanced ⟨[], none, []⟩ hs (by decide) (by decide) (by decide) hp).1 _
    rfl⟩

end Expander

end

end DocTemplate
