import Mathlib.Logic.Relation
import DocTemplate.Proofs.Group.Move

namespace DocTemplate

namespace Groups

def fixed (groups : Groups) : StreamItem → Bool
  | .group id => (groups.lookup id).kind = .placeholder
  | _ => true

theorem fixed_eq_false {groups : Groups} {side : Side} {id : GroupId}
    (h : side.moves (groups.lookup id).kind) : groups.fixed (.group id) = false := by
  revert h
  rw [fixed]
  cases side <;> cases (groups.lookup id).kind <;> decide

end Groups

/-- One step of an expansion. -/
inductive TemplateStream.Step : TemplateStream → TemplateStream → Prop where
  | aim (stream : TemplateStream) (id : GroupId) (target : ExpansionTarget) :
      Step stream { stream with groups := stream.groups.setTarget id target }
  | move {stream : TemplateStream} (side : Side) {target : Option String} {id : GroupId}
      {items : List StreamItem} (moves : side.moves (stream.groups.lookup id).kind)
      (moved : moveGroup stream.groups side target id stream.items = .ok items) :
      Step stream { stream with items }

abbrev TemplateStream.Steps : TemplateStream → TemplateStream → Prop :=
  Relation.ReflTransGen TemplateStream.Step

/-- What steps keep of a paired stream. -/
structure TemplateStream.Rearranged (start stream : TemplateStream) : Prop where
  perm : stream.items.Perm start.items
  size : stream.groups.size = start.groups.size
  same : ∀ id, ∃ target, stream.groups.lookup id = { start.groups.lookup id with target }
  paired : stream.Paired
  fixed : stream.items.filter start.groups.fixed = start.items.filter start.groups.fixed
  outward : ∀ side id, side.moves (start.groups.lookup id).kind →
    (ahead side id stream.items).filter start.groups.fixed <:+
      (ahead side id start.items).filter start.groups.fixed

theorem Side.moves_unique {side side' : Side} {kind : GroupKind} (h : side.moves kind)
    (h' : side'.moves kind) : side = side' := by
  revert h h'
  cases side <;> cases side' <;> cases kind <;> decide

namespace TemplateStream

variable {start stream stream' : TemplateStream}

theorem Paired.of_same {groups : Groups} (hp : stream.Paired)
    (hk : ∀ id, (groups.lookup id).kind = (stream.groups.lookup id).kind)
    (hpt : ∀ id, (groups.lookup id).partner = (stream.groups.lookup id).partner) :
    Paired { stream with groups } := by
  have hm : memberMark groups = memberMark stream.groups := memberMark_congr hk hpt
  refine ⟨hp.nodup, fun id hid hc => ?_, ?_⟩
  · obtain ⟨opener, ho⟩ := hp.linked id hid (by rw [← hk]; exact hc)
    exact ⟨opener, by rw [hk]; exact ho.isOpener, by rw [hk]; exact ho.isCloser,
      by rw [hpt]; exact ho.toCloser, by rw [hpt]; exact ho.toOpener⟩
  · rw [pairMarks_eq, hm, ← pairMarks_eq]
    exact hp.nested

namespace Rearranged

theorem refl (hp : start.Paired) : start.Rearranged start :=
  ⟨.refl _, rfl, fun _ => ⟨_, rfl⟩, hp, rfl, fun _ _ _ => List.suffix_rfl⟩

theorem kind (h : start.Rearranged stream) (id : GroupId) :
    (stream.groups.lookup id).kind = (start.groups.lookup id).kind := by
  obtain ⟨target, ht⟩ := h.same id
  rw [ht]

theorem partner (h : start.Rearranged stream) (id : GroupId) :
    (stream.groups.lookup id).partner = (start.groups.lookup id).partner := by
  obtain ⟨target, ht⟩ := h.same id
  rw [ht]

theorem mem (h : start.Rearranged stream) {item : StreamItem} :
    item ∈ stream.items ↔ item ∈ start.items := h.perm.mem_iff

theorem aim (h : start.Rearranged stream) (id : GroupId) (target : ExpansionTarget) :
    start.Rearranged { stream with groups := stream.groups.setTarget id target } := by
  refine ⟨h.perm, by simpa using h.size, fun j => ?_, ?_, h.fixed, h.outward⟩
  · obtain ⟨target', ht⟩ := h.same j
    rw [Groups.lookup_setTarget]
    split
    · exact ⟨target, by rw [ht]⟩
    · exact ⟨target', ht⟩
  · exact h.paired.of_same (fun j => by simp) (fun j => by simp)

theorem move {side : Side} {target : Option String} {id : GroupId} {items : List StreamItem}
    (h : start.Rearranged stream) (hk : side.moves (stream.groups.lookup id).kind)
    (hm : moveGroup stream.groups side target id stream.items = .ok items) :
    start.Rearranged { stream with items } := by
  obtain ⟨back, passed, rest, hmoved⟩ := h.paired.moved hm
  rw [h.kind] at hk
  have hf := Groups.fixed_eq_false hk
  have hn := h.paired.nodup
  refine ⟨hmoved.perm.trans h.perm, h.size, h.same, hmoved.paired h.paired, ?_, ?_⟩
  · have hfilter : ∀ xs : List StreamItem,
        (xs.filter (· ≠ .group id)).filter start.groups.fixed = xs.filter start.groups.fixed := by
      intro xs
      rw [List.filter_filter]
      apply List.filter_congr
      intro item _
      by_cases hi : item = .group id
      · simp [hi, hf]
      · simp [hi]
    show items.filter start.groups.fixed = start.items.filter start.groups.fixed
    rw [← hfilter items, hmoved.filter_eq, hfilter, h.fixed]
  · intro side' j hj
    refine List.IsSuffix.trans ?_ (h.outward side' j hj)
    show (ahead side' j items).filter start.groups.fixed <:+ _
    by_cases hji : j = id
    · subst hji
      obtain rfl := Side.moves_unique hk hj
      rw [hmoved.ahead_source hn, hmoved.ahead_result hn, List.filter_append]
      exact List.suffix_append _ _
    · have hsame : (ahead side' j items).filter start.groups.fixed =
          (ahead side' j stream.items).filter start.groups.fixed := by
        rw [← filter_ahead hf hji side' items, hmoved.filter_eq, filter_ahead hf hji]
      exact hsame ▸ List.suffix_rfl

theorem step (h : start.Rearranged stream) (hs : stream.Step stream') :
    start.Rearranged stream' := by
  cases hs with
  | aim id target => exact h.aim id target
  | move side moves moved => exact h.move moves moved

theorem of_steps (hp : start.Paired) (hs : start.Steps stream) : start.Rearranged stream := by
  induction hs with
  | refl => exact .refl hp
  | tail _ hs ih => exact ih.step hs

end Rearranged

end TemplateStream

def ExpansionTarget.reach? : ExpansionTarget → Option (Option String)
  | tag name => some (some name)
  | outermost => some none
  | stay | auto => none

namespace Expander

/-- A stream once the targets of a pair are decided. -/
def aim (e : Expander) (stream : TemplateStream) (opener closer : GroupId) : TemplateStream :=
  let target := e.target stream.groups opener closer stream.items
  { stream with groups := (stream.groups.setTarget opener target).setTarget closer target }

variable {e : Expander} {stream out : TemplateStream} {opener closer id : GroupId}
  {fault : StructureFault}

@[simp] theorem aim_items : (e.aim stream opener closer).items = stream.items := rfl

@[simp] theorem aim_kind : ((e.aim stream opener closer).groups.lookup id).kind =
    (stream.groups.lookup id).kind := by
  simp [aim]

@[simp] theorem aim_partner : ((e.aim stream opener closer).groups.lookup id).partner =
    (stream.groups.lookup id).partner := by
  simp [aim]

theorem aim_steps : stream.Steps (e.aim stream opener closer) :=
  .tail (.single (.aim stream opener _)) (.aim _ closer _)

theorem expandPair_eq (hp : (stream.groups.lookup opener).partner = some closer) :
    e.expandPair stream opener =
      match (e.target stream.groups opener closer stream.items).reach? with
      | none => .ok (e.aim stream opener closer)
      | some tag => do
        let groups := (e.aim stream opener closer).groups
        let items ← moveGroup groups .left tag opener stream.items
        let items ← moveGroup groups .right tag closer items
        return ⟨items, groups⟩ := by
  simp only [expandPair, hp]
  cases ht : e.target stream.groups opener closer stream.items <;>
    simp [ExpansionTarget.reach?, aim, ht] <;> rfl

theorem expandPair_ok (h : e.expandPair stream opener = .ok out) :
    ∃ closer, (stream.groups.lookup opener).partner = some closer ∧
      ((e.target stream.groups opener closer stream.items).reach? = none ∧
          out = e.aim stream opener closer ∨
        ∃ tag items, (e.target stream.groups opener closer stream.items).reach? = some tag ∧
          moveGroup (e.aim stream opener closer).groups .left tag opener stream.items = .ok items ∧
          moveGroup (e.aim stream opener closer).groups .right tag closer items = .ok out.items ∧
          out.groups = (e.aim stream opener closer).groups) := by
  cases hp : (stream.groups.lookup opener).partner with
  | none => simp [expandPair, hp] at h
  | some closer =>
    refine ⟨closer, rfl, ?_⟩
    rw [expandPair_eq hp] at h
    split at h
    case h_1 hr => exact .inl ⟨hr, (Except.ok.inj h).symm⟩
    case h_2 tag hr =>
      obtain ⟨items, hl, h⟩ := bind_eq_ok.mp h
      obtain ⟨items', hr', h⟩ := bind_eq_ok.mp h
      obtain rfl := Except.ok.inj h
      exact .inr ⟨tag, items, hr, hl, hr', rfl⟩

theorem expandPair_error (hp : (stream.groups.lookup opener).partner = some closer)
    (h : e.expandPair stream opener = .error fault) :
    ∃ tag, (e.target stream.groups opener closer stream.items).reach? = some tag ∧
      (moveGroup (e.aim stream opener closer).groups .left tag opener stream.items = .error fault ∨
        ∃ items,
          moveGroup (e.aim stream opener closer).groups .left tag opener stream.items = .ok items ∧
          moveGroup (e.aim stream opener closer).groups .right tag closer items =
            .error fault) := by
  rw [expandPair_eq hp] at h
  split at h
  case h_1 => cases h
  case h_2 tag hr =>
    refine ⟨tag, hr, ?_⟩
    rcases bind_eq_error.mp h with h | ⟨items, hl, h⟩
    · exact .inl h
    · rcases bind_eq_error.mp h with h | ⟨items', hr', h⟩
      · exact .inr ⟨items, hl, h⟩
      · cases h

theorem expandGroup_run (h : (stream.groups.lookup id).kind = .run) :
    e.expandGroup stream id =
      (moveGroup stream.groups .left none id stream.items).map
        fun items => { stream with items } := by
  simp [expandGroup, h]

theorem expandGroup_opener (h : (stream.groups.lookup id).kind.isOpener) :
    e.expandGroup stream id = e.expandPair stream id := by
  have hr : (stream.groups.lookup id).kind ≠ .run := fun hr => by
    rw [hr] at h
    cases h
  simp [expandGroup, h, hr]

theorem expandGroup_other (hr : (stream.groups.lookup id).kind ≠ .run)
    (h : ¬ (stream.groups.lookup id).kind.isOpener) : e.expandGroup stream id = .ok stream := by
  simp [expandGroup, h, hr]

end Expander

theorem Groups.Linked.aim {e : Expander} {stream : TemplateStream} {opener closer a b : GroupId}
    (h : stream.groups.Linked a b) : (e.aim stream opener closer).groups.Linked a b :=
  ⟨by simpa using h.isOpener, by simpa using h.isCloser, by simpa using h.toCloser,
    by simpa using h.toOpener⟩

namespace TemplateStream.Paired

variable {e : Expander} {stream out : TemplateStream} {opener closer id : GroupId}
  {fault : StructureFault}

theorem exists_closer (hp : stream.Paired) (hm : .group opener ∈ stream.items)
    (hk : (stream.groups.lookup opener).kind.isOpener) :
    ∃ closer, stream.groups.Linked opener closer ∧ .group closer ∈ stream.items := by
  obtain ⟨back, front, ha⟩ := exists_along .right hm
  obtain ⟨between, closer, after, rfl, hl, -⟩ := hp.exists_last .right [] ha hk rfl
  exact ⟨closer, hl, mem_of_along ha _ (by simp)⟩

theorem expandGroup_ok (hp : stream.Paired) (hid : .group id ∈ stream.items)
    (h : e.expandGroup stream id = .ok out) : stream.Steps out := by
  by_cases hr : (stream.groups.lookup id).kind = .run
  · rw [Expander.expandGroup_run hr, map_eq_ok] at h
    obtain ⟨items, hm, rfl⟩ := h
    exact .single (.move .left (by simp [Side.moves, hr]) hm)
  · by_cases ho : (stream.groups.lookup id).kind.isOpener
    · rw [Expander.expandGroup_opener ho] at h
      obtain ⟨closer, hc, ⟨-, rfl⟩ | ⟨tag, items, -, hl, hr, hg⟩⟩ := Expander.expandPair_ok h
      · exact Expander.aim_steps
      · obtain ⟨closer', hlink, -⟩ := hp.exists_closer hid ho
        obtain rfl : closer = closer' := Option.some.inj (hc.symm.trans hlink.toCloser)
        have hleft : (e.aim stream id closer).Step { e.aim stream id closer with items } :=
          .move .left (by simp [Side.moves, ho]) hl
        have hright : TemplateStream.Step { e.aim stream id closer with items } out := by
          obtain ⟨items', groups'⟩ := out
          obtain rfl : groups' = (e.aim stream id closer).groups := hg
          have hk : Side.right.moves ((e.aim stream id closer).groups.lookup closer).kind := by
            simpa [Side.moves] using hlink.isCloser
          exact .move .right hk hr
        exact (Expander.aim_steps.tail hleft).tail hright
    · rw [Expander.expandGroup_other hr ho] at h
      obtain rfl := Except.ok.inj h
      exact .refl

theorem expandGroup_error (hp : stream.Paired) (hid : .group id ∈ stream.items)
    (h : e.expandGroup stream id = .error fault) :
    (∃ keyword name, fault.cause = .noEnclosing keyword name) ∨
      ∃ keyword, fault.cause = .straddling keyword := by
  by_cases hr : (stream.groups.lookup id).kind = .run
  · rw [Expander.expandGroup_run hr, map_eq_error] at h
    rcases hp.moveGroup_error hid h with ⟨name, hc⟩ | ⟨hc, -⟩
    · exact .inl ⟨_, _, hc⟩
    · exact .inr ⟨_, hc⟩
  · by_cases ho : (stream.groups.lookup id).kind.isOpener
    · rw [Expander.expandGroup_opener ho] at h
      obtain ⟨closer, hlink, hcm⟩ := hp.exists_closer hid ho
      have hpa : (e.aim stream id closer).Paired := hp.of_same (by simp) (by simp)
      obtain ⟨tag, -, hl | ⟨items, hl, hr'⟩⟩ := Expander.expandPair_error hlink.toCloser h
      · rcases hpa.moveGroup_error hid hl with ⟨name, hc⟩ | ⟨hc, -⟩
        · exact .inl ⟨_, _, hc⟩
        · exact .inr ⟨_, hc⟩
      · obtain ⟨back, passed, rest, hm⟩ := hpa.moved hl
        have hc : .group closer ∈ items := hm.perm.mem_iff.mpr hcm
        rcases (hm.paired hpa).moveGroup_error hc hr' with ⟨name, hc⟩ | ⟨hc, -⟩
        · exact .inl ⟨_, _, hc⟩
        · exact .inr ⟨_, hc⟩
    · rw [Expander.expandGroup_other hr ho] at h
      cases h

end TemplateStream.Paired

namespace Expander

variable {e : Expander} {stream paired out : TemplateStream} {fault : StructureFault}

theorem expand_eq (hp : pairGroups stream = .ok paired) :
    e.expand stream = (groupIds paired.items).foldlM e.expandGroup paired := by
  rw [expand, hp]
  rfl

theorem steps_expandGroup (hp : paired.Paired) {st st' : TemplateStream} {id : GroupId}
    (hid : id ∈ groupIds paired.items) (hst : paired.Steps st)
    (h : e.expandGroup st id = .ok st') : paired.Steps st' := by
  have hr := TemplateStream.Rearranged.of_steps hp hst
  exact hst.trans (hr.paired.expandGroup_ok (hr.mem.mpr (mem_groupIds.mp hid)) h)

theorem foldlM_steps (hp : paired.Paired) {done : List GroupId}
    (hd : ∀ id ∈ done, id ∈ groupIds paired.items)
    (h : done.foldlM e.expandGroup paired = .ok out) : paired.Steps out :=
  foldlM_ok (fun _ id hid _ hst he => steps_expandGroup hp (hd id hid) hst he) .refl h

theorem fixed_eq {groups groups' : Groups}
    (h : ∀ id, (groups'.lookup id).kind = (groups.lookup id).kind) :
    groups'.fixed = groups.fixed := by
  funext item
  cases item with
  | group id => simp [Groups.fixed, h]
  | raw | sentinel => rfl

/-- Expansion permutes a stream. What stands still keeps its order, members of pairs move outwards,
and pairing finds the same pairs afterwards. On the way every pair that a walk meets is complete,
so a failure is never for want of a group. -/
theorem expand_rearranges (e : Expander) (hs : stream.Sound)
    (hp : pairGroups stream = .ok paired) :
    (∀ out, e.expand stream = .ok out →
      out.items.Perm stream.items ∧
      out.items.filter stream.groups.fixed = stream.items.filter stream.groups.fixed ∧
      (∀ side id, side.moves (stream.groups.lookup id).kind →
        (ahead side id out.items).filter stream.groups.fixed <:+
          (ahead side id stream.items).filter stream.groups.fixed) ∧
      pairGroups out = .ok out ∧
      (∀ id, (out.groups.lookup id).partner = (paired.groups.lookup id).partner) ∧
      pairGroups ⟨out.items, stream.groups⟩ = .ok ⟨out.items, paired.groups⟩) ∧
    (∀ done st, done <+: groupIds stream.items → done.foldlM e.expandGroup paired = .ok st →
      paired.Steps st) ∧
    (∀ st, paired.Steps st → ∀ (side : Side) near first far,
      side.along st.items = near ++ .group first :: far →
      side.entersPair (st.groups.lookup first).kind →
      ∃ last, (st.groups.lookup first).partner = some last ∧ .group last ∈ far) ∧
    ∀ fault, e.expand stream = .error fault →
      (∃ keyword name, fault.cause = .noEnclosing keyword name) ∨
        ∃ keyword, fault.cause = .straddling keyword := by
  obtain ⟨hi, hpaired, ht⟩ := (pairGroups_iff hs).mp hp
  have hf : paired.groups.fixed = stream.groups.fixed := fixed_eq ht.kind
  refine ⟨fun out hout => ?_, fun done st hd hst => ?_, fun st hst side near first far ha he => ?_,
    fun fault hfault => ?_⟩
  · rw [expand_eq hp] at hout
    have hr := TemplateStream.Rearranged.of_steps hpaired
      (foldlM_steps hpaired (fun _ hid => hid) hout)
    have hperm := hr.perm
    have houtward := hr.outward
    rw [hi] at hperm houtward
    have hids : (groupIds out.items).Perm (groupIds stream.items) := hperm.filterMap _
    refine ⟨hperm, by rw [← hf, hr.fixed, hi], fun side id hk => ?_, ?_, hr.partner, ?_⟩
    · rw [← hf]
      exact houtward side id (by rw [ht.kind]; exact hk)
    · have hsound : out.Sound :=
        ⟨hr.paired.nodup, fun id hid => by
          rw [hr.size, ht.size]
          exact hs.inTable id (hids.mem_iff.mp hid)⟩
      exact (pairGroups_iff hsound).mpr ⟨rfl, hr.paired, .refl _ _⟩
    · have hsound : TemplateStream.Sound ⟨out.items, stream.groups⟩ :=
        ⟨hr.paired.nodup, fun id hid => hs.inTable id (hids.mem_iff.mp hid)⟩
      refine (pairGroups_iff hsound).mpr ⟨rfl, ?_, ht.mono fun id hid _ => hids.mem_iff.mpr hid⟩
      exact hr.paired.of_same (fun id => (hr.kind id).symm) fun id => (hr.partner id).symm
  · rw [← hi] at hd
    exact foldlM_steps hpaired (fun _ hid => hd.subset hid) hst
  · have hr := TemplateStream.Rearranged.of_steps hpaired hst
    obtain ⟨between, last, after, rfl, hl, -⟩ := hr.paired.exists_last side [] ha he rfl
    exact ⟨last, hl.partner, by simp⟩
  · rw [expand_eq hp] at hfault
    obtain ⟨st, id, hid, hst, he⟩ := foldlM_error
      (fun _ id hid _ hst he => steps_expandGroup hpaired hid hst he) .refl hfault
    have hr := TemplateStream.Rearranged.of_steps hpaired hst
    exact hr.paired.expandGroup_error (hr.mem.mpr (mem_groupIds.mp hid)) he

/-- A paragraph with a loop around its text: `<p>{for x in xs @p}text{end}</p>`. -/
def loopInParagraph : TemplateStream where
  items := [.raw (.tag "p" .opening "<p>" 0 false), .group 0, .raw (.content "text" 20 true),
    .group 1, .raw (.tag "p" .closing "</p>" 29 false)]
  groups := #[⟨[], .forEach, ⟨3, 20⟩, .tag "p", .both, true, none⟩,
    ⟨[], .finish, ⟨24, 29⟩, .auto, .both, true, none⟩]

theorem expand_rearranges_loopInParagraph :
    loopInParagraph.Sound ∧ ∃ paired out, pairGroups loopInParagraph = .ok paired ∧
      expand ⟨[], none, []⟩ loopInParagraph = .ok out ∧ out.items.Perm loopInParagraph.items ∧
      pairGroups out = .ok out := by
  have hs : loopInParagraph.Sound := ⟨by decide, by decide⟩
  have h := (expand_rearranges ⟨[], none, []⟩ hs rfl).1 _ rfl
  exact ⟨hs, _, _, rfl, rfl, h.1, h.2.2.2.1⟩

end Expander

end DocTemplate
