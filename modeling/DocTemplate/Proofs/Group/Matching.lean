import DocTemplate.Proofs.Group.Pairing
import Mathlib.Data.List.Basic

namespace DocTemplate

/-- No closer of these kinds comes where nothing is open, with `depth` openers before them. -/
def GroupKind.Enough (depth : Nat) (kinds : List GroupKind) : Prop :=
  ∀ front, front <+: kinds → front.countP isCloser ≤ depth + front.countP isOpener

structure GroupKind.BalancedFrom (depth : Nat) (kinds : List GroupKind) : Prop where
  enough : Enough depth kinds
  settled : kinds.countP isCloser = depth + kinds.countP isOpener

/-- No closer comes where nothing is open, and there are as many closers as openers. -/
abbrev GroupKind.Balanced (kinds : List GroupKind) : Prop := BalancedFrom 0 kinds

def Groups.kinds (groups : Groups) (ids : List GroupId) : List GroupKind :=
  ids.map fun id => (groups.lookup id).kind

/-- The partners of some groups match the openers with closers behind them, without crossings. -/
structure Groups.Matched (groups : Groups) (ids : List GroupId) : Prop where
  partnered : ∀ id ∈ ids, (groups.lookup id).kind.isOpener ∨ (groups.lookup id).kind.isCloser →
    ∃ other, (groups.lookup id).partner = some other
  unpaired : ∀ id ∈ ids, ¬(groups.lookup id).kind.isOpener → ¬(groups.lookup id).kind.isCloser →
    (groups.lookup id).partner = none
  symmetric : ∀ id ∈ ids, ∀ other, (groups.lookup id).partner = some other →
    other ∈ ids ∧ other ≠ id ∧ (groups.lookup other).partner = some id
  ordered : ∀ id ∈ ids, ∀ other, (groups.lookup id).partner = some other →
    (groups.lookup id).kind.isOpener ∧ (groups.lookup other).kind.isCloser ∧
        ids.idxOf id < ids.idxOf other ∨
      (groups.lookup id).kind.isCloser ∧ (groups.lookup other).kind.isOpener ∧
        ids.idxOf other < ids.idxOf id
  noncrossing : ∀ a ∈ ids, ∀ b ∈ ids, ∀ a' b',
    (groups.lookup a).kind.isOpener → (groups.lookup a).partner = some a' →
      (groups.lookup b).kind.isOpener → (groups.lookup b).partner = some b' →
        ids.idxOf a < ids.idxOf b → ids.idxOf a' < ids.idxOf b ∨ ids.idxOf b' < ids.idxOf a'

namespace TemplateStream

def kinds (stream : TemplateStream) : List GroupKind :=
  stream.groups.kinds (groupIds stream.items)

def StrayAt (stream : TemplateStream) (id : GroupId) : Prop :=
  ∃ before after, groupIds stream.items = before ++ id :: after ∧
    (stream.groups.lookup id).kind.isCloser ∧ GroupKind.Balanced (stream.groups.kinds before)

def LastOpen (stream : TemplateStream) (id : GroupId) : Prop :=
  ∃ before after, groupIds stream.items = before ++ id :: after ∧
    (stream.groups.lookup id).kind.isOpener ∧ GroupKind.Balanced (stream.groups.kinds after)

end TemplateStream

namespace GroupKind

variable {kind : GroupKind} {kinds : List GroupKind} {depth : Nat}

theorem balancedFrom_nil : BalancedFrom depth [] ↔ depth = 0 := by
  constructor
  · intro h
    simpa using h.settled.symm
  · rintro rfl
    exact ⟨fun front hf => by simp [List.prefix_nil.mp hf], rfl⟩

theorem not_isOpener_of_isCloser (h : kind.isCloser) : kind.isOpener = false := by
  cases kind <;> simp_all [isOpener, isCloser]

theorem enough_cons : Enough depth (kind :: kinds) ↔ ∀ front, front <+: kinds →
    (kind :: front).countP isCloser ≤ depth + (kind :: front).countP isOpener := by
  constructor
  · intro h front hf
    exact h _ (List.cons_prefix_cons.mpr ⟨rfl, hf⟩)
  · intro h front hf
    obtain rfl | ⟨front, rfl, hf⟩ := List.prefix_cons_iff.mp hf
    · simp
    · exact h front ‹_›

theorem Enough.mono {depth' : Nat} (h : Enough depth kinds) (hd : depth ≤ depth') :
    Enough depth' kinds :=
  fun front hf => Nat.le_trans (h front hf) (Nat.add_le_add_right hd _)

theorem enough_opener (h : kind.isOpener) :
    Enough depth (kind :: kinds) ↔ Enough (depth + 1) kinds := by
  have hc : ¬kind.isCloser := by simp [not_isCloser_of_isOpener h]
  rw [enough_cons]
  refine forall₂_congr fun front _ => ?_
  rw [List.countP_cons_of_pos h, List.countP_cons_of_neg hc]
  omega

theorem enough_closer (h : kind.isCloser) :
    Enough (depth + 1) (kind :: kinds) ↔ Enough depth kinds := by
  have ho : ¬kind.isOpener := by simp [not_isOpener_of_isCloser h]
  rw [enough_cons]
  refine forall₂_congr fun front _ => ?_
  rw [List.countP_cons_of_pos h, List.countP_cons_of_neg ho]
  omega

theorem enough_other (ho : ¬kind.isOpener) (hc : ¬kind.isCloser) :
    Enough depth (kind :: kinds) ↔ Enough depth kinds := by
  rw [enough_cons]
  refine forall₂_congr fun front _ => ?_
  rw [List.countP_cons_of_neg hc, List.countP_cons_of_neg ho]

theorem balancedFrom_opener (h : kind.isOpener) :
    BalancedFrom depth (kind :: kinds) ↔ BalancedFrom (depth + 1) kinds := by
  have hc : ¬kind.isCloser := by simp [not_isCloser_of_isOpener h]
  have hsettled := @List.countP_cons_of_pos _ isOpener kind kinds h
  have hsettled' := @List.countP_cons_of_neg _ isCloser kind kinds hc
  constructor
  · exact fun hb => ⟨(enough_opener h).mp hb.enough, by have := hb.settled; omega⟩
  · exact fun hb => ⟨(enough_opener h).mpr hb.enough, by have := hb.settled; omega⟩

theorem balancedFrom_closer (h : kind.isCloser) :
    BalancedFrom (depth + 1) (kind :: kinds) ↔ BalancedFrom depth kinds := by
  have ho : ¬kind.isOpener := by simp [not_isOpener_of_isCloser h]
  have hsettled := @List.countP_cons_of_neg _ isOpener kind kinds ho
  have hsettled' := @List.countP_cons_of_pos _ isCloser kind kinds h
  constructor
  · exact fun hb => ⟨(enough_closer h).mp hb.enough, by have := hb.settled; omega⟩
  · exact fun hb => ⟨(enough_closer h).mpr hb.enough, by have := hb.settled; omega⟩

theorem balancedFrom_other (ho : ¬kind.isOpener) (hc : ¬kind.isCloser) :
    BalancedFrom depth (kind :: kinds) ↔ BalancedFrom depth kinds := by
  have hsettled := @List.countP_cons_of_neg _ isOpener kind kinds ho
  have hsettled' := @List.countP_cons_of_neg _ isCloser kind kinds hc
  constructor
  · exact fun hb => ⟨(enough_other ho hc).mp hb.enough, by have := hb.settled; omega⟩
  · exact fun hb => ⟨(enough_other ho hc).mpr hb.enough, by have := hb.settled; omega⟩

theorem not_balanced_of_closer {front back : List GroupKind} (h : kind.isCloser)
    (hb : Enough 0 (front ++ kind :: back)) : ¬Balanced front := by
  intro hf
  have henough := hb (front ++ [kind]) ⟨back, by simp⟩
  have hsettled := hf.settled
  simp [h, not_isOpener_of_isCloser h] at henough hsettled
  omega

theorem not_balanced_of_opener {front back : List GroupKind} (h : kind.isOpener)
    (hb : Balanced (front ++ kind :: back)) : ¬Balanced back := by
  intro hback
  have henough := hb.enough front (List.prefix_append ..)
  have hsettled := hb.settled
  have hsettled' := hback.settled
  simp [h, not_isCloser_of_isOpener h] at henough hsettled hsettled'
  omega

end GroupKind

section

variable {groups : Groups} {opened ids : List GroupId} {id : GroupId}

@[simp] theorem Groups.kind_link (groups : Groups) (a b j : GroupId) :
    ((groups.link a b).lookup j).kind = (groups.lookup j).kind := by
  rw [lookup_link]
  split
  · rfl
  · split <;> rfl

@[simp] theorem Groups.kinds_link (groups : Groups) (a b : GroupId) (ids : List GroupId) :
    (groups.link a b).kinds ids = groups.kinds ids := by
  simp [kinds]

@[simp] theorem Groups.strayFault_link (groups : Groups) (a b j : GroupId) :
    ((groups.link a b).lookup j).strayFault = (groups.lookup j).strayFault := by
  rw [lookup_link]
  split
  · rfl
  · split <;> rfl

def Groups.openFault (groups : Groups) (id : GroupId) : StructureFault :=
  (groups.lookup id).fault (.missingEnd (groups.lookup id).keyword)

@[simp] theorem Groups.openFault_link (groups : Groups) (a b j : GroupId) :
    (groups.link a b).openFault j = groups.openFault j := by
  unfold openFault
  rw [lookup_link]
  split
  · rfl
  · split <;> rfl

/-- How pairing ends: without a fault when the groups close what they and `opened` open, and else
with a fault at a closer where nothing is open, or at the last opener that is left open, which is
one of `opened` when the groups close all of their own. -/
inductive PairingEnds (groups : Groups) (opened ids : List GroupId) : Option StructureFault → Prop
  | balanced (hb : GroupKind.BalancedFrom opened.length (groups.kinds ids)) :
      PairingEnds groups opened ids none
  | stray (before after : List GroupId) (id : GroupId) (hids : ids = before ++ id :: after)
      (hc : (groups.lookup id).kind.isCloser)
      (hb : GroupKind.BalancedFrom opened.length (groups.kinds before)) :
      PairingEnds groups opened ids (some (groups.lookup id).strayFault)
  | missing (before after : List GroupId) (id : GroupId) (hids : ids = before ++ id :: after)
      (ho : (groups.lookup id).kind.isOpener) (hb : GroupKind.Balanced (groups.kinds after))
      (he : GroupKind.Enough opened.length (groups.kinds ids)) :
      PairingEnds groups opened ids (some (groups.openFault id))
  | earlier (inner outer : List GroupId) (id : GroupId) (ho : opened = inner ++ id :: outer)
      (hb : GroupKind.BalancedFrom inner.length (groups.kinds ids)) :
      PairingEnds groups opened ids (some (groups.openFault id))

namespace PairingEnds

variable {ending : Option StructureFault}

theorem opener (ho : (groups.lookup id).kind.isOpener)
    (h : PairingEnds groups (id :: opened) ids ending) :
    PairingEnds groups opened (id :: ids) ending := by
  cases h with
  | balanced hb => exact .balanced ((GroupKind.balancedFrom_opener ho).mpr hb)
  | stray before after j hids hc hb =>
    exact .stray (id :: before) after j (congrArg (id :: ·) hids) hc
      ((GroupKind.balancedFrom_opener ho).mpr hb)
  | missing before after j hids hj hb he =>
    exact .missing (id :: before) after j (congrArg (id :: ·) hids) hj hb
      ((GroupKind.enough_opener ho).mpr he)
  | earlier inner outer j hj hb =>
    obtain ⟨rfl, hcons⟩ | ⟨inner, rfl, hinner⟩ := List.cons_eq_append_iff.mp hj
    · obtain ⟨rfl, rfl⟩ := List.cons.inj hcons
      exact .missing [] ids j rfl ho hb
        ((GroupKind.enough_opener ho).mpr (hb.enough.mono (Nat.zero_le _)))
    · exact .earlier inner outer j hinner ((GroupKind.balancedFrom_opener ho).mpr hb)

theorem closer {opener : GroupId} (hc : (groups.lookup id).kind.isCloser)
    (h : PairingEnds (groups.link opener id) opened ids ending) :
    PairingEnds groups (opener :: opened) (id :: ids) ending := by
  cases h with
  | balanced hb =>
    rw [Groups.kinds_link] at hb
    exact .balanced ((GroupKind.balancedFrom_closer hc).mpr hb)
  | stray before after j hids hj hb =>
    rw [Groups.kind_link] at hj
    rw [Groups.kinds_link] at hb
    rw [Groups.strayFault_link]
    exact .stray (id :: before) after j (congrArg (id :: ·) hids) hj
      ((GroupKind.balancedFrom_closer hc).mpr hb)
  | missing before after j hids hj hb he =>
    rw [Groups.kind_link] at hj
    rw [Groups.kinds_link] at hb he
    rw [Groups.openFault_link]
    exact .missing (id :: before) after j (congrArg (id :: ·) hids) hj hb
      ((GroupKind.enough_closer hc).mpr he)
  | earlier inner outer j hj hb =>
    rw [Groups.kinds_link] at hb
    rw [Groups.openFault_link]
    exact .earlier (opener :: inner) outer j (congrArg (opener :: ·) hj)
      ((GroupKind.balancedFrom_closer hc).mpr hb)

theorem other (ho : ¬(groups.lookup id).kind.isOpener) (hc : ¬(groups.lookup id).kind.isCloser)
    (h : PairingEnds groups opened ids ending) : PairingEnds groups opened (id :: ids) ending := by
  cases h with
  | balanced hb => exact .balanced ((GroupKind.balancedFrom_other ho hc).mpr hb)
  | stray before after j hids hj hb =>
    exact .stray (id :: before) after j (congrArg (id :: ·) hids) hj
      ((GroupKind.balancedFrom_other ho hc).mpr hb)
  | missing before after j hids hj hb he =>
    exact .missing (id :: before) after j (congrArg (id :: ·) hids) hj hb
      ((GroupKind.enough_other ho hc).mpr he)
  | earlier inner outer j hj hb =>
    exact .earlier inner outer j hj ((GroupKind.balancedFrom_other ho hc).mpr hb)

end PairingEnds

theorem pairFrom_ends (groups : Groups) (opened ids : List GroupId) :
    PairingEnds groups opened ids (pairFrom groups opened ids).2 := by
  induction ids generalizing groups opened with
  | nil =>
    cases opened with
    | nil => exact .balanced (GroupKind.balancedFrom_nil.mpr rfl)
    | cons id opened => exact .earlier [] opened id rfl (GroupKind.balancedFrom_nil.mpr rfl)
  | cons id ids ih =>
    by_cases ho : (groups.lookup id).kind.isOpener
    · rw [pairFrom_opener ho]
      exact (ih groups (id :: opened)).opener ho
    · by_cases hc : (groups.lookup id).kind.isCloser
      · cases opened with
        | nil =>
          rw [pairFrom_closer_nil hc]
          exact .stray [] ids id rfl hc (GroupKind.balancedFrom_nil.mpr rfl)
        | cons opener opened =>
          rw [pairFrom_closer hc]
          exact (ih (groups.link opener id) opened).closer hc
      · rw [pairFrom_other ho hc]
        exact (ih groups opened).other ho hc

end

namespace TemplateStream

variable {stream : TemplateStream} {id : GroupId} {fault : StructureFault}

theorem StrayAt.eq (h : stream.StrayAt id) {other : GroupId} (h' : stream.StrayAt other) :
    other = id := by
  obtain ⟨before, after, hids, hc, hb⟩ := h
  obtain ⟨before', after', hids', hc', hb'⟩ := h'
  obtain ⟨more, rfl, hmore⟩ | ⟨more, rfl, hmore⟩ :=
    List.append_eq_append_iff.mp (hids.symm.trans hids')
  · cases more with
    | nil => exact (List.cons.inj hmore).1.symm
    | cons c more =>
      obtain ⟨rfl, -⟩ := List.cons.inj hmore
      rw [Groups.kinds, List.map_append] at hb'
      exact absurd hb (GroupKind.not_balanced_of_closer hc hb'.enough)
  · cases more with
    | nil => exact (List.cons.inj hmore).1
    | cons c more =>
      obtain ⟨rfl, -⟩ := List.cons.inj hmore
      rw [Groups.kinds, List.map_append] at hb
      exact absurd hb' (GroupKind.not_balanced_of_closer hc' hb.enough)

theorem LastOpen.eq (h : stream.LastOpen id) {other : GroupId} (h' : stream.LastOpen other) :
    other = id := by
  obtain ⟨before, after, hids, ho, hb⟩ := h
  obtain ⟨before', after', hids', ho', hb'⟩ := h'
  obtain ⟨more, rfl, hmore⟩ | ⟨more, rfl, hmore⟩ :=
    List.append_eq_append_iff.mp (hids.symm.trans hids')
  · cases more with
    | nil => exact (List.cons.inj hmore).1.symm
    | cons c more =>
      obtain ⟨rfl, hafter⟩ := List.cons.inj hmore
      rw [hafter, Groups.kinds, List.append_eq, List.map_append] at hb
      exact absurd hb' (GroupKind.not_balanced_of_opener ho' hb)
  · cases more with
    | nil => exact (List.cons.inj hmore).1
    | cons c more =>
      obtain ⟨rfl, hafter⟩ := List.cons.inj hmore
      rw [hafter, Groups.kinds, List.append_eq, List.map_append] at hb'
      exact absurd hb (GroupKind.not_balanced_of_opener ho hb')

theorem StrayAt.not_enough (h : stream.StrayAt id) : ¬GroupKind.Enough 0 stream.kinds := by
  obtain ⟨before, after, hids, hc, hb⟩ := h
  rw [kinds, hids, Groups.kinds, List.map_append]
  exact fun he => GroupKind.not_balanced_of_closer hc he hb

theorem LastOpen.not_balanced (h : stream.LastOpen id) : ¬GroupKind.Balanced stream.kinds := by
  obtain ⟨before, after, hids, ho, hb⟩ := h
  rw [kinds, hids, Groups.kinds, List.map_append]
  exact fun hall => GroupKind.not_balanced_of_opener ho hall hb

theorem pairGroups_balanced (h : (pairGroups stream).isOk) : GroupKind.Balanced stream.kinds := by
  have hends := pairFrom_ends stream.groups [] (groupIds stream.items)
  unfold pairGroups at h
  split at h
  next he =>
    rw [he] at hends
    cases hends with
    | balanced hb => exact hb
  next => cases h

/-- A fault is at the first closer where nothing is open, or else at the last opener that is left
open. -/
theorem pairGroups_fault (h : pairGroups stream = .error fault) :
    (∃ id, stream.StrayAt id ∧ fault = (stream.groups.lookup id).strayFault) ∨
      (∀ id, ¬stream.StrayAt id) ∧
        ∃ id, stream.LastOpen id ∧ fault = stream.groups.openFault id := by
  have hends := pairFrom_ends stream.groups [] (groupIds stream.items)
  unfold pairGroups at h
  split at h
  next => cases h
  next hpair =>
    obtain rfl := Except.error.inj h
    rw [hpair] at hends
    cases hends with
    | stray before after id hids hc hb => exact .inl ⟨id, ⟨before, after, hids, hc, hb⟩, rfl⟩
    | missing before after id hids ho hb he =>
      exact .inr ⟨fun other hs => hs.not_enough he, id, ⟨before, after, hids, ho, hb⟩, rfl⟩
    | earlier inner outer id ho => simp at ho

theorem pairGroups_isOk_iff : (pairGroups stream).isOk ↔ GroupKind.Balanced stream.kinds := by
  refine ⟨pairGroups_balanced, fun hb => ?_⟩
  cases h : pairGroups stream with
  | ok paired => rfl
  | error fault =>
    obtain ⟨id, hs, -⟩ | ⟨-, id, ho, -⟩ := pairGroups_fault h
    · exact absurd hb.enough hs.not_enough
    · exact absurd hb ho.not_balanced

end TemplateStream

section

variable {ids before after : List GroupId} {id other : GroupId}

theorem idxOf_lt_of_mem_before (hn : (before ++ id :: after).Nodup) (h : other ∈ before) :
    (before ++ id :: after).idxOf other < (before ++ id :: after).idxOf id := by
  have hid : id ∉ before := fun hm => (List.nodup_append.mp hn).2.2 id hm id (by simp) rfl
  rw [List.idxOf_append_of_mem h, List.idxOf_append_of_notMem hid, List.idxOf_cons_self]
  exact Nat.lt_of_lt_of_le (List.idxOf_lt_length_of_mem h) (Nat.le_add_right ..)

theorem idxOf_lt_of_mem_after (hn : (before ++ id :: after).Nodup) (h : other ∈ after) :
    (before ++ id :: after).idxOf id < (before ++ id :: after).idxOf other := by
  have hid : id ∉ before := fun hm => (List.nodup_append.mp hn).2.2 id hm id (by simp) rfl
  have hother : other ∉ before := fun hm =>
    (List.nodup_append.mp hn).2.2 other hm other (by simp [h]) rfl
  have hne : id ≠ other := by
    rintro rfl
    exact (List.nodup_cons.mp (List.nodup_append.mp hn).2.1).1 h
  rw [List.idxOf_append_of_notMem hid, List.idxOf_append_of_notMem hother, List.idxOf_cons_self,
    List.idxOf_cons_ne _ hne]
  omega

theorem mem_before_of_idxOf_lt (hn : (before ++ id :: after).Nodup)
    (hm : other ∈ before ++ id :: after)
    (h : (before ++ id :: after).idxOf other < (before ++ id :: after).idxOf id) :
    other ∈ before := by
  rcases List.mem_append.mp hm with hm | hm
  · exact hm
  · rcases List.mem_cons.mp hm with rfl | hm
    · exact absurd h (Nat.lt_irrefl _)
    · exact absurd h (Nat.lt_asymm (idxOf_lt_of_mem_after hn hm))

theorem mem_after_of_idxOf_lt (hn : (before ++ id :: after).Nodup)
    (hm : other ∈ before ++ id :: after)
    (h : (before ++ id :: after).idxOf id < (before ++ id :: after).idxOf other) :
    other ∈ after := by
  rcases List.mem_append.mp hm with hm | hm
  · exact absurd h (Nat.lt_asymm (idxOf_lt_of_mem_before hn hm))
  · exact (List.mem_cons.mp hm).resolve_left fun he => absurd h (by simp [he])

end

theorem memberMark_closing {groups : Groups} {id label : GroupId}
    (h : memberMark groups id = some (label, .closing)) :
    (groups.lookup id).kind.isCloser ∧ (groups.lookup id).partner = some label := by
  unfold memberMark at h
  extract_lets g at h
  split at h
  · cases h
  · split at h
    next hc =>
      obtain ⟨opener, hp, he⟩ := Option.map_eq_some_iff.mp h
      obtain rfl := congrArg Prod.fst he
      exact ⟨hc, hp⟩
    next => cases h

theorem memberMark_opening {groups : Groups} {id label : GroupId}
    (h : memberMark groups id = some (label, .opening)) :
    label = id ∧ (groups.lookup id).kind.isOpener := by
  unfold memberMark at h
  extract_lets g at h
  split at h
  next ho =>
    obtain rfl := congrArg Prod.fst (Option.some.inj h)
    exact ⟨rfl, ho⟩
  next =>
    split at h
    · obtain ⟨opener, -, he⟩ := Option.map_eq_some_iff.mp h
      cases congrArg Prod.snd he
    · cases h

theorem mem_or_entered_of_nest {α : Type} [DecidableEq α] {side : Side} {opened final : List α}
    {marks : List (α × TagPart)} (h : nest side opened marks = some final) {label : α}
    (hl : label ∈ final) : label ∈ opened ∨ (label, side.entry) ∈ marks := by
  induction marks generalizing opened with
  | nil =>
    obtain rfl := Option.some.inj h
    exact .inl hl
  | cons mark marks ih =>
    obtain ⟨a, part⟩ := mark
    rcases side.part_cases part with rfl | rfl | rfl
    · rw [nest_entry] at h
      rcases ih h with hm | hm
      · rcases List.mem_cons.mp hm with rfl | hm
        · exact .inr (by simp)
        · exact .inl hm
      · exact .inr (List.mem_cons_of_mem _ hm)
    · obtain ⟨rest, rfl, hr⟩ := eq_cons_of_nest_exit h
      exact (ih hr).imp (List.mem_cons_of_mem _) (List.mem_cons_of_mem _)
    · rw [nest_selfClosing] at h
      exact (ih h).imp id (List.mem_cons_of_mem _)

section

variable {groups : Groups} {ids before after opened final : List GroupId} {opener id : GroupId}

/-- Behind an opener stands its closer, with nothing left open in between. -/
theorem exists_closer_of_nest
    (hl : ∀ id ∈ after, (groups.lookup id).kind.isCloser → ∃ opener, groups.Linked opener id)
    (h : nest .right (opener :: opened) (after.filterMap (memberMark groups)) = some final)
    (hf : final.length ≤ opened.length) :
    ∃ inner closer outer, after = inner ++ closer :: outer ∧ groups.Linked opener closer ∧
      nest .right [] (inner.filterMap (memberMark groups)) = some [] := by
  obtain ⟨ys, zs, hmarks, hy, -⟩ := exists_exit [] h hf
  obtain ⟨inner, rest, rfl, rfl, hrest⟩ := List.filterMap_eq_append_iff.mp hmarks
  obtain ⟨others, closer, outer, rfl, hnone, hmark, -⟩ := List.filterMap_eq_cons_iff.mp hrest
  obtain ⟨hc, hp⟩ := memberMark_closing hmark
  obtain ⟨opener', hlink⟩ := hl closer (by simp) hc
  obtain rfl : opener' = opener := Option.some.inj (hlink.toOpener.symm.trans hp)
  have hothers : others.filterMap (memberMark groups) = [] := List.filterMap_eq_nil_iff.mpr hnone
  refine ⟨inner ++ others, closer, outer, by simp, hlink, ?_⟩
  rwa [List.filterMap_append, hothers, List.append_nil]

theorem mem_before_closer {closer : GroupId}
    (hn : nest .right [] (ids.filterMap (memberMark groups)) = some [])
    (hids : ids = before ++ closer :: after) (hlink : groups.Linked opener closer) :
    opener ∈ before := by
  subst hids
  rw [List.filterMap_append, List.filterMap_cons_some (memberMark_closer hlink),
    nest_append_eq_some] at hn
  obtain ⟨mid, hmid, hn⟩ := hn
  obtain ⟨rest, rfl, -⟩ := eq_cons_of_nest_exit hn
  rcases mem_or_entered_of_nest hmid (List.mem_cons_self ..) with hm | hm
  · cases hm
  · obtain ⟨id, hid, hmark⟩ := List.mem_filterMap.mp hm
    rwa [(memberMark_opening hmark).1]

structure Groups.Nested (groups : Groups) (ids : List GroupId) : Prop where
  nodup : ids.Nodup
  linked : ∀ id ∈ ids, (groups.lookup id).kind.isCloser → ∃ opener, groups.Linked opener id
  nested : nest .right [] (ids.filterMap (memberMark groups)) = some []
  unpaired : ∀ id ∈ ids, ¬(groups.lookup id).kind.isOpener → ¬(groups.lookup id).kind.isCloser →
    (groups.lookup id).partner = none

namespace Groups.Nested

variable {closer other : GroupId}

theorem exists_split (h : groups.Nested ids) (hids : ids = before ++ opener :: after)
    (ho : (groups.lookup opener).kind.isOpener) :
    ∃ inner closer outer, after = inner ++ closer :: outer ∧ groups.Linked opener closer ∧
      nest .right [] (inner.filterMap (memberMark groups)) = some [] := by
  subst hids
  have hn := h.nested
  rw [List.filterMap_append, List.filterMap_cons_some (memberMark_opener ho),
    nest_append_eq_some] at hn
  obtain ⟨mid, -, hn⟩ := hn
  have hopened := (nest_entry .right mid opener _).symm.trans hn
  exact exists_closer_of_nest (fun id hid => h.linked id (by simp [hid])) hopened (Nat.zero_le _)

theorem exists_closer (h : groups.Nested ids) (hm : opener ∈ ids)
    (ho : (groups.lookup opener).kind.isOpener) :
    ∃ closer, groups.Linked opener closer ∧ closer ∈ ids ∧ ids.idxOf opener < ids.idxOf closer := by
  obtain ⟨before, after, rfl⟩ := List.append_of_mem hm
  obtain ⟨inner, closer, outer, rfl, hlink, -⟩ := h.exists_split rfl ho
  exact ⟨closer, hlink, by simp, idxOf_lt_of_mem_after h.nodup (by simp)⟩

theorem exists_opener (h : groups.Nested ids) (hm : closer ∈ ids)
    (hc : (groups.lookup closer).kind.isCloser) :
    ∃ opener, groups.Linked opener closer ∧ opener ∈ ids ∧ ids.idxOf opener < ids.idxOf closer := by
  obtain ⟨opener, hlink⟩ := h.linked closer hm hc
  obtain ⟨before, after, rfl⟩ := List.append_of_mem hm
  have hbefore := mem_before_closer h.nested rfl hlink
  exact ⟨opener, hlink, by simp [hbefore], idxOf_lt_of_mem_before h.nodup hbefore⟩

theorem linked_or_linked (h : groups.Nested ids) (hm : id ∈ ids)
    (hp : (groups.lookup id).partner = some other) : other ∈ ids ∧
      (groups.Linked id other ∧ ids.idxOf id < ids.idxOf other ∨
        groups.Linked other id ∧ ids.idxOf other < ids.idxOf id) := by
  by_cases ho : (groups.lookup id).kind.isOpener
  · obtain ⟨closer, hlink, hcloser, hlt⟩ := h.exists_closer hm ho
    obtain rfl : closer = other := Option.some.inj (hlink.toCloser.symm.trans hp)
    exact ⟨hcloser, .inl ⟨hlink, hlt⟩⟩
  · by_cases hc : (groups.lookup id).kind.isCloser
    · obtain ⟨opener, hlink, hopener, hlt⟩ := h.exists_opener hm hc
      obtain rfl : opener = other := Option.some.inj (hlink.toOpener.symm.trans hp)
      exact ⟨hopener, .inr ⟨hlink, hlt⟩⟩
    · rw [h.unpaired id hm ho hc] at hp
      cases hp

theorem noncrossing {a b a' b' : GroupId} (h : groups.Nested ids) (ha : a ∈ ids) (hb : b ∈ ids)
    (hoa : (groups.lookup a).kind.isOpener) (hpa : (groups.lookup a).partner = some a')
    (hob : (groups.lookup b).kind.isOpener) (hpb : (groups.lookup b).partner = some b')
    (hlt : ids.idxOf a < ids.idxOf b) :
    ids.idxOf a' < ids.idxOf b ∨ ids.idxOf b' < ids.idxOf a' := by
  obtain ⟨before, after, rfl⟩ := List.append_of_mem ha
  obtain ⟨inner, closer, outer, rfl, hlink, hinner⟩ := h.exists_split rfl hoa
  obtain rfl : closer = a' := Option.some.inj (hlink.toCloser.symm.trans hpa)
  have hbehind := mem_after_of_idxOf_lt h.nodup hb hlt
  have hnodup := h.nodup
  rw [← List.cons_append, ← List.append_assoc] at hnodup ⊢
  rcases List.mem_append.mp hbehind with hwithin | hrest
  · -- What stands between the two is nested on its own, so the closer stands there too.
    have hbetween : groups.Nested inner := by
      refine ⟨?_, fun id hid => h.linked id (by simp [hid]), hinner,
        fun id hid => h.unpaired id (by simp [hid])⟩
      exact hnodup.sublist ((List.sublist_cons_self a inner).trans
        ((List.sublist_append_right before _).trans (List.sublist_append_left _ _)))
    obtain ⟨closer', hlink', hmem, -⟩ := hbetween.exists_closer hwithin hob
    obtain rfl : closer' = b' := Option.some.inj (hlink'.toCloser.symm.trans hpb)
    exact .inr (idxOf_lt_of_mem_before hnodup (by simp [hmem]))
  · rcases List.mem_cons.mp hrest with rfl | hout
    · have hc := hlink.isCloser
      rw [GroupKind.not_isCloser_of_isOpener hob] at hc
      cases hc
    · exact .inl (idxOf_lt_of_mem_after hnodup hout)

theorem matched (h : groups.Nested ids) : groups.Matched ids where
  partnered := by
    rintro id hid (ho | hc)
    · obtain ⟨closer, hlink, -⟩ := h.exists_closer hid ho
      exact ⟨closer, hlink.toCloser⟩
    · obtain ⟨opener, hlink, -⟩ := h.exists_opener hid hc
      exact ⟨opener, hlink.toOpener⟩
  unpaired := h.unpaired
  symmetric := by
    intro id hid other hp
    obtain ⟨hm, ⟨hlink, hlt⟩ | ⟨hlink, hlt⟩⟩ := h.linked_or_linked hid hp
    · exact ⟨hm, fun he => by simp [he] at hlt, hlink.toOpener⟩
    · exact ⟨hm, fun he => by simp [he] at hlt, hlink.toCloser⟩
  ordered := by
    intro id hid other hp
    obtain ⟨-, ⟨hlink, hlt⟩ | ⟨hlink, hlt⟩⟩ := h.linked_or_linked hid hp
    · exact .inl ⟨hlink.isOpener, hlink.isCloser, hlt⟩
    · exact .inr ⟨hlink.isCloser, hlink.isOpener, hlt⟩
  noncrossing := fun _ ha _ hb _ _ hoa hpa hob hpb hlt =>
    h.noncrossing ha hb hoa hpa hob hpb hlt

end Groups.Nested

structure Groups.Waiting (groups : Groups) (before after opened : List GroupId) : Prop where
  mem_iff : ∀ id, id ∈ opened ↔ id ∈ before ∧ (groups.lookup id).kind.isOpener ∧
    ∃ closer ∈ after, (groups.lookup id).partner = some closer
  sorted : opened.Pairwise fun a b =>
    (before ++ after).idxOf b < (before ++ after).idxOf a

namespace Groups.Matched

variable {other : GroupId}

theorem of_opener (h : groups.Matched ids) (hm : id ∈ ids) (ho : (groups.lookup id).kind.isOpener)
    (hp : (groups.lookup id).partner = some other) :
    (groups.lookup other).kind.isCloser ∧ ids.idxOf id < ids.idxOf other := by
  obtain ⟨-, hc, hlt⟩ | ⟨hc, -⟩ := h.ordered id hm other hp
  · exact ⟨hc, hlt⟩
  · rw [GroupKind.not_isCloser_of_isOpener ho] at hc
    cases hc

theorem of_closer (h : groups.Matched ids) (hm : id ∈ ids) (hc : (groups.lookup id).kind.isCloser)
    (hp : (groups.lookup id).partner = some other) :
    groups.Linked other id ∧ ids.idxOf other < ids.idxOf id := by
  obtain ⟨ho, -⟩ | ⟨-, ho, hlt⟩ := h.ordered id hm other hp
  · rw [GroupKind.not_isOpener_of_isCloser hc] at ho
    cases ho
  · exact ⟨⟨ho, hc, (h.symmetric id hm other hp).2.2, hp⟩, hlt⟩

theorem waiting_next (h : groups.Matched (before ++ id :: after))
    (hw : groups.Waiting before (id :: after) opened)
    (hm : other ∈ opened) (hp : (groups.lookup id).partner ≠ some other) :
    other ∈ before ++ [id] ∧ (groups.lookup other).kind.isOpener ∧
      ∃ closer ∈ after, (groups.lookup other).partner = some closer := by
  obtain ⟨hbefore, ho, closer, hc, hpartner⟩ := (hw.mem_iff other).mp hm
  refine ⟨by simp [hbefore], ho, closer, ?_, hpartner⟩
  refine (List.mem_cons.mp hc).resolve_left ?_
  rintro rfl
  exact hp (h.symmetric other (by simp [hbefore]) closer hpartner).2.2

theorem waiting_opener (h : groups.Matched (before ++ id :: after))
    (hn : (before ++ id :: after).Nodup) (hw : groups.Waiting before (id :: after) opened)
    (ho : (groups.lookup id).kind.isOpener) :
    groups.Waiting (before ++ [id]) after (id :: opened) := by
  obtain ⟨closer, hp⟩ := h.partnered id (by simp) (.inl ho)
  obtain ⟨hc, hlt⟩ := h.of_opener (by simp) ho hp
  have hafter := mem_after_of_idxOf_lt hn (h.symmetric id (by simp) closer hp).1 hlt
  refine ⟨fun other => ⟨fun hm => ?_, ?_⟩, ?_⟩
  · rcases List.mem_cons.mp hm with rfl | hm
    · exact ⟨by simp, ho, closer, hafter, hp⟩
    · refine h.waiting_next hw hm fun he => ?_
      have hcloser := (h.of_opener (by simp) ho he).1
      rw [GroupKind.not_isCloser_of_isOpener ((hw.mem_iff other).mp hm).2.1] at hcloser
      cases hcloser
  · rintro ⟨hm, hother, closer', hc', hp'⟩
    rcases List.mem_append.mp hm with hm | hm
    · exact List.mem_cons_of_mem _ ((hw.mem_iff other).mpr
        ⟨hm, hother, closer', List.mem_cons_of_mem _ hc', hp'⟩)
    · exact List.mem_singleton.mp hm ▸ List.mem_cons_self ..
  · rw [List.append_assoc]
    refine List.pairwise_cons.mpr ⟨fun other hm => ?_, hw.sorted⟩
    exact idxOf_lt_of_mem_before hn ((hw.mem_iff other).mp hm).1

theorem waiting_closer (h : groups.Matched (before ++ id :: after))
    (hn : (before ++ id :: after).Nodup) (hw : groups.Waiting before (id :: after) opened)
    (hc : (groups.lookup id).kind.isCloser) :
    ∃ opener rest, opened = opener :: rest ∧ groups.Linked opener id ∧
      groups.Waiting (before ++ [id]) after rest := by
  obtain ⟨opener, hp⟩ := h.partnered id (by simp) (.inr hc)
  obtain ⟨hlink, hlt⟩ := h.of_closer (by simp) hc hp
  have hbefore := mem_before_of_idxOf_lt hn (h.symmetric id (by simp) opener hp).1 hlt
  have hopened : opener ∈ opened :=
    (hw.mem_iff opener).mpr ⟨hbefore, hlink.isOpener, id, by simp, hlink.toCloser⟩
  cases opened with
  | nil => cases hopened
  | cons top rest =>
    -- Another opener on top would have its closer behind this one, and the pairs would cross.
    have htop : top = opener := by
      by_contra hne
      obtain ⟨htop, hto, closer, -, hpt⟩ := (hw.mem_iff top).mp (by simp)
      have hother : (groups.lookup id).partner ≠ some top := fun he =>
        hne (Option.some.inj (he.symm.trans hp))
      obtain ⟨-, -, closer', hafter, hpt'⟩ := h.waiting_next hw (List.mem_cons_self ..) hother
      obtain rfl : closer = closer' := Option.some.inj (hpt.symm.trans hpt')
      have hrest : opener ∈ rest := (List.mem_cons.mp hopened).resolve_left (Ne.symm hne)
      have hsorted := (List.pairwise_cons.mp hw.sorted).1 opener hrest
      rcases h.noncrossing opener (by simp [hbefore]) top (by simp [htop]) id closer hlink.isOpener
        hlink.toCloser hto hpt hsorted with hcross | hcross
      · exact Nat.lt_asymm hcross (idxOf_lt_of_mem_before hn htop)
      · exact Nat.lt_asymm hcross (idxOf_lt_of_mem_after hn hafter)
    subst htop
    obtain ⟨hfirst, hsorted⟩ := List.pairwise_cons.mp hw.sorted
    refine ⟨top, rest, rfl, hlink, fun other => ⟨fun hm => ?_, ?_⟩, ?_⟩
    · refine h.waiting_next hw (List.mem_cons_of_mem _ hm) fun he => ?_
      obtain rfl : top = other := Option.some.inj (hp.symm.trans he)
      exact Nat.lt_irrefl _ (hfirst top hm)
    · rintro ⟨hm, hother, closer, hafter, hpo⟩
      have hid : id ∉ after := (List.nodup_cons.mp (List.nodup_append.mp hn).2.1).1
      rcases List.mem_append.mp hm with hm | hm
      · have hmem := (hw.mem_iff other).mpr
          ⟨hm, hother, closer, List.mem_cons_of_mem _ hafter, hpo⟩
        refine (List.mem_cons.mp hmem).resolve_left ?_
        rintro rfl
        obtain rfl : id = closer := Option.some.inj (hlink.toCloser.symm.trans hpo)
        exact hid hafter
      · obtain rfl := List.mem_singleton.mp hm
        rw [GroupKind.not_isOpener_of_isCloser hc] at hother
        cases hother
    · rwa [List.append_assoc]

theorem waiting_other (h : groups.Matched (before ++ id :: after))
    (hw : groups.Waiting before (id :: after) opened) (ho : ¬(groups.lookup id).kind.isOpener)
    (hc : ¬(groups.lookup id).kind.isCloser) : groups.Waiting (before ++ [id]) after opened := by
  refine ⟨fun other => ⟨fun hm => ?_, ?_⟩, ?_⟩
  · refine h.waiting_next hw hm ?_
    rw [h.unpaired id (by simp) ho hc]
    exact nofun
  · rintro ⟨hm, hother, closer, hafter, hpo⟩
    rcases List.mem_append.mp hm with hm | hm
    · exact (hw.mem_iff other).mpr ⟨hm, hother, closer, List.mem_cons_of_mem _ hafter, hpo⟩
    · exact absurd (List.mem_singleton.mp hm ▸ hother) ho
  · rw [List.append_assoc]
    exact hw.sorted

/-- The groups of a matching nest. -/
theorem nest_eq (h : groups.Matched (before ++ after)) (hn : (before ++ after).Nodup)
    (hw : groups.Waiting before after opened) :
    nest .right opened (after.filterMap (memberMark groups)) = some [] := by
  induction after generalizing before opened with
  | nil =>
    cases opened with
    | nil => rfl
    | cons id opened =>
      obtain ⟨-, -, closer, hc, -⟩ := (hw.mem_iff id).mp (by simp)
      cases hc
  | cons id after ih =>
    have happend : before ++ id :: after = before ++ [id] ++ after := by simp
    have hnext : ∀ {opened}, groups.Waiting (before ++ [id]) after opened →
        nest .right opened (after.filterMap (memberMark groups)) = some [] :=
      fun hw => ih (happend ▸ h) (happend ▸ hn) hw
    by_cases ho : (groups.lookup id).kind.isOpener
    · rw [List.filterMap_cons_some (memberMark_opener ho)]
      exact (nest_entry .right opened id _).trans (hnext (h.waiting_opener hn hw ho))
    · by_cases hc : (groups.lookup id).kind.isCloser
      · obtain ⟨opener, rest, rfl, hlink, hrest⟩ := h.waiting_closer hn hw hc
        rw [List.filterMap_cons_some (memberMark_closer hlink)]
        exact (nest_exit .right rest opener _).trans (hnext hrest)
      · rw [List.filterMap_cons_none (memberMark_other ho hc)]
        exact hnext (h.waiting_other hw ho hc)

theorem nested (h : groups.Matched ids) (hn : ids.Nodup) : groups.Nested ids where
  nodup := hn
  linked := fun id hid hc => by
    obtain ⟨opener, hp⟩ := h.partnered id hid (.inr hc)
    exact ⟨opener, (h.of_closer hid hc hp).1⟩
  nested := by
    have hw : groups.Waiting [] ids [] := ⟨fun id => by simp, .nil⟩
    exact nest_eq (show groups.Matched ([] ++ ids) from h) hn hw
  unpaired := h.unpaired

end Groups.Matched

end

/-- A stream can be paired if and only if its openers and closers are balanced. Paired it is the
one stream with the same items and the same groups but for the partners of its openers and
closers, in which these are a matching without crossings. Otherwise the fault is that of the first
closer where nothing is open, or else of the last opener that is left open. -/
theorem pairGroups_matches {stream : TemplateStream} (hs : stream.Sound)
    (hu : ∀ id ∈ groupIds stream.items, (stream.groups.lookup id).partner = none) :
    ((pairGroups stream).isOk ↔ GroupKind.Balanced stream.kinds) ∧
      (∀ paired, pairGroups stream = .ok paired ↔ paired.items = stream.items ∧
        stream.groups.Repaired paired.groups (groupIds stream.items) ∧
          paired.groups.Matched (groupIds stream.items)) ∧
      ∀ fault, pairGroups stream = .error fault →
        (∃ id, stream.StrayAt id ∧ (∀ other, stream.StrayAt other → other = id) ∧
          fault = (stream.groups.lookup id).strayFault) ∨
        (∀ id, ¬stream.StrayAt id) ∧
          ∃ id, stream.LastOpen id ∧ (∀ other, stream.LastOpen other → other = id) ∧
            fault = stream.groups.openFault id := by
  refine ⟨TemplateStream.pairGroups_isOk_iff, fun paired => ?_, fun fault h => ?_⟩
  · rw [pairGroups_iff hs]
    constructor
    · rintro ⟨hitems, hp, htable⟩
      refine ⟨hitems, htable, ?_⟩
      rw [← hitems] at htable hu ⊢
      refine Groups.Nested.matched ⟨hp.nodup, hp.linked, ?_, fun id hid ho hc => ?_⟩
      · rw [← pairMarks_eq]
        exact hp.nested
      · rw [htable.kind] at ho hc
        rw [htable.outside id fun _ => ⟨ho, hc⟩]
        exact hu id hid
    · rintro ⟨hitems, htable, hm⟩
      rw [← hitems] at hm htable ⊢
      have hnested := hm.nested (hitems ▸ hs.nodup)
      refine ⟨hitems.symm ▸ hitems, ⟨hnested.nodup, hnested.linked, ?_⟩, htable⟩
      rw [pairMarks_eq]
      exact hnested.nested
  · obtain ⟨id, hstray, hf⟩ | ⟨hno, id, hopen, hf⟩ := TemplateStream.pairGroups_fault h
    · exact .inl ⟨id, hstray, fun _ => hstray.eq, hf⟩
    · exact .inr ⟨hno, id, hopen, fun _ => hopen.eq, hf⟩

def conditionInLoop : TemplateStream where
  items := [.group 0, .group 1, .group 2, .group 3, .group 4]
  groups := #[⟨[], .forEach, ⟨0, 1⟩, .stay, .left, true, none⟩,
    ⟨[], .ifTrue, ⟨1, 2⟩, .stay, .left, true, none⟩,
    ⟨[], .placeholder, ⟨2, 3⟩, .stay, .both, false, none⟩,
    ⟨[], .finish, ⟨3, 4⟩, .stay, .right, true, none⟩,
    ⟨[], .finish, ⟨4, 5⟩, .stay, .right, true, none⟩]

theorem pairGroups_matches_conditionInLoop :
    conditionInLoop.Sound ∧
      (∀ id ∈ groupIds conditionInLoop.items, (conditionInLoop.groups.lookup id).partner = none) ∧
      ∃ paired, pairGroups conditionInLoop = .ok paired ∧
        paired.groups.Matched (groupIds conditionInLoop.items) ∧
        GroupKind.Balanced conditionInLoop.kinds ∧
        paired.groups.toList.map Group.partner = [some 4, some 3, none, some 1, some 0] := by
  have hs : conditionInLoop.Sound := ⟨by decide, by decide⟩
  have hu : ∀ id ∈ groupIds conditionInLoop.items,
      (conditionInLoop.groups.lookup id).partner = none := by decide
  obtain ⟨hok, hiff, -⟩ := pairGroups_matches hs hu
  exact ⟨hs, hu, _, rfl, ((hiff _).mp rfl).2.2, hok.mp rfl, rfl⟩

end DocTemplate
