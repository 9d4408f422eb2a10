import DocTemplate.Proofs.Nesting

namespace DocTemplate

namespace Groups

variable {groups : Groups}

theorem lookup_modify (groups : Groups) (i j : GroupId) (f : Group → Group) :
    lookup (groups.modify i f) j =
      if i = j ∧ j < groups.size then f (groups.lookup j) else groups.lookup j := by
  unfold lookup
  rw [Array.getElem?_modify]
  by_cases hi : i = j
  · by_cases hj : j < groups.size
    · simp [hi, hj]
    · simp [hi, hj]
  · simp [hi]

theorem ext_lookup {result : Groups} (hs : result.size = groups.size)
    (h : ∀ id, result.lookup id = groups.lookup id) : result = groups := by
  apply Array.ext hs
  intro i hr hg
  have hi := h i
  simpa [lookup, Array.getElem?_eq_getElem hr, Array.getElem?_eq_getElem hg] using hi

@[simp] theorem size_link (groups : Groups) (a b : GroupId) :
    (groups.link a b).size = groups.size := by
  simp [link]

theorem lookup_link (groups : Groups) (a b j : GroupId) :
    (groups.link a b).lookup j =
      if b = j ∧ j < groups.size then { groups.lookup j with partner := some a }
      else if a = j ∧ j < groups.size then { groups.lookup j with partner := some b }
      else groups.lookup j := by
  simp only [link, lookup_modify, Array.size_modify]
  split
  · split <;> rfl
  · rfl

theorem lookup_link_of_ne {a b j : GroupId} (ha : j ≠ a) (hb : j ≠ b) :
    (groups.link a b).lookup j = groups.lookup j := by
  simp [lookup_link, Ne.symm ha, Ne.symm hb]

@[simp] theorem size_setTarget (groups : Groups) (id : GroupId) (target : ExpansionTarget) :
    (groups.setTarget id target).size = groups.size := by
  simp [setTarget]

theorem lookup_setTarget (groups : Groups) (id j : GroupId) (target : ExpansionTarget) :
    (groups.setTarget id target).lookup j =
      if id = j ∧ j < groups.size then { groups.lookup j with target } else groups.lookup j :=
  lookup_modify groups id j _

theorem lookup_setTarget_of_ne {id j : GroupId} (h : j ≠ id) (target : ExpansionTarget) :
    (groups.setTarget id target).lookup j = groups.lookup j := by
  simp [lookup_setTarget, Ne.symm h]

@[simp] theorem kind_setTarget (groups : Groups) (id j : GroupId) (target : ExpansionTarget) :
    ((groups.setTarget id target).lookup j).kind = (groups.lookup j).kind := by
  rw [lookup_setTarget]
  split <;> rfl

@[simp] theorem partner_setTarget (groups : Groups) (id j : GroupId) (target : ExpansionTarget) :
    ((groups.setTarget id target).lookup j).partner = (groups.lookup j).partner := by
  rw [lookup_setTarget]
  split <;> rfl

end Groups

theorem GroupKind.not_isCloser_of_isOpener {kind : GroupKind} (h : kind.isOpener) :
    kind.isCloser = false := by
  cases kind <;> simp_all [GroupKind.isOpener, GroupKind.isCloser]

def memberMark (groups : Groups) (id : GroupId) : Option (GroupId × TagPart) :=
  let g := groups.lookup id
  if g.kind.isOpener then some (id, .opening)
  else if g.kind.isCloser then g.partner.map (·, .closing)
  else none

def pairMark (groups : Groups) (item : StreamItem) : Option (GroupId × TagPart) :=
  item.group?.bind (memberMark groups)

def pairMarks (groups : Groups) (items : List StreamItem) : List (GroupId × TagPart) :=
  items.filterMap (pairMark groups)

structure Groups.Linked (groups : Groups) (opener closer : GroupId) : Prop where
  isOpener : (groups.lookup opener).kind.isOpener
  isCloser : (groups.lookup closer).kind.isCloser
  toCloser : (groups.lookup opener).partner = some closer
  toOpener : (groups.lookup closer).partner = some opener

theorem Groups.Linked.ne {groups : Groups} {opener closer opener' closer' : GroupId}
    (h : groups.Linked opener closer) (h' : groups.Linked opener' closer') : opener ≠ closer' := by
  rintro rfl
  have hc := h'.isCloser
  rw [GroupKind.not_isCloser_of_isOpener h.isOpener] at hc
  cases hc

namespace TemplateStream

/-- Each group of the table stands in the stream at most once, and no other group does. -/
structure Sound (stream : TemplateStream) : Prop where
  nodup : (groupIds stream.items).Nodup
  inTable : ∀ id ∈ groupIds stream.items, id < stream.groups.size

structure Paired (stream : TemplateStream) : Prop where
  nodup : (groupIds stream.items).Nodup
  linked : ∀ id ∈ groupIds stream.items, (stream.groups.lookup id).kind.isCloser →
    ∃ opener, stream.groups.Linked opener id
  nested : nest .right [] (pairMarks stream.groups stream.items) = some []

end TemplateStream

theorem pairMarks_eq (groups : Groups) (items : List StreamItem) :
    pairMarks groups items = (groupIds items).filterMap (memberMark groups) := by
  rw [groupIds, List.filterMap_filterMap]
  rfl

theorem memberMark_congr {groups groups' : Groups}
    (hk : ∀ id, (groups'.lookup id).kind = (groups.lookup id).kind)
    (hp : ∀ id, (groups'.lookup id).partner = (groups.lookup id).partner) :
    memberMark groups' = memberMark groups := by
  funext id
  simp [memberMark, hk, hp]

theorem memberMark_opener {groups : Groups} {id : GroupId}
    (h : (groups.lookup id).kind.isOpener) : memberMark groups id = some (id, .opening) := by
  simp [memberMark, h]

theorem memberMark_closer {groups : Groups} {opener id : GroupId} (h : groups.Linked opener id) :
    memberMark groups id = some (opener, .closing) := by
  have hk : ¬ (groups.lookup id).kind.isOpener := fun ho => by
    have hc := h.isCloser
    simp [GroupKind.not_isCloser_of_isOpener ho] at hc
  simp [memberMark, hk, h.isCloser, h.toOpener]

theorem memberMark_other {groups : Groups} {id : GroupId}
    (ho : ¬ (groups.lookup id).kind.isOpener) (hc : ¬ (groups.lookup id).kind.isCloser) :
    memberMark groups id = none := by
  simp [memberMark, ho, hc]

section

variable {groups result : Groups} {opened ids : List GroupId} {id opener : GroupId}

theorem pairFrom_opener (h : (groups.lookup id).kind.isOpener) :
    pairFrom groups opened (id :: ids) = pairFrom groups (id :: opened) ids := by
  simp [pairFrom, h]

theorem pairFrom_closer (h : (groups.lookup id).kind.isCloser) :
    pairFrom groups (opener :: opened) (id :: ids) =
      pairFrom (groups.link opener id) opened ids := by
  have ho : ¬ (groups.lookup id).kind.isOpener := fun ho => by
    simp [GroupKind.not_isCloser_of_isOpener ho] at h
  simp [pairFrom, h, ho]

theorem pairFrom_closer_nil (h : (groups.lookup id).kind.isCloser) :
    pairFrom groups [] (id :: ids) = (groups, some (groups.lookup id).strayFault) := by
  have ho : ¬ (groups.lookup id).kind.isOpener := fun ho => by
    simp [GroupKind.not_isCloser_of_isOpener ho] at h
  simp [pairFrom, h, ho]

theorem pairFrom_other (ho : ¬ (groups.lookup id).kind.isOpener)
    (hc : ¬ (groups.lookup id).kind.isCloser) :
    pairFrom groups opened (id :: ids) = pairFrom groups opened ids := by
  simp [pairFrom, ho, hc]

structure Groups.Repaired (groups result : Groups) (ids : List GroupId) : Prop where
  size : result.size = groups.size
  same : ∀ id, ∃ partner, result.lookup id = { groups.lookup id with partner }
  outside : ∀ id, (id ∈ ids → ¬ (groups.lookup id).kind.isOpener ∧
    ¬ (groups.lookup id).kind.isCloser) → result.lookup id = groups.lookup id

namespace Groups.Repaired

theorem kind (h : groups.Repaired result ids) (id : GroupId) :
    (result.lookup id).kind = (groups.lookup id).kind := by
  obtain ⟨partner, hp⟩ := h.same id
  rw [hp]

theorem target (h : groups.Repaired result ids) (id : GroupId) :
    (result.lookup id).target = (groups.lookup id).target := by
  obtain ⟨partner, hp⟩ := h.same id
  rw [hp]

theorem refl (groups : Groups) (ids : List GroupId) : groups.Repaired groups ids :=
  ⟨rfl, fun _ => ⟨_, rfl⟩, fun _ _ => rfl⟩

theorem eq (h : groups.Repaired result []) : result = groups :=
  Groups.ext_lookup h.size fun id => h.outside id (by simp)

theorem mono {ids' : List GroupId} (h : groups.Repaired result ids)
    (hs : ∀ id ∈ ids, (groups.lookup id).kind.isOpener ∨ (groups.lookup id).kind.isCloser →
      id ∈ ids') : groups.Repaired result ids' := by
  refine ⟨h.size, h.same, fun id ho => h.outside id fun hi => ?_⟩
  exact ⟨fun hk => (ho (hs id hi (.inl hk))).1 hk, fun hk => (ho (hs id hi (.inr hk))).2 hk⟩

theorem link_iff (result : Groups) (ho : opener < groups.size) (hi : id < groups.size)
    (hne : opener ≠ id) (hop : (groups.lookup opener).kind.isOpener)
    (hcl : (groups.lookup id).kind.isCloser) (hno : opener ∉ ids) (hni : id ∉ ids) :
    (groups.link opener id).Repaired result ids ↔
      groups.Repaired result (opener :: id :: ids) ∧ result.Linked opener id := by
  have hlo : (groups.link opener id).lookup opener =
      { groups.lookup opener with partner := some id } := by
    simp [Groups.lookup_link, hne.symm, ho]
  have hli : (groups.link opener id).lookup id =
      { groups.lookup id with partner := some opener } := by
    simp [Groups.lookup_link, hi]
  constructor
  · intro h
    have hro := (h.outside opener fun hm => absurd hm hno).trans hlo
    have hri := (h.outside id fun hm => absurd hm hni).trans hli
    refine ⟨⟨by simpa using h.size, fun j => ?_, fun j hj => ?_⟩, ?_⟩
    · obtain ⟨partner, hp⟩ := h.same j
      refine ⟨partner, ?_⟩
      rw [hp, Groups.lookup_link]
      split
      · rfl
      · split <;> rfl
    · have hjo : j ≠ opener := by
        rintro rfl
        exact (hj (by simp)).1 hop
      have hji : j ≠ id := by
        rintro rfl
        exact (hj (by simp)).2 hcl
      have hj' : (groups.link opener id).lookup j = groups.lookup j :=
        Groups.lookup_link_of_ne hjo hji
      rw [h.outside j fun hm => ?_, hj']
      rw [hj']
      exact hj (by simp [hm])
    · exact ⟨by rw [hro]; exact hop, by rw [hri]; exact hcl, by rw [hro], by rw [hri]⟩
  · rintro ⟨h, hl⟩
    refine ⟨by simpa using h.size, fun j => ?_, fun j hj => ?_⟩
    · obtain ⟨partner, hp⟩ := h.same j
      refine ⟨partner, ?_⟩
      rw [hp, Groups.lookup_link]
      split
      · rfl
      · split <;> rfl
    · by_cases hjo : j = opener
      · subst hjo
        obtain ⟨partner, hp⟩ := h.same j
        have hpp := hl.toCloser
        rw [hp] at hpp ⊢
        rw [hlo, ← hpp]
      · by_cases hji : j = id
        · subst hji
          obtain ⟨partner, hp⟩ := h.same j
          have hpp := hl.toOpener
          rw [hp] at hpp ⊢
          rw [hli, ← hpp]
        · rw [Groups.lookup_link_of_ne hjo hji] at hj ⊢
          exact h.outside j fun hm => hj (by simpa [hjo, hji] using hm)

end Groups.Repaired

/-- A table in which the given groups are paired, as the pairs among them nest. -/
structure PairsUp (groups result : Groups) (opened ids : List GroupId) : Prop where
  table : groups.Repaired result (opened ++ ids)
  linked : ∀ id ∈ ids, (result.lookup id).kind.isCloser → ∃ opener, result.Linked opener id
  nested : nest .right opened (ids.filterMap (memberMark result)) = some []

namespace PairsUp

theorem opener_iff (ho : (groups.lookup id).kind.isOpener) :
    PairsUp groups result opened (id :: ids) ↔ PairsUp groups result (id :: opened) ids := by
  have hk : ∀ {js : List GroupId}, groups.Repaired result js →
      memberMark result id = some (id, .opening) := fun h =>
    memberMark_opener (by rw [h.kind]; exact ho)
  constructor
  · intro h
    refine ⟨h.table.mono fun j hj _ => List.perm_middle.mem_iff.mp hj,
      fun j hj => h.linked j (List.mem_cons_of_mem _ hj), ?_⟩
    have hn := h.nested
    rw [List.filterMap_cons_some (hk h.table)] at hn
    exact (nest_entry .right opened id _).symm.trans hn
  · intro h
    refine ⟨h.table.mono fun j hj _ => List.perm_middle.mem_iff.mpr hj, ?_, ?_⟩
    · intro j hj hc
      rcases List.mem_cons.mp hj with rfl | hj
      · rw [h.table.kind, GroupKind.not_isCloser_of_isOpener ho] at hc
        cases hc
      · exact h.linked j hj hc
    · rw [List.filterMap_cons_some (hk h.table)]
      exact (nest_entry .right opened id _).trans h.nested

theorem other_iff (ho : ¬ (groups.lookup id).kind.isOpener)
    (hc : ¬ (groups.lookup id).kind.isCloser) :
    PairsUp groups result opened (id :: ids) ↔ PairsUp groups result opened ids := by
  have hk : ∀ {js : List GroupId}, groups.Repaired result js → memberMark result id = none :=
    fun h => memberMark_other (by rw [h.kind]; exact ho) (by rw [h.kind]; exact hc)
  constructor
  · intro h
    refine ⟨h.table.mono ?_, fun j hj => h.linked j (List.mem_cons_of_mem _ hj), ?_⟩
    · intro j hj hm
      rcases List.mem_append.mp hj with hj | hj
      · simp [hj]
      · rcases List.mem_cons.mp hj with rfl | hj
        · exact absurd hm (not_or.mpr ⟨ho, hc⟩)
        · simp [hj]
    · have hn := h.nested
      rw [List.filterMap_cons_none (hk h.table)] at hn
      exact hn
  · intro h
    refine ⟨h.table.mono ?_, ?_, ?_⟩
    · intro j hj _
      rcases List.mem_append.mp hj with hj | hj <;> simp [hj]
    · intro j hj hj'
      rcases List.mem_cons.mp hj with rfl | hj
      · rw [h.table.kind] at hj'
        exact absurd hj' hc
      · exact h.linked j hj hj'
    · rw [List.filterMap_cons_none (hk h.table)]
      exact h.nested

theorem closer_iff (hop : (groups.lookup opener).kind.isOpener)
    (hcl : (groups.lookup id).kind.isCloser) (hn : (opener :: opened ++ id :: ids).Nodup)
    (hos : opener < groups.size) (his : id < groups.size) :
    PairsUp groups result (opener :: opened) (id :: ids) ↔
      PairsUp (groups.link opener id) result opened ids := by
  have hni : id ∉ opener :: opened ++ ids :=
    (List.nodup_cons.mp (List.perm_middle.nodup_iff.mp hn)).1
  have hno : opener ∉ opened ++ ids := fun hm =>
    (List.nodup_cons.mp hn).1 (by rcases List.mem_append.mp hm with hm | hm <;> simp [hm])
  have hne : opener ≠ id := fun he => hni (by simp [he])
  have hlink := Groups.Repaired.link_iff result hos his hne hop hcl hno
    fun hm => hni (by simp [List.mem_append.mp hm])
  have hmem : ∀ j, j ∈ opener :: opened ++ id :: ids ↔ j ∈ opener :: id :: (opened ++ ids) := by
    intro j
    rw [List.cons_append, List.mem_cons, List.perm_middle.mem_iff]
    simp only [List.mem_cons]
  constructor
  · intro h
    obtain ⟨opener', hl⟩ := h.linked id (by simp) (by rw [h.table.kind]; exact hcl)
    have hn := h.nested
    rw [List.filterMap_cons_some (memberMark_closer hl)] at hn
    obtain ⟨rest, he, hr⟩ := eq_cons_of_nest_exit hn
    obtain ⟨rfl, rfl⟩ := List.cons.inj he
    exact ⟨hlink.mpr ⟨h.table.mono fun j hj _ => (hmem j).mp hj, hl⟩,
      fun j hj => h.linked j (List.mem_cons_of_mem _ hj), hr⟩
  · intro h
    obtain ⟨ht, hl⟩ := hlink.mp h.table
    refine ⟨ht.mono fun j hj _ => (hmem j).mpr hj, ?_, ?_⟩
    · intro j hj hj'
      rcases List.mem_cons.mp hj with rfl | hj
      · exact ⟨opener, hl⟩
      · exact h.linked j hj hj'
    · rw [List.filterMap_cons_some (memberMark_closer hl)]
      exact (nest_exit .right opened opener _).trans h.nested

end PairsUp

theorem pairFrom_iff (hn : (opened ++ ids).Nodup) (ht : ∀ id ∈ opened ++ ids, id < groups.size)
    (ho : ∀ id ∈ opened, (groups.lookup id).kind.isOpener) :
    pairFrom groups opened ids = (result, none) ↔ PairsUp groups result opened ids := by
  -- pairing links groups as it goes, so the table changes along with the openers that wait
  induction ids generalizing groups opened with
  | nil =>
    cases opened with
    | nil =>
      constructor
      · intro h
        obtain rfl : groups = result := by simpa [pairFrom] using h
        exact ⟨.refl _ _, by simp, rfl⟩
      · intro h
        rw [h.table.eq]
        rfl
    | cons opener opened =>
      constructor
      · intro h
        simp [pairFrom] at h
      · intro h
        have hn := h.nested
        simp at hn
  | cons id ids ih =>
    have hn' : (opened ++ ids).Nodup := (List.nodup_cons.mp (List.perm_middle.nodup_iff.mp hn)).2
    have ht' : ∀ j ∈ opened ++ ids, j < groups.size := fun j hj =>
      ht j (by rcases List.mem_append.mp hj with hj | hj <;> simp [hj])
    by_cases hop : (groups.lookup id).kind.isOpener
    · rw [pairFrom_opener hop, PairsUp.opener_iff hop]
      exact ih (List.perm_middle.nodup_iff.mp hn)
        (fun j hj => ht j (List.perm_middle.mem_iff.mpr hj)) (List.forall_mem_cons.mpr ⟨hop, ho⟩)
    · by_cases hcl : (groups.lookup id).kind.isCloser
      · cases opened with
        | nil =>
          rw [pairFrom_closer_nil hcl]
          constructor
          · intro h
            simp at h
          · intro h
            obtain ⟨opener, hl⟩ := h.linked id (by simp) (by rw [h.table.kind]; exact hcl)
            have hn := h.nested
            rw [List.filterMap_cons_some (memberMark_closer hl)] at hn
            exact absurd ((nest_exit_nil .right opener _).symm.trans hn) (by simp)
        | cons opener opened =>
          have hni := (List.nodup_cons.mp (List.perm_middle.nodup_iff.mp hn)).1
          rw [pairFrom_closer hcl, PairsUp.closer_iff (ho opener (by simp)) hcl hn
            (ht opener (by simp)) (ht id (by simp))]
          refine ih (List.nodup_cons.mp hn').2 ?_ ?_
          · intro j hj
            rw [Groups.size_link]
            exact ht' j (List.mem_cons_of_mem _ hj)
          · intro j hj
            have hjo : j ≠ opener := fun he => (List.nodup_cons.mp hn').1 (by simp [← he, hj])
            have hji : j ≠ id := fun he => hni (by simp [← he, hj])
            rw [Groups.lookup_link_of_ne hjo hji]
            exact ho j (List.mem_cons_of_mem _ hj)
      · rw [pairFrom_other hop hcl, PairsUp.other_iff hop hcl]
        exact ih hn' ht' ho

end

theorem pairFrom_error {groups result : Groups} {opened ids : List GroupId}
    {fault : StructureFault} (h : pairFrom groups opened ids = (result, some fault)) :
    fault.cause = .strayEnd ∨ ∃ keyword, fault.cause = .missingEnd keyword := by
  induction ids generalizing groups opened with
  | nil =>
    cases opened with
    | nil => simp [pairFrom] at h
    | cons opener opened =>
      obtain ⟨-, rfl⟩ : groups = result ∧ _ = fault := by simpa [pairFrom] using h
      exact .inr ⟨_, rfl⟩
  | cons id ids ih =>
    by_cases hop : (groups.lookup id).kind.isOpener
    · rw [pairFrom_opener hop] at h
      exact ih h
    · by_cases hcl : (groups.lookup id).kind.isCloser
      · cases opened with
        | nil =>
          rw [pairFrom_closer_nil hcl] at h
          obtain ⟨-, rfl⟩ : groups = result ∧ _ = fault := by simpa using h
          exact .inl rfl
        | cons opener opened =>
          rw [pairFrom_closer hcl] at h
          exact ih h
      · rw [pairFrom_other hop hcl] at h
        exact ih h

theorem pairGroups_error {stream : TemplateStream} {fault : StructureFault}
    (h : pairGroups stream = .error fault) :
    fault.cause = .strayEnd ∨ ∃ keyword, fault.cause = .missingEnd keyword := by
  unfold pairGroups at h
  split at h
  case h_1 => cases h
  case h_2 groups fault' he =>
    obtain rfl := Except.error.inj h
    exact pairFrom_error he

/-- Pairing succeeds with the one table in which the pairs of the stream nest and are linked. -/
theorem pairGroups_iff {stream paired : TemplateStream} (hs : stream.Sound) :
    pairGroups stream = .ok paired ↔ paired.items = stream.items ∧ paired.Paired ∧
      stream.groups.Repaired paired.groups (groupIds stream.items) := by
  have hiff : ∀ groups, pairFrom stream.groups [] (groupIds stream.items) = (groups, none) ↔
      PairsUp stream.groups groups [] (groupIds stream.items) := fun groups =>
    pairFrom_iff (by simpa using hs.nodup) (by simpa using hs.inTable) (by simp)
  constructor
  · intro h
    unfold pairGroups at h
    split at h
    case h_1 groups he =>
      obtain rfl := Except.ok.inj h
      have hp := (hiff groups).mp he
      exact ⟨rfl, ⟨hs.nodup, hp.linked, by rw [pairMarks_eq]; exact hp.nested⟩, hp.table⟩
    case h_2 => cases h
  · obtain ⟨items, groups⟩ := paired
    rintro ⟨rfl, hp, ht⟩
    have hn := hp.nested
    rw [pairMarks_eq] at hn
    rw [pairGroups, (hiff groups).mpr ⟨ht, hp.linked, hn⟩]

end DocTemplate
