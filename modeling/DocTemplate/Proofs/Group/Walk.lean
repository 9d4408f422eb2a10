import DocTemplate.Proofs.Group.Pairing
import DocTemplate.Proofs.Outcome

namespace DocTemplate

def tagsOf (items : List StreamItem) : List (String × TagPart) := items.filterMap StreamItem.tag?

@[simp] theorem tagsOf_nil : tagsOf [] = [] := rfl

@[simp] theorem tagsOf_append (xs ys : List StreamItem) :
    tagsOf (xs ++ ys) = tagsOf xs ++ tagsOf ys := List.filterMap_append

@[simp] theorem tagsOf_group_cons (id : GroupId) (items : List StreamItem) :
    tagsOf (.group id :: items) = tagsOf items := rfl

@[simp] theorem tagsOf_reverse (items : List StreamItem) :
    tagsOf items.reverse = (tagsOf items).reverse := List.filterMap_reverse

theorem pairMarks_append (groups : Groups) (xs ys : List StreamItem) :
    pairMarks groups (xs ++ ys) = pairMarks groups xs ++ pairMarks groups ys :=
  List.filterMap_append

section

variable {α : Type} [DecidableEq α] {side : Side}

omit [DecidableEq α] in
theorem entered_append (depth : Nat) (xs ys : List (α × TagPart)) :
    entered side depth (xs ++ ys) = entered side (entered side depth xs) ys := by
  induction xs generalizing depth with
  | nil => rfl
  | cons mark xs ih =>
    obtain ⟨label, part⟩ := mark
    rcases side.part_cases part with rfl | rfl | rfl <;> simp [entered, ih]

theorem exits_of_nest {new final : List α} {xs : List (α × TagPart)}
    (h : nest side new xs = some final) (depth : Nat) :
    exits side (new.length + depth) xs = [] ∧
      entered side (new.length + depth) xs = final.length + depth := by
  induction xs generalizing new with
  | nil =>
    obtain rfl : new = final := by simpa using h
    exact ⟨rfl, rfl⟩
  | cons mark xs ih =>
    obtain ⟨label, part⟩ := mark
    rcases side.part_cases part with rfl | rfl | rfl
    · rw [nest_entry] at h
      have he := ih h
      rw [List.length_cons, Nat.add_right_comm] at he
      simpa [exits, entered] using he
    · obtain ⟨rest, rfl, hr⟩ := eq_cons_of_nest_exit h
      have he := ih hr
      rw [List.length_cons, Nat.add_right_comm]
      simpa [exits, entered] using he
    · rw [nest_selfClosing] at h
      simpa [exits, entered] using ih h

theorem exits_of_closed {xs : List (α × TagPart)} (h : nest side [] xs = some [])
    (depth : Nat) : exits side depth xs = [] ∧ entered side depth xs = depth := by
  simpa using exits_of_nest h depth

end

section

variable {groups : Groups} {moving : Group} {side : Side} {target : Option String} {name : String}
  {id last : GroupId} {depth : Nat} {item : StreamItem} {items rest : List StreamItem}

attribute [local simp] walk

theorem Side.not_entersPair_of_leavesPair {kind : GroupKind} (h : side.leavesPair kind) :
    side.entersPair kind = false := by
  cases side <;> cases kind <;> simp_all [Side.leavesPair, Side.entersPair, GroupKind.isOpener,
    GroupKind.isCloser]

theorem walk_around (h : side.leavesPair (groups.lookup id).kind) :
    walk groups moving side target none depth (.group id :: items) = .ok 0 := by
  simp [h]

theorem walk_other (hl : ¬ side.leavesPair (groups.lookup id).kind)
    (he : ¬ side.entersPair (groups.lookup id).kind) :
    walk groups moving side (some name) none depth (.group id :: items) =
      (walk groups moving side (some name) none depth items).map (· + 1) := by
  simp [hl, he]

theorem walk_first (h : side.entersPair (groups.lookup id).kind)
    (hp : (groups.lookup id).partner = some last) :
    walk groups moving side (some name) none depth (.group id :: items) =
      (walk groups moving side (some name) (some last) depth items).map (· + 1) := by
  have hl : ¬ side.leavesPair (groups.lookup id).kind := fun hl => by
    simp [Side.not_entersPair_of_leavesPair hl] at h
  simp [hl, h, hp]

theorem walk_last : walk groups moving side target (some last) depth (.group last :: items) =
    (walk groups moving side target none depth items).map (· + 1) := by
  simp

theorem walk_within (h : id ≠ last) :
    walk groups moving side target (some last) depth (.group id :: items) =
      (walk groups moving side target (some last) depth items).map (· + 1) := by
  simp [h]

theorem walk_plain (inside : Option GroupId) (hg : item.group? = none) (ht : item.tag? = none) :
    walk groups moving side target inside depth (item :: items) =
      (walk groups moving side target inside depth items).map (· + 1) := by
  cases item with
  | group id => simp [StreamItem.group?] at hg
  | raw | sentinel => cases inside <;> simp [ht]

theorem walk_selfClosing (inside : Option GroupId) (ht : item.tag? = some (name, .selfClosing)) :
    walk groups moving side target inside depth (item :: items) =
      (walk groups moving side target inside depth items).map (· + 1) := by
  cases item with
  | group | sentinel => simp [StreamItem.tag?] at ht
  | raw => cases inside <;> simp [ht]

theorem walk_entry (inside : Option GroupId) (ht : item.tag? = some (name, side.entry)) :
    walk groups moving side target inside depth (item :: items) =
      (walk groups moving side target inside (depth + 1) items).map (· + 1) := by
  cases item with
  | group | sentinel => simp [StreamItem.tag?] at ht
  | raw => cases inside <;> simp [ht, (Side.exit_ne_entry side).symm]

theorem walk_exit_succ (inside : Option GroupId) (ht : item.tag? = some (name, side.exit)) :
    walk groups moving side target inside (depth + 1) (item :: items) =
      (walk groups moving side target inside depth items).map (· + 1) := by
  cases item with
  | group | sentinel => simp [StreamItem.tag?] at ht
  | raw => cases inside <;> simp [ht]

theorem walk_exit_target (ht : item.tag? = some (name, side.exit)) :
    walk groups moving side (some name) none 0 (item :: items) = .ok 1 := by
  cases item with
  | group | sentinel => simp [StreamItem.tag?] at ht
  | raw => simp [ht]

theorem walk_exit_zero {label : String} (ht : item.tag? = some (label, side.exit))
    (h : target ≠ some label) :
    walk groups moving side target none 0 (item :: items) =
      (walk groups moving side target none 0 items).map (· + 1) := by
  cases item with
  | group | sentinel => simp [StreamItem.tag?] at ht
  | raw => simp [ht, h]

theorem walk_exit_straddling (ht : item.tag? = some (name, side.exit)) :
    walk groups moving side target (some last) 0 (item :: items) =
      .error (moving.fault (.straddling moving.keyword)) := by
  cases item with
  | group | sentinel => simp [StreamItem.tag?] at ht
  | raw => simp [ht]

end

def Groups.Unpaired (groups : Groups) (item : StreamItem) : Prop :=
  ∀ id, item = .group id → ¬ (groups.lookup id).kind.isOpener ∧ ¬ (groups.lookup id).kind.isCloser

/-- Items up to their end or to a member of a pair around them. `last` ends the pair of `first`. -/
inductive Way (groups : Groups) (side : Side) : List StreamItem → Prop where
  | nil : Way groups side []
  | around {id : GroupId} (items : List StreamItem)
      (leaves : side.leavesPair (groups.lookup id).kind) : Way groups side (.group id :: items)
  | item {item : StreamItem} {items : List StreamItem} (unpaired : groups.Unpaired item)
      (way : Way groups side items) : Way groups side (item :: items)
  | pair {first last : GroupId} {body items : List StreamItem}
      (enters : side.entersPair (groups.lookup first).kind)
      (partner : (groups.lookup first).partner = some last) (apart : .group last ∉ body)
      (closed : nest side [] (pairMarks groups (.group first :: body ++ [.group last])) = some [])
      (way : Way groups side items) :
      Way groups side (.group first :: body ++ .group last :: items)

section

variable {groups : Groups} {side : Side} {id : GroupId} {items : List StreamItem}

theorem Side.pair_cases (side : Side) (kind : GroupKind) :
    side.leavesPair kind ∨ side.entersPair kind ∨ (¬ kind.isOpener ∧ ¬ kind.isCloser) := by
  cases side <;> cases kind <;> simp [Side.leavesPair, Side.entersPair, GroupKind.isOpener,
    GroupKind.isCloser]

def Groups.LinkedAt (groups : Groups) (items : List StreamItem) : Prop :=
  ∀ id, .group id ∈ items → (groups.lookup id).kind.isCloser → ∃ opener, groups.Linked opener id

theorem memberMark_leaves
    (hl : (groups.lookup id).kind.isCloser → ∃ opener, groups.Linked opener id)
    (h : side.leavesPair (groups.lookup id).kind) :
    ∃ label, memberMark groups id = some (label, side.exit) := by
  cases side with
  | left => exact ⟨id, memberMark_opener h⟩
  | right =>
    obtain ⟨opener, ho⟩ := hl h
    exact ⟨opener, memberMark_closer ho⟩

theorem memberMark_eq_opening {label : GroupId}
    (h : memberMark groups id = some (label, .opening)) :
    label = id ∧ (groups.lookup id).kind.isOpener := by
  by_cases ho : (groups.lookup id).kind.isOpener
  · simp [memberMark_opener ho] at h
    exact ⟨h.symm, ho⟩
  · simp [memberMark, ho] at h

theorem memberMark_eq_closing {label : GroupId}
    (h : memberMark groups id = some (label, .closing)) :
    (groups.lookup id).kind.isCloser ∧ (groups.lookup id).partner = some label := by
  by_cases ho : (groups.lookup id).kind.isOpener
  · simp [memberMark_opener ho] at h
  · simpa [memberMark, ho] using h

def Groups.LinkedAlong (groups : Groups) (side : Side) (first last : GroupId) : Prop :=
  match side with
  | .left => groups.Linked last first
  | .right => groups.Linked first last

theorem Groups.LinkedAlong.partner {first last : GroupId} (h : groups.LinkedAlong side first last) :
    (groups.lookup first).partner = some last := by
  cases side with
  | left => exact h.toOpener
  | right => exact h.toCloser

theorem memberMark_enters
    (hl : (groups.lookup id).kind.isCloser → ∃ opener, groups.Linked opener id)
    (h : side.entersPair (groups.lookup id).kind) :
    ∃ label, memberMark groups id = some (label, side.entry) ∧
      ∀ last, ((groups.lookup last).kind.isCloser → ∃ opener, groups.Linked opener last) →
        memberMark groups last = some (label, side.exit) → groups.LinkedAlong side id last := by
  cases side with
  | left =>
    obtain ⟨opener, ho⟩ := hl h
    refine ⟨opener, memberMark_closer ho, fun last _ hlast => ?_⟩
    obtain ⟨rfl, -⟩ := memberMark_eq_opening hlast
    exact ho
  | right =>
    refine ⟨id, memberMark_opener h, fun last hl hlast => ?_⟩
    obtain ⟨hc, hp⟩ := memberMark_eq_closing hlast
    obtain ⟨opener, ho⟩ := hl hc
    obtain rfl : opener = id := Option.some.inj (ho.toOpener.symm.trans hp)
    exact ho

theorem pairMark_eq_some {item : StreamItem} {mark : GroupId × TagPart} :
    pairMark groups item = some mark ↔
      ∃ id, item = .group id ∧ memberMark groups id = some mark := by
  cases item <;> simp [pairMark, StreamItem.group?]

theorem unpaired_of_pairMark {item : StreamItem} (hl : groups.LinkedAt (item :: items))
    (h : pairMark groups item = none) : groups.Unpaired item := by
  rintro id rfl
  have hid : memberMark groups id = none := h
  refine ⟨fun ho => ?_, fun hc => ?_⟩
  · simp [memberMark_opener ho] at hid
  · obtain ⟨opener, ho⟩ := hl id (by simp) hc
    simp [memberMark_closer ho] at hid

theorem pairMark_unpaired {item : StreamItem} (h : groups.Unpaired item) :
    pairMark groups item = none := by
  cases item with
  | group id => exact memberMark_other (h id rfl).1 (h id rfl).2
  | raw | sentinel => rfl

theorem pairMarks_cons_none {item : StreamItem} (h : pairMark groups item = none) :
    pairMarks groups (item :: items) = pairMarks groups items :=
  List.filterMap_cons_none h

theorem pairMarks_cons_some {item : StreamItem} {mark : GroupId × TagPart}
    (h : pairMark groups item = some mark) :
    pairMarks groups (item :: items) = mark :: pairMarks groups items :=
  List.filterMap_cons_some h

theorem exists_of_pairMarks {ys zs : List (GroupId × TagPart)} {mark : GroupId × TagPart}
    (h : pairMarks groups items = ys ++ mark :: zs) :
    ∃ before id after, items = before ++ .group id :: after ∧ memberMark groups id = some mark ∧
      pairMarks groups before = ys ∧ pairMarks groups after = zs := by
  obtain ⟨before, rest, rfl, hy, hr⟩ := List.filterMap_eq_append_iff.mp h
  obtain ⟨plain, item, after, rfl, hp, hi, hz⟩ := List.filterMap_eq_cons_iff.mp hr
  obtain ⟨id, rfl, hid⟩ := pairMark_eq_some.mp hi
  refine ⟨before ++ plain, id, after, by simp, hid, ?_, hz⟩
  rw [pairMarks_append, pairMarks, hy, pairMarks, List.filterMap_eq_nil_iff.mpr hp, List.append_nil]

theorem way_of_nest {opened : List GroupId} (hn : (groupIds items).Nodup)
    (hl : groups.LinkedAt items) (h : nest side opened (pairMarks groups items) = some []) :
    Way groups side items := by
  -- a whole pair is taken off at once, so the induction is on the number of items
  induction hk : items.length using Nat.strongRecOn generalizing items opened with
  | ind k ih =>
    cases items with
    | nil => exact .nil
    | cons item items =>
      have hl' : groups.LinkedAt items := fun j hj => hl j (List.mem_cons_of_mem _ hj)
      cases hm : pairMark groups item with
      | none =>
        rw [pairMarks_cons_none hm] at h
        refine .item (unpaired_of_pairMark hl hm) (ih items.length (by simp [← hk]) ?_ hl' h rfl)
        exact hn.sublist ((List.sublist_cons_self item items).filterMap _)
      | some mark =>
        obtain ⟨id, rfl, hid⟩ := pairMark_eq_some.mp hm
        have hlid := hl id (by simp)
        rcases side.pair_cases (groups.lookup id).kind with hk' | hk' | ⟨ho, hc⟩
        · exact .around items hk'
        · obtain ⟨label, hlabel, hlast⟩ := memberMark_enters hlid hk'
          rw [pairMarks_cons_some hm, Option.some.inj (hid.symm.trans hlabel), nest_entry] at h
          obtain ⟨ys, zs, he, hy, hz⟩ := exists_exit [] h (by simp)
          obtain ⟨body, last, after, rfl, hmark, rfl, rfl⟩ := exists_of_pairMarks he
          have hpl := (hlast last (hl last (by simp)) hmark).partner
          have hna : (groupIds after).Nodup :=
            hn.sublist (((List.sublist_cons_self _ after).trans
              ((List.sublist_append_right body _).trans
                (List.sublist_cons_self _ _))).filterMap _)
          have hla : groups.LinkedAt after := fun j hj => hl' j (by simp [hj])
          refine .pair hk' hpl (fun hb => ?_) ?_
            (ih after.length (by rw [← hk]; simp; omega) hna hla hz rfl)
          · have hg : groupIds (.group id :: (body ++ .group last :: after)) =
                id :: (groupIds body ++ last :: groupIds after) := by
              simp [groupIds, StreamItem.group?]
            rw [hg] at hn
            have hb' : last ∈ groupIds body := List.mem_filterMap.mpr ⟨_, hb, rfl⟩
            exact (List.nodup_append.mp (List.nodup_cons.mp hn).2).2.2 last hb' last (by simp) rfl
          · have hm' : pairMark groups (.group last) = some (label, side.exit) := hmark
            rw [List.cons_append, pairMarks_cons_some hm, pairMarks_append,
              Option.some.inj (hid.symm.trans hlabel), nest_entry, nest_append, nest_of_closed hy,
              pairMarks_cons_some hm']
            simp [pairMarks]
        · simp [memberMark_other ho hc] at hid

end

section

variable {groups : Groups} {moving : Group} {side : Side} {name : String} {first last : GroupId}
  {depth n : Nat} {item : StreamItem} {body items : List StreamItem}

theorem tagsOf_cons (item : StreamItem) (items : List StreamItem) :
    tagsOf (item :: items) = tagsOf [item] ++ tagsOf items :=
  tagsOf_append [item] items

theorem tagsOf_plain (h : item.tag? = none) : tagsOf [item] = [] := List.filterMap_cons_none h

theorem tagsOf_tag {tag : String × TagPart} (h : item.tag? = some tag) : tagsOf [item] = [tag] :=
  List.filterMap_cons_some h

theorem StreamItem.group?_eq_none_of_tag {tag : String × TagPart} (h : item.tag? = some tag) :
    item.group? = none := by
  cases item with
  | group => simp [StreamItem.tag?] at h
  | raw | sentinel => rfl

theorem walk_item_inside (target : Option String) (items : List StreamItem)
    (h : item ≠ .group last) :
    exits side depth (tagsOf [item]) = [] ∧
        walk groups moving side target (some last) depth (item :: items) =
          (walk groups moving side target (some last) (entered side depth (tagsOf [item]))
            items).map (· + 1) ∨
      exits side depth (tagsOf [item]) ≠ [] ∧
        walk groups moving side target (some last) depth (item :: items) =
          .error (moving.fault (.straddling moving.keyword)) := by
  cases ht : item.tag? with
  | none =>
    rw [tagsOf_plain ht]
    refine .inl ⟨rfl, ?_⟩
    cases item with
    | group id => exact walk_within fun he => h (he ▸ rfl)
    | raw | sentinel => exact walk_plain (some last) rfl ht
  | some tag =>
    obtain ⟨label, part⟩ := tag
    rw [tagsOf_tag ht]
    rcases side.part_cases part with rfl | rfl | rfl
    · exact .inl ⟨by simp [exits], by simpa [entered] using walk_entry (some last) ht⟩
    · cases depth with
      | zero => exact .inr ⟨by simp [exits], walk_exit_straddling ht⟩
      | succ depth =>
        exact .inl ⟨by simp [exits], by simpa [entered] using walk_exit_succ (some last) ht⟩
    · exact .inl ⟨by simp [exits], by simpa [entered] using walk_selfClosing (some last) ht⟩

theorem walk_inside (target : Option String) (apart : .group last ∉ body)
    (h : exits side depth (tagsOf body) = []) :
    walk groups moving side target (some last) depth (body ++ .group last :: items) =
      (walk groups moving side target none (entered side depth (tagsOf body)) items).map
        (· + (body.length + 1)) := by
  induction body generalizing depth with
  | nil => exact walk_last
  | cons item body ih =>
    obtain ⟨hi, hb⟩ := not_or.mp (mt List.mem_cons.mpr apart)
    rw [tagsOf_cons item, exits_append, List.append_eq_nil_iff] at h
    rcases walk_item_inside target (body ++ .group last :: items) (Ne.symm hi) with
      ⟨-, hw⟩ | ⟨hne, -⟩
    · rw [List.cons_append, hw, ih hb h.2, tagsOf_cons item body, entered_append]
      simp only [map_map, Function.comp_def, List.length_cons, Nat.add_assoc]
    · exact absurd h.1 hne

theorem walk_inside_error (target : Option String) (apart : .group last ∉ body)
    (h : exits side depth (tagsOf body) ≠ []) :
    walk groups moving side target (some last) depth (body ++ .group last :: items) =
      .error (moving.fault (.straddling moving.keyword)) := by
  induction body generalizing depth with
  | nil => exact absurd rfl h
  | cons item body ih =>
    obtain ⟨hi, hb⟩ := not_or.mp (mt List.mem_cons.mpr apart)
    rcases walk_item_inside target (body ++ .group last :: items) (Ne.symm hi) with
      ⟨he, hw⟩ | ⟨-, hw⟩
    · rw [tagsOf_cons, exits_append, he] at h
      rw [List.cons_append, hw, ih hb h]
      rfl
    · exact hw

theorem walk_item (moving : Group) (side : Side) (name : String) (depth : Nat)
    (items : List StreamItem) (h : groups.Unpaired item) :
    depth = 0 ∧ tagsOf [item] = [(name, side.exit)] ∧ item.group? = none ∧
        walk groups moving side (some name) none depth (item :: items) = .ok 1 ∨
      name ∉ exits side depth (tagsOf [item]) ∧
        walk groups moving side (some name) none depth (item :: items) =
          (walk groups moving side (some name) none (entered side depth (tagsOf [item]))
            items).map (· + 1) := by
  cases ht : item.tag? with
  | none =>
    rw [tagsOf_plain ht]
    refine .inr ⟨by simp [exits], ?_⟩
    cases item with
    | group id =>
      obtain ⟨ho, hc⟩ := h id rfl
      refine walk_other (fun hl => ?_) (fun he => ?_)
      · cases side
        · exact ho hl
        · exact hc hl
      · cases side
        · exact hc he
        · exact ho he
    | raw | sentinel => exact walk_plain none rfl ht
  | some tag =>
    obtain ⟨label, part⟩ := tag
    rw [tagsOf_tag ht]
    rcases side.part_cases part with rfl | rfl | rfl
    · exact .inr ⟨by simp [exits], by simpa [entered] using walk_entry none ht⟩
    · cases depth with
      | zero =>
        by_cases hn : label = name
        · subst hn
          exact .inl ⟨rfl, rfl, StreamItem.group?_eq_none_of_tag ht, walk_exit_target ht⟩
        · refine .inr ⟨by simp [exits, Ne.symm hn], ?_⟩
          simpa [entered] using walk_exit_zero ht fun he => hn (Option.some.inj he).symm
      | succ depth =>
        exact .inr ⟨by simp [exits], by simpa [entered] using walk_exit_succ none ht⟩
    · exact .inr ⟨by simp [exits], by simpa [entered] using walk_selfClosing none ht⟩

theorem walk_pair (moving : Group) (name : String) (depth : Nat) (items : List StreamItem)
    (enters : side.entersPair (groups.lookup first).kind)
    (partner : (groups.lookup first).partner = some last) (apart : .group last ∉ body) :
    exits side depth (tagsOf body) = [] ∧
        walk groups moving side (some name) none depth
            (.group first :: body ++ .group last :: items) =
          (walk groups moving side (some name) none (entered side depth (tagsOf body)) items).map
            (· + (body.length + 2)) ∨
      exits side depth (tagsOf body) ≠ [] ∧
        walk groups moving side (some name) none depth
            (.group first :: body ++ .group last :: items) =
          .error (moving.fault (.straddling moving.keyword)) := by
  rw [List.cons_append, walk_first enters partner]
  by_cases h : exits side depth (tagsOf body) = []
  · refine .inl ⟨h, ?_⟩
    rw [walk_inside _ apart h]
    simp only [map_map, Function.comp_def, Nat.add_assoc]
  · refine .inr ⟨h, ?_⟩
    rw [walk_inside_error _ apart h]
    rfl

/-- Where a walk to an element ends: behind the exit of the element or at a pair around it. -/
inductive Halt (groups : Groups) (side : Side) (name : String) (depth : Nat) :
    List StreamItem → List StreamItem → Prop where
  | reached {passed rest : List StreamItem} (tags : List (String × TagPart))
      (tags_eq : tagsOf passed = tags ++ [(name, side.exit)]) (fresh : name ∉ exits side depth tags)
      (level : entered side depth tags = 0) : Halt groups side name depth passed rest
  | held {passed rest : List StreamItem} {id : GroupId}
      (leaves : side.leavesPair (groups.lookup id).kind)
      (fresh : name ∉ exits side depth (tagsOf passed)) :
      Halt groups side name depth passed (.group id :: rest)

theorem Halt.prepend {passed rest : List StreamItem} (chunk : List StreamItem)
    (hc : name ∉ exits side depth (tagsOf chunk))
    (h : Halt groups side name (entered side depth (tagsOf chunk)) passed rest) :
    Halt groups side name depth (chunk ++ passed) rest := by
  cases h with
  | @reached _ tags tags_eq fresh level =>
    refine .reached (tagsOf chunk ++ tags) (by simp [tags_eq]) ?_ ?_
    · rw [exits_append]
      exact fun hm => (List.mem_append.mp hm).elim hc fresh
    · rw [entered_append, level]
  | held leaves fresh =>
    refine .held leaves ?_
    rw [tagsOf_append, exits_append]
    exact fun hm => (List.mem_append.mp hm).elim hc fresh

theorem walk_ok (hw : Way groups side items)
    (h : walk groups moving side (some name) none depth items = .ok n) :
    ∃ passed rest, items = passed ++ rest ∧ passed.length = n ∧
      nest side [] (pairMarks groups passed) = some [] ∧
        Halt groups side name depth passed rest := by
  induction hw generalizing depth n with
  | nil => simp [walk] at h
  | around items leaves =>
    rw [walk_around leaves] at h
    exact ⟨[], _, rfl, Except.ok.inj h, rfl, .held leaves (by simp [exits])⟩
  | @item item items unpaired way ih =>
    have hm := pairMark_unpaired unpaired
    rcases walk_item moving side name depth items unpaired with ⟨rfl, ht, -, hw⟩ | ⟨hf, hw⟩
    · refine ⟨[item], items, rfl, Except.ok.inj (hw.symm.trans h), ?_,
        .reached [] ht (by simp [exits]) rfl⟩
      rw [pairMarks_cons_none hm]
      rfl
    · rw [hw] at h
      obtain ⟨k, hk, rfl⟩ := map_eq_ok.mp h
      obtain ⟨passed, rest, rfl, rfl, hc, hh⟩ := ih hk
      refine ⟨item :: passed, rest, rfl, rfl, ?_, hh.prepend [item] hf⟩
      rw [pairMarks_cons_none hm, hc]
  | @pair first last body items enters partner apart closed way ih =>
    have ht : tagsOf (.group first :: body ++ [.group last]) = tagsOf body := by simp
    rcases walk_pair moving name depth items enters partner apart with ⟨he, hw⟩ | ⟨-, hw⟩
    · rw [hw] at h
      obtain ⟨k, hk, rfl⟩ := map_eq_ok.mp h
      obtain ⟨passed, rest, rfl, rfl, hc, hh⟩ := ih hk
      refine ⟨.group first :: body ++ [.group last] ++ passed, rest, by simp, by simp; omega,
        ?_, ?_⟩
      · rw [pairMarks_append, nest_append, closed]
        exact hc
      · exact Halt.prepend _ (by simp [he]) (by rw [ht]; exact hh)
    · rw [hw] at h
      cases h

def Straddles (groups : Groups) (side : Side) (items : List StreamItem) : Prop :=
  ∃ before first body last after, items = before ++ .group first :: body ++ .group last :: after ∧
    side.entersPair (groups.lookup first).kind ∧ (groups.lookup first).partner = some last ∧
      nest side [] (tagsOf body) ≠ some []

theorem Straddles.prepend (h : Straddles groups side items) (chunk : List StreamItem) :
    Straddles groups side (chunk ++ items) := by
  obtain ⟨before, first, body, last, after, rfl, he, hp, hn⟩ := h
  exact ⟨chunk ++ before, first, body, last, after, by simp, he, hp, hn⟩

theorem walk_error {fault : StructureFault} (hw : Way groups side items)
    (h : walk groups moving side (some name) none depth items = .error fault) :
    fault = moving.fault (.noEnclosing moving.keyword name) ∨
      fault = moving.fault (.straddling moving.keyword) ∧ Straddles groups side items := by
  induction hw generalizing depth with
  | nil => exact .inl (Except.error.inj h).symm
  | around items leaves =>
    rw [walk_around leaves] at h
    cases h
  | @item item items unpaired way ih =>
    rcases walk_item moving side name depth items unpaired with ⟨-, -, -, hw⟩ | ⟨-, hw⟩
    · rw [hw] at h
      cases h
    · rw [hw, map_eq_error] at h
      exact (ih h).imp_right fun hs => ⟨hs.1, hs.2.prepend [item]⟩
  | @pair first last body items enters partner apart closed way ih =>
    rcases walk_pair moving name depth items enters partner apart with ⟨-, hw⟩ | ⟨hne, hw⟩
    · rw [hw, map_eq_error] at h
      refine (ih h).imp_right fun hs => ⟨hs.1, ?_⟩
      rw [List.append_cons]
      exact hs.2.prepend _
    · rw [hw] at h
      refine .inr ⟨(Except.error.inj h).symm, [], first, body, last, items, rfl, enters, partner,
        ?_⟩
      exact fun hn => hne (exits_of_closed hn depth).1

/-- Without an element to look for a walk ends at the next group. -/
theorem walk_none (groups : Groups) (moving : Group) (side : Side) (items : List StreamItem)
    (depth : Nat) : ∃ passed rest, items = passed ++ rest ∧
      walk groups moving side none none depth items = .ok passed.length ∧
      (∀ item ∈ passed, item.group? = none) ∧
        (rest = [] ∨ ∃ id after, rest = .group id :: after) := by
  induction items generalizing depth with
  | nil => exact ⟨[], [], rfl, rfl, by simp, .inl rfl⟩
  | cons item items ih =>
    have hp : ∀ depth', item.group? = none →
        walk groups moving side none none depth (item :: items) =
          (walk groups moving side none none depth' items).map (· + 1) →
        ∃ passed rest, item :: items = passed ++ rest ∧
          walk groups moving side none none depth (item :: items) = .ok passed.length ∧
          (∀ item ∈ passed, item.group? = none) ∧
          (rest = [] ∨ ∃ id after, rest = .group id :: after) := by
      intro depth' hg hw
      obtain ⟨passed, rest, rfl, hr, hg', he⟩ := ih depth'
      exact ⟨item :: passed, rest, rfl, by rw [hw, hr]; rfl, List.forall_mem_cons.mpr ⟨hg, hg'⟩, he⟩
    cases ht : item.tag? with
    | none =>
      cases item with
      | group id => exact ⟨[], _, rfl, by simp [walk], by simp, .inr ⟨id, items, rfl⟩⟩
      | raw | sentinel => exact hp depth rfl (walk_plain none rfl ht)
    | some tag =>
      obtain ⟨label, part⟩ := tag
      have hg := StreamItem.group?_eq_none_of_tag ht
      rcases side.part_cases part with rfl | rfl | rfl
      · exact hp (depth + 1) hg (walk_entry none ht)
      · cases depth with
        | zero => exact hp 0 hg (walk_exit_zero ht (by simp))
        | succ depth => exact hp depth hg (walk_exit_succ none ht)
      · exact hp depth hg (walk_selfClosing none ht)

end

end DocTemplate
