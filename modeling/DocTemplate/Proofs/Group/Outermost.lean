import DocTemplate.Proofs.Group.Balance
import DocTemplate.Proofs.Group.Departure

namespace DocTemplate

def clearing (side : Side) (id : GroupId) (items : List StreamItem) : List StreamItem :=
  (ahead side id items).takeWhile (·.group?.isNone)

section

variable {stream : TemplateStream} {side : Side} {opener closer id : GroupId}
  {items passed rest : List StreamItem}

theorem clearing_eq (ha : ahead side id items = passed ++ rest)
    (hg : ∀ item ∈ passed, item.group? = none)
    (hr : rest = [] ∨ ∃ j after, rest = .group j :: after) : clearing side id items = passed := by
  rw [clearing, ha, List.takeWhile_append_of_pos fun item hi => by rw [hg item hi]; rfl]
  obtain rfl | ⟨j, after, rfl⟩ := hr
  · simp
  · rw [List.takeWhile_cons_of_neg (by simp [StreamItem.group?]), List.append_nil]

theorem tagsOf_filter_fixed (groups : Groups) (items : List StreamItem) :
    tagsOf (items.filter groups.fixed) = tagsOf items := by
  rw [← tagsOf_filter_tag (items.filter groups.fixed), List.filter_filter,
    List.filter_congr (q := (·.tag?.isSome)), tagsOf_filter_tag]
  intro item _
  cases item with
  | group id => rfl
  | raw | sentinel => simp [Groups.fixed]

theorem ahead_right {back front : List StreamItem} (hn : (groupIds items).Nodup)
    (h : items = back ++ .group id :: front) : ahead .right id items = front :=
  ahead_eq hn h

theorem TemplateStream.Rests.tagsOf_between {a b : TemplateStream}
    {before body after before' body' after' : List StreamItem}
    (h : TemplateStream.Rests opener closer a b) (hn : (groupIds a.items).Nodup)
    (hn' : (groupIds b.items).Nodup)
    (ha : a.items = before ++ .group opener :: (body ++ .group closer :: after))
    (hb : b.items = before' ++ .group opener :: (body' ++ .group closer :: after')) :
    tagsOf body' = tagsOf body := by
  have hopen := h.aheadOpener .right
  have hclose := h.aheadCloser .right
  rw [ahead_right hn' hb, ahead_right hn ha] at hopen
  rw [List.append_cons, ← List.append_assoc] at ha hb
  rw [ahead_right hn' hb, ahead_right hn ha] at hclose
  simp only [tagsOf_append, tagsOf_group_cons, hclose] at hopen
  exact List.append_cancel_right hopen

end

namespace Expander

variable {e : Expander} {stream paired out : TemplateStream} {opener closer : GroupId}

/-- In its own turn a pair takes in all that lies up to the groups next to it. -/
theorem expandPair_outermost (hp : stream.Paired) (hlink : stream.groups.Linked opener closer)
    (hs : opener < stream.groups.size) (h : e.expandPair stream opener = .ok out)
    (hn : (groupIds out.items).Nodup) (ht : (out.groups.lookup opener).target = .outermost) :
    ∃ outer body outer',
      stream.items = outer ++ ((clearing .left opener stream.items).reverse ++
        .group opener :: (body ++ .group closer :: (clearing .right closer stream.items ++
          outer'))) ∧
      out.items = outer ++ .group opener :: ((clearing .left opener stream.items).reverse ++
        (body ++ clearing .right closer stream.items) ++ .group closer :: outer') := by
  obtain ⟨closer', hc, hcases⟩ := expandPair_ok h
  obtain rfl : closer' = closer := Option.some.inj (hc.symm.trans hlink.toCloser)
  have hg : out.groups = (e.aim stream opener closer').groups := by
    rcases hcases with ⟨-, rfl⟩ | ⟨-, -, -, -, -, hg⟩
    · rfl
    · exact hg
  rw [hg, aim_target hs] at ht
  obtain ⟨hr, -⟩ | ⟨tag, mid, hr, hl, hright, -⟩ := hcases
  · rw [ht] at hr
    cases hr
  · rw [ht] at hr
    obtain rfl : none = tag := Option.some.inj hr
    have hpa : (e.aim stream opener closer').Paired := hp.of_same (by simp) (by simp)
    obtain ⟨back, left, restLeft, hml, hgl, hrl⟩ := moveGroup_none hl
    obtain ⟨back', right, restRight, hmr, hgr, hrr⟩ := moveGroup_none hright
    obtain ⟨body, hm⟩ := PairMoved.of_moved hpa hlink.aim hml hmr
    have hleft := clearing_eq (hm.ahead_opener hp.nodup hn).1 hgl hrl
    have hright := clearing_eq (hm.ahead_closer hp.nodup hn).1 hgr hrr
    rw [aim_items] at hleft hright
    refine ⟨restLeft.reverse, body, restRight, ?_, ?_⟩
    · rw [hleft, hright]
      exact hm.source
    · rw [hleft, hright]
      exact hm.result

/-- When tags nest, in the whole stream and between the members of a pair, and the pair moves out
of everything, the tags between its members nest afterwards exactly when the ways to the groups
next to it, as they stand when it is its turn, leave the same elements and end in none that they
enter. -/
theorem expand_outermost_iff (e : Expander) (hs : stream.Sound)
    (hw : nest .right [] (tagsOf stream.items) ≠ none) (hb : stream.BalancedPair opener closer)
    (h : e.expand stream = .ok out) (hid : .group opener ∈ stream.items)
    (hlink : out.groups.Linked opener closer)
    (ht : (out.groups.lookup opener).target = .outermost) :
    ∃ st before body after, e.before stream opener = .ok st ∧
      out.items = before ++ .group opener :: (body ++ .group closer :: after) ∧
      (nest .right [] (tagsOf body) = some [] ↔
        exits .left 0 (tagsOf (clearing .left opener st.items)) =
            exits .right 0 (tagsOf (clearing .right closer st.items)) ∧
          entered .left 0 (tagsOf (clearing .left opener st.items)) = 0 ∧
          entered .right 0 (tagsOf (clearing .right closer st.items)) = 0) := by
  obtain ⟨st, st', ht'⟩ := exists_pairTurn hs h hid hlink
  obtain ⟨outer, body, outer', hsource, hresult⟩ := expandPair_outermost ht'.paired ht'.linked
    ht'.inTable ht'.turn ht'.paired'.nodup (by rw [← ht'.rests'.target, ht])
  obtain ⟨start, inner, tail, hstart⟩ := ht'.source
  obtain ⟨before, final, after, hfinal⟩ := ht'.result
  refine ⟨st, before, final, after, ht'.before, hfinal, ?_⟩
  have hbody : nest .right [] (tagsOf body) = some [] := by
    rw [← List.append_assoc] at hsource
    rw [ht'.rests.tagsOf_between hs.nodup ht'.paired.nodup hstart hsource]
    exact hb start inner tail hstart
  rw [ht'.rests'.tagsOf_between ht'.paired'.nodup ht'.pairedOut.nodup hresult hfinal]
  -- The ways to both sides lie in the stream around the pair, so their tags nest there.
  obtain ⟨closed, hclosed⟩ := Option.ne_none_iff_exists'.mp hw
  rw [← tagsOf_filter_fixed st.groups, ← ht'.fixed, tagsOf_filter_fixed, hsource] at hclosed
  simp only [tagsOf_append, tagsOf_group_cons, tagsOf_reverse] at hclosed ⊢
  obtain ⟨opened, -, hclosed⟩ := nest_append_eq_some.mp hclosed
  rw [← nest_swap hbody, nest_skip hbody, ← List.append_assoc] at hclosed
  obtain ⟨inside, haround, -⟩ := nest_append_eq_some.mp hclosed
  rw [← nest_swap hbody, nest_skip hbody]
  exact nest_around_iff haround

/-- A paragraph in which a value stands before a pair that is to move out of everything:
`<p>{x}{rewrite wrap()}a{end}</p>`. -/
def rewriteBesideValue : TemplateStream where
  items := [.raw (.tag "p" .opening "<p>" 0 false), .group 0, .group 1,
    .raw (.content "a" 23 true), .group 2, .raw (.tag "p" .closing "</p>" 29 false)]
  groups := #[⟨[], .placeholder, ⟨3, 6⟩, .stay, .both, false, none⟩,
    ⟨[⟨.opening, "\x7b", ⟨6, 7⟩, none⟩, ⟨.keyword .rewrite, "rewrite", ⟨7, 14⟩, none⟩,
      ⟨.identifier, "wrap", ⟨15, 19⟩, none⟩], .rewrite, ⟨6, 22⟩, .auto, .both, true, none⟩,
    ⟨[], .finish, ⟨24, 29⟩, .auto, .both, true, none⟩]

/-- The value holds the start of the pair back in the paragraph, and its end goes on to the end of
the document. -/
theorem expand_outermost_iff_rewriteBesideValue :
    rewriteBesideValue.Sound ∧ nest .right [] (tagsOf rewriteBesideValue.items) = some [] ∧
      rewriteBesideValue.BalancedPair 1 2 ∧
      ∃ out, expand ⟨[], none, [("wrap", .outermost)]⟩ rewriteBesideValue = .ok out ∧
        out.groups.Linked 1 2 ∧ (out.groups.lookup 1).target = .outermost ∧
        ¬ out.BalancedPair 1 2 := by
  have hs : rewriteBesideValue.Sound := ⟨by decide, by decide⟩
  have hid : .group 1 ∈ rewriteBesideValue.items := by decide
  have hw : nest .right [] (tagsOf rewriteBesideValue.items) = some [] := by decide
  have hb : rewriteBesideValue.BalancedPair 1 2 := by
    intro before body after hi
    have hitems : rewriteBesideValue.items =
        [.raw (.tag "p" .opening "<p>" 0 false), .group 0] ++ .group 1 ::
          ([.raw (.content "a" 23 true)] ++
            .group 2 :: [.raw (.tag "p" .closing "</p>" 29 false)]) := rfl
    obtain rfl := between_unique hs.nodup hitems hi
    rfl
  refine ⟨hs, hw, hb, _, rfl, ⟨rfl, rfl, rfl, rfl⟩, rfl, fun hbalanced => ?_⟩
  obtain ⟨st, before, body, after, hst, hout, hiff⟩ :=
    expand_outermost_iff ⟨[], none, [("wrap", .outermost)]⟩ hs (by rw [hw]; nofun) hb rfl hid
      ⟨rfl, rfl, rfl, rfl⟩ rfl
  obtain rfl := Except.ok.inj hst
  have h := hiff.mp (hbalanced before body after hout)
  revert h
  decide

end Expander

end DocTemplate
