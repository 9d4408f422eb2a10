import DocTemplate.Markup.Tokenize
import DocTemplate.Proofs.Outcome
import Mathlib.Data.List.Find

namespace DocTemplate

namespace Markup

def more? : Markup → Option Nat
  | verbatim more => some more
  | tag _ _ more => some more
  | _ => none

variable {opener pattern xs cs : List Char}

theorem lengthThrough?_append_self (rest : List Char) :
    lengthThrough? pattern (pattern ++ rest) = some pattern.length := by
  cases h : pattern ++ rest with
  | nil =>
    obtain ⟨rfl, -⟩ := List.append_eq_nil_iff.mp h
    rfl
  | cons c cs =>
    have hp : pattern.isPrefixOf (c :: cs) = true := by
      rw [List.isPrefixOf_iff_prefix, ← h]
      exact List.prefix_append ..
    rw [lengthThrough?, if_pos hp]

theorem lengthThrough?_eq_some {n : Nat} (h : lengthThrough? pattern cs = some n) :
    ∃ xs after, cs = xs ++ pattern ++ after ∧ n = (xs ++ pattern).length ∧
      ∀ rest, lengthThrough? pattern (xs ++ pattern ++ rest) = some n := by
  induction cs generalizing n with
  | nil =>
    unfold lengthThrough? at h
    split at h
    next hp =>
      obtain rfl := hp
      obtain rfl := Option.some.inj h
      exact ⟨[], [], rfl, rfl, lengthThrough?_append_self⟩
    next => cases h
  | cons c cs ih =>
    unfold lengthThrough? at h
    split at h
    next hp =>
      obtain ⟨after, ha⟩ := List.isPrefixOf_iff_prefix.mp hp
      obtain rfl := Option.some.inj h
      exact ⟨[], after, ha.symm, rfl, lengthThrough?_append_self⟩
    next hp =>
      obtain ⟨m, hm, rfl⟩ := Option.map_eq_some_iff.mp h
      obtain ⟨xs, after, rfl, rfl, hrest⟩ := ih hm
      refine ⟨c :: xs, after, rfl, rfl, fun rest => ?_⟩
      have hlen : pattern.length ≤ (c :: xs ++ pattern).length := by simp; omega
      have hnot : ¬pattern.isPrefixOf (c :: xs ++ pattern ++ rest) = true := by
        rw [List.isPrefixOf_iff_prefix] at hp ⊢
        intro h
        have hx := List.prefix_of_prefix_length_le h (List.prefix_append ..) hlen
        exact hp (hx.trans (List.prefix_append (c :: xs ++ pattern) after))
      rw [List.cons_append, List.cons_append] at hnot ⊢
      rw [lengthThrough?, if_neg hnot, hrest]
      rfl

theorem isPrefixOf_mark (h : '>' ∉ opener) (rest : List Char) :
    opener.isPrefixOf (xs ++ '>' :: rest) = opener.isPrefixOf xs := by
  rw [Bool.eq_iff_iff, List.isPrefixOf_iff_prefix, List.isPrefixOf_iff_prefix]
  refine ⟨fun ho => ?_, fun ho => ho.trans (List.prefix_append ..)⟩
  rcases List.prefix_or_prefix_of_prefix ho (List.prefix_append ..) with hx | ⟨ds, rfl⟩
  · exact hx
  · cases ds with
    | nil => simp
    | cons d ds =>
      obtain ⟨rfl, -⟩ := List.cons_prefix_cons.mp ((List.prefix_append_right_inj xs).mp ho)
      simp at h

theorem verbatimForms_mark :
    ∀ form ∈ verbatimForms, '>' ∉ form.1 ∧ form.2 = form.2.dropLast ++ ['>'] := by
  decide

theorem terminator?_mark (rest : List Char) :
    terminator? (xs ++ '>' :: rest) = terminator? xs := by
  unfold terminator?
  congr 1
  refine List.find?_congr fun form hf => ?_
  exact isPrefixOf_mark (verbatimForms_mark form hf).1 rest

theorem terminator?_eq_some (h : terminator? cs = some pattern) :
    ∃ stem, pattern = stem ++ ['>'] := by
  obtain ⟨form, hf, rfl⟩ := Option.map_eq_some_iff.mp h
  exact ⟨_, (verbatimForms_mark form (List.mem_of_find?_eq_some hf)).2⟩

theorem tagRest?_eq_some {quote : Option Char} {last l : Char} {n : Nat}
    (h : tagRest? quote last cs = some (n, l)) :
    ∃ xs after, cs = xs ++ '>' :: after ∧ n = xs.length + 1 ∧
      ∀ rest, tagRest? quote last (xs ++ '>' :: rest) = some (n, l) := by
  induction cs generalizing quote last n with
  | nil => cases h
  | cons c cs ih =>
    cases quote with
    | some q =>
      obtain ⟨⟨m, l'⟩, hm, he⟩ := Option.map_eq_some_iff.mp h
      obtain ⟨rfl, rfl⟩ := Prod.mk.inj he
      obtain ⟨xs, after, rfl, rfl, hrest⟩ := ih hm
      refine ⟨c :: xs, after, rfl, rfl, fun rest => ?_⟩
      simp only [List.cons_append, tagRest?, hrest, Option.map_some]
    | none =>
      unfold tagRest? at h
      simp only at h
      split at h
      next hc =>
        obtain ⟨rfl, rfl⟩ := Prod.mk.inj (Option.some.inj h)
        exact ⟨[], cs, by rw [hc]; rfl, rfl, fun rest => by simp [tagRest?]⟩
      next hc =>
        obtain ⟨⟨m, l'⟩, hm, he⟩ := Option.map_eq_some_iff.mp h
        obtain ⟨rfl, rfl⟩ := Prod.mk.inj he
        obtain ⟨xs, after, rfl, rfl, hrest⟩ := ih hm
        refine ⟨c :: xs, after, rfl, rfl, fun rest => ?_⟩
        simp only [List.cons_append, tagRest?, if_neg hc, hrest, Option.map_some]

theorem takeWhile_mark (rest : List Char) :
    (xs ++ '>' :: rest).takeWhile (!endsName ·) = xs.takeWhile (!endsName ·) := by
  rw [List.takeWhile_append]
  split
  next h =>
    have hx := (List.takeWhile_prefix (!endsName ·)).eq_of_length h
    rw [hx]
    simp [endsName]
  next => rfl

theorem tagAt_parts {lead name body : List Char} {last : Char} {n : Nat}
    (hlead : lead = ['/'] ∨ lead = []) (hname : name ≠ [])
    (htake : (name ++ body).takeWhile (!endsName ·) = name)
    (hrest : tagRest? none (name.getLastD '<') body = some (n, last)) :
    tagAt (lead ++ name ++ body) = tag name
      (if lead = ['/'] then .closing else if last = '/' then .selfClosing else .opening)
      (lead.length + name.length + n) := by
  rcases hlead with rfl | rfl
  · have hdrop : ('/' :: (name ++ body)).drop (1 + name.length) = body := by
      rw [Nat.add_comm, List.drop_succ_cons, List.drop_left]
    simp only [List.getLastD_eq_getLast?] at hrest
    simp [tagAt, htake, hname, hdrop, hrest]
  · have hhead : (name ++ body).head? ≠ some '/' := by
      intro hh
      obtain ⟨c, cs, rfl⟩ := List.exists_cons_of_ne_nil hname
      obtain rfl := Option.some.inj hh
      simp [endsName] at htake
    unfold tagAt
    simp only [List.nil_append, hhead, if_false, List.drop_zero, htake, if_neg hname,
      Nat.zero_add, List.drop_left, hrest]
    simp

theorem tagAt_eq_tag {name : List Char} {part : TagPart} {more : Nat}
    (h : tagAt cs = tag name part more) :
    ∃ lead body last n, cs = lead ++ name ++ body ∧ (lead = ['/'] ∨ lead = []) ∧ name ≠ [] ∧
      (name ++ body).takeWhile (!endsName ·) = name ∧
      tagRest? none (name.getLastD '<') body = some (n, last) := by
  unfold tagAt at h
  extract_lets closing slash read at h
  split at h
  next => cases h
  next hname =>
    split at h
    next => cases h
    next n last hn =>
      extract_lets shape at h
      obtain ⟨rfl, -, -⟩ := Markup.tag.inj h
      have hbody : cs.drop slash = read ++ cs.drop (slash + read.length) := by
        rw [← List.drop_drop]
        exact (List.prefix_iff_eq_append.mp (List.takeWhile_prefix _)).symm
      refine ⟨cs.take slash, cs.drop (slash + read.length), last, n, ?_, ?_, hname, ?_, hn⟩
      · rw [List.append_assoc, ← hbody, List.take_append_drop]
      · by_cases hc : cs.head? = some '/'
        · obtain ⟨ds, rfl⟩ := List.head?_eq_some_iff.mp hc
          exact .inl (by simp [slash, closing])
        · exact .inr (by simp [slash, closing, hc])
      · rw [← hbody]

theorem tagAt_ne_verbatim (cs : List Char) (more : Nat) : tagAt cs ≠ verbatim more := by
  intro h
  unfold tagAt at h
  extract_lets at h
  split at h
  · cases h
  · split at h <;> cases h

theorem tagAt_append {name : List Char} {part : TagPart} {more : Nat}
    (h : tagAt cs = tag name part more) :
    ∃ xs after, cs = xs ++ '>' :: after ∧ more = xs.length + 1 ∧
      ∀ rest, tagAt (xs ++ '>' :: rest) = tag name part more := by
  obtain ⟨lead, body, last, n, rfl, hlead, hname, htake, hn⟩ := tagAt_eq_tag h
  obtain ⟨ys, after, rfl, rfl, hrest⟩ := tagRest?_eq_some hn
  rw [tagAt_parts hlead hname htake hn] at h
  obtain ⟨-, rfl, rfl⟩ := Markup.tag.inj h
  refine ⟨lead ++ name ++ ys, after, by simp, by simp; omega, fun rest => ?_⟩
  rw [List.append_assoc _ ys]
  refine tagAt_parts hlead hname ?_ (hrest rest)
  rw [← List.append_assoc, takeWhile_mark] at htake ⊢
  exact htake

theorem read_append {m : Markup} {more : Nat} (h : read cs = m) (hm : m.more? = some more) :
    ∃ xs after, cs = xs ++ '>' :: after ∧ more = xs.length + 1 ∧
      ∀ rest, read (xs ++ '>' :: rest) = m := by
  unfold read at h
  split at h
  next terminator hterm =>
    split at h
    next length hlen =>
      subst h
      obtain rfl := Option.some.inj hm
      obtain ⟨stem, rfl⟩ := terminator?_eq_some hterm
      obtain ⟨xs, after, hcs, rfl, hrest⟩ := lengthThrough?_eq_some hlen
      rw [← List.append_assoc] at hcs hrest ⊢
      cases hx : xs ++ stem with
      | nil =>
        rw [hx] at hcs
        cases hcs
      | cons c ys =>
        rw [hx] at hcs hrest
        simp only [List.cons_append, List.append_assoc, List.nil_append] at hcs hrest
        obtain ⟨rfl, rfl⟩ := List.cons.inj hcs
        refine ⟨ys, after, rfl, by simp, fun rest => ?_⟩
        rw [← List.cons_append, terminator?_mark] at hterm
        rw [read, ← List.cons_append, terminator?_mark, hterm, List.cons_append]
        simp only [hrest]
        simp
    next =>
      subst h
      cases hm
  next hterm =>
    cases m with
    | verbatim more' => exact absurd h (tagAt_ne_verbatim cs more')
    | tag name part more' =>
      obtain rfl := Option.some.inj hm
      obtain ⟨xs, after, rfl, rfl, hrest⟩ := tagAt_append h
      refine ⟨xs, after, rfl, rfl, fun rest => ?_⟩
      rw [← List.cons_append, terminator?_mark] at hterm
      rw [read, ← List.cons_append, terminator?_mark, hterm]
      exact hrest rest
    | _ => cases hm

/-- The characters of a piece of markup read as that piece whatever follows them. -/
theorem exists_split {m : Markup} {more : Nat} (h : read cs = m) (hm : m.more? = some more) :
    ∃ xs after, cs = xs ++ after ∧ more = xs.length ∧ ∀ rest, read (xs ++ rest) = m := by
  obtain ⟨xs, after, rfl, rfl, hrest⟩ := read_append h hm
  refine ⟨xs ++ ['>'], after, by simp, by simp, fun rest => ?_⟩
  simpa using hrest rest

end Markup

def RawToken.isMarkup : RawToken → Bool
  | content .. => false
  | _ => true

def textDepth (textTags : List String) (name : List Char) (part : TagPart) (depth : Nat) : Nat :=
  if textTags.contains (String.ofList name) then part.depthAfter depth else depth

/-- The pieces that a text is cut into, from byte `pos` on and inside `depth` text elements. -/
inductive Cut (textTags : List String) : Nat → Nat → List Char → List RawToken → Prop
  | nil {pos depth : Nat} : Cut textTags pos depth [] []
  | content {pos depth : Nat} {cs rest : List Char} {pieces : List RawToken} :
      cs ≠ [] → '<' ∉ cs → (∀ c ∈ rest.head?, c = '<') →
      Cut textTags (pos + byteLength cs) depth rest pieces →
      Cut textTags pos depth (cs ++ rest)
        (.content (String.ofList cs) (Span.clamp pos) (0 < depth) :: pieces)
  | verbatim {pos depth : Nat} {xs rest : List Char} {pieces : List RawToken} :
      (∀ after, Markup.read (xs ++ after) = .verbatim xs.length) →
      Cut textTags (pos + byteLength ('<' :: xs)) depth rest pieces →
      Cut textTags pos depth ('<' :: xs ++ rest)
        (.verbatim (String.ofList ('<' :: xs)) (Span.clamp pos) :: pieces)
  | tag {pos depth : Nat} {xs rest name : List Char} {part : TagPart} {pieces : List RawToken} :
      (∀ after, Markup.read (xs ++ after) = .tag name part xs.length) →
      Cut textTags (pos + byteLength ('<' :: xs)) (textDepth textTags name part depth) rest
        pieces →
      Cut textTags pos depth ('<' :: xs ++ rest)
        (.tag (String.ofList name) part (String.ofList ('<' :: xs)) (Span.clamp pos)
          (textTags.contains (String.ofList name)) :: pieces)

def Placed : Nat → List RawToken → Prop
  | _, [] => True
  | pos, piece :: pieces =>
    piece.offset = Span.clamp pos ∧ Placed (pos + byteLength piece.text.toList) pieces

section

variable {textTags : List String} {pos depth : Nat} {cs rest : List Char}
  {pieces : List RawToken}

theorem tokenizeFrom_skip (xs : List Char) :
    tokenizeFrom textTags pos depth xs.length (xs ++ rest) =
      tokenizeFrom textTags (pos + byteLength xs) depth 0 rest := by
  induction xs generalizing pos with
  | nil => rfl
  | cons x xs ih =>
    rw [List.cons_append, List.length_cons, tokenizeFrom, ih, byteLength, Nat.add_assoc]

theorem tokenizeFrom_content (hc : cs ≠ []) (hn : '<' ∉ cs) (hr : ∀ c ∈ rest.head?, c = '<') :
    tokenizeFrom textTags pos depth 0 (cs ++ rest) =
      (tokenizeFrom textTags (pos + byteLength cs) depth 0 rest).map
        (.content (String.ofList cs) (Span.clamp pos) (0 < depth) :: ·) := by
  cases cs with
  | nil => exact absurd rfl hc
  | cons c xs =>
    have hne : c ≠ '<' := by
      rintro rfl
      simp at hn
    have htail : (xs ++ rest).takeWhile (· ≠ '<') = xs := by
      rw [List.takeWhile_append_of_pos fun a ha => by
        simpa using fun he : a = '<' => hn (he ▸ List.mem_cons_of_mem c ha)]
      cases rest with
      | nil => simp
      | cons d ds => simp [hr d rfl]
    rw [List.cons_append, tokenizeFrom, if_pos hne]
    simp only [htail, tokenizeFrom_skip, byteLength, Nat.add_assoc]

theorem tokenizeFrom_verbatim {xs : List Char}
    (h : ∀ after, Markup.read (xs ++ after) = .verbatim xs.length) :
    tokenizeFrom textTags pos depth 0 ('<' :: xs ++ rest) =
      (tokenizeFrom textTags (pos + byteLength ('<' :: xs)) depth 0 rest).map
        (.verbatim (String.ofList ('<' :: xs)) (Span.clamp pos) :: ·) := by
  rw [List.cons_append, tokenizeFrom, if_neg (by simp)]
  simp only [h, tokenizeFrom_skip, List.take_left, byteLength, Nat.add_assoc]

theorem tokenizeFrom_tag {xs name : List Char} {part : TagPart}
    (h : ∀ after, Markup.read (xs ++ after) = .tag name part xs.length) :
    tokenizeFrom textTags pos depth 0 ('<' :: xs ++ rest) =
      (tokenizeFrom textTags (pos + byteLength ('<' :: xs)) (textDepth textTags name part depth) 0
        rest).map
        (.tag (String.ofList name) part (String.ofList ('<' :: xs)) (Span.clamp pos)
          (textTags.contains (String.ofList name)) :: ·) := by
  rw [List.cons_append, tokenizeFrom, if_neg (by simp)]
  simp only [h, tokenizeFrom_skip, List.take_left, byteLength, Nat.add_assoc]
  rfl

theorem Cut.tokenizeFrom (h : Cut textTags pos depth cs pieces) :
    tokenizeFrom textTags pos depth 0 cs = .ok pieces := by
  induction h with
  | nil => rfl
  | content hc hn hr _ ih => rw [tokenizeFrom_content hc hn hr, ih]; rfl
  | verbatim hx _ ih => rw [tokenizeFrom_verbatim hx, ih]; rfl
  | tag hx _ ih => rw [tokenizeFrom_tag hx, ih]; rfl

theorem exists_content {c : Char} (hc : c ≠ '<') (cs : List Char) :
    ∃ xs rest, cs = xs ++ rest ∧ '<' ∉ c :: xs ∧ ∀ d ∈ rest.head?, d = '<' := by
  refine ⟨cs.takeWhile (· ≠ '<'), cs.dropWhile (· ≠ '<'), List.takeWhile_append_dropWhile.symm,
    ?_, fun d hd => ?_⟩
  · rintro (_ | ⟨_, hm⟩)
    · exact hc rfl
    · simpa using List.all_eq_true.mp List.all_takeWhile '<' hm
  · have hnot := List.head?_dropWhile_not (· ≠ '<') cs
    rw [Option.mem_def.mp hd] at hnot
    simpa using hnot

theorem cut_of_tokenizeFrom (h : tokenizeFrom textTags pos depth 0 cs = .ok pieces) :
    Cut textTags pos depth cs pieces := by
  -- The tokenizer skips what it has read, so the induction is on the length of what is left.
  induction hl : cs.length using Nat.strongRecOn generalizing cs pos depth pieces with
  | _ n ih =>
    subst hl
    cases cs with
    | nil =>
      obtain rfl := Except.ok.inj h
      exact .nil
    | cons c cs =>
      by_cases hc : c = '<'
      · subst hc
        cases hm : Markup.read cs with
        | verbatim more =>
          obtain ⟨xs, after, rfl, rfl, hx⟩ := Markup.exists_split hm rfl
          rw [← List.cons_append, tokenizeFrom_verbatim hx] at h
          obtain ⟨pieces, hp, rfl⟩ := map_eq_ok.mp h
          exact .verbatim hx (ih after.length (by grind) hp rfl)
        | tag name part more =>
          obtain ⟨xs, after, rfl, rfl, hx⟩ := Markup.exists_split hm rfl
          rw [← List.cons_append, tokenizeFrom_tag hx] at h
          obtain ⟨pieces, hp, rfl⟩ := map_eq_ok.mp h
          exact .tag hx (ih after.length (by grind) hp rfl)
        | unnamed | unterminated =>
          rw [tokenizeFrom, if_neg (by simp)] at h
          simp only [hm] at h
          cases h
      · obtain ⟨xs, rest, rfl, hn, hr⟩ := exists_content hc cs
        rw [← List.cons_append, tokenizeFrom_content (List.cons_ne_nil c xs) hn hr] at h
        obtain ⟨pieces, hp, rfl⟩ := map_eq_ok.mp h
        exact .content (List.cons_ne_nil c xs) hn hr (ih rest.length (by grind) hp rfl)

/-- A text has the pieces that it is cut into, and no others. -/
theorem tokenizeFrom_eq_ok :
    tokenizeFrom textTags pos depth 0 cs = .ok pieces ↔ Cut textTags pos depth cs pieces :=
  ⟨cut_of_tokenizeFrom, Cut.tokenizeFrom⟩

end

namespace Cut

variable {textTags : List String} {pos depth : Nat} {cs : List Char} {pieces : List RawToken}

theorem text (h : Cut textTags pos depth cs pieces) : pieces.flatMap (·.text.toList) = cs := by
  induction h with
  | nil => rfl
  | content _ _ _ _ ih => rw [List.flatMap_cons, ih, RawToken.text, String.toList_ofList]
  | verbatim _ _ ih => rw [List.flatMap_cons, ih, RawToken.text, String.toList_ofList]
  | tag _ _ ih => rw [List.flatMap_cons, ih, RawToken.text, String.toList_ofList]

theorem placed (h : Cut textTags pos depth cs pieces) : Placed pos pieces := by
  induction h with
  | nil => trivial
  | content _ _ _ _ ih => exact ⟨rfl, by rwa [RawToken.text, String.toList_ofList]⟩
  | verbatim _ _ ih => exact ⟨rfl, by rwa [RawToken.text, String.toList_ofList]⟩
  | tag _ _ ih => exact ⟨rfl, by rwa [RawToken.text, String.toList_ofList]⟩

end Cut

theorem tokenize_text {textTags : List String} {document : String} {pieces : List RawToken}
    (h : tokenize textTags document = .ok pieces) :
    pieces.flatMap (·.text.toList) = document.toList := (tokenizeFrom_eq_ok.mp h).text

theorem tokenize_placed {textTags : List String} {document : String} {pieces : List RawToken}
    (h : tokenize textTags document = .ok pieces) : Placed 0 pieces :=
  (tokenizeFrom_eq_ok.mp h).placed

end DocTemplate
