import DocTemplate.Proofs.Nesting
import DocTemplate.Proofs.Output.Serialized
import DocTemplate.Proofs.Output.Spelled
import Mathlib.Data.List.Induction

namespace DocTemplate

def tagsRead? (result : Except MarkupFault (List RawToken)) : Option (List (String × TagPart)) :=
  result.toOption.map (·.filterMap RawToken.tag?)

def tags? (cs : List Char) : Option (List (String × TagPart)) :=
  tagsRead? (tokenizeFrom [] 0 0 0 cs)

/-- The elements that are open at the end of a text, innermost first. There are none to name when
the text ends inside markup or closes another element than the innermost one. -/
def openElements? (text : String) : Option (List String) :=
  (tags? text.toList).bind (nest .right [])

section

variable {textTags : List String} {pos depth : Nat} {cs : List Char} {pieces : List RawToken}
  {marks : List (String × TagPart)}

theorem tagsRead?_cons (piece : RawToken) (result : Except MarkupFault (List RawToken)) :
    tagsRead? (result.map (piece :: ·)) = (tagsRead? result).map (piece.tag?.toList ++ ·) := by
  cases result with
  | error fault => rfl
  | ok pieces =>
    refine congrArg some ?_
    cases h : piece.tag? with
    | none => exact List.filterMap_cons_none h
    | some mark => exact List.filterMap_cons_some h

theorem tagsRead?_tokenizeFrom (textTags : List String) (pos pos' depth depth' skip : Nat)
    (cs : List Char) : tagsRead? (tokenizeFrom textTags pos depth skip cs) =
      tagsRead? (tokenizeFrom [] pos' depth' skip cs) := by
  induction cs generalizing pos depth pos' depth' skip with
  | nil => rfl
  | cons c cs ih =>
    cases skip with
    | succ skip =>
      rw [tokenizeFrom, tokenizeFrom]
      exact ih ..
    | zero =>
      rw [tokenizeFrom, tokenizeFrom]
      dsimp only
      split
      · rw [tagsRead?_cons, tagsRead?_cons, ih]
        rfl
      · split
        · rw [tagsRead?_cons, tagsRead?_cons, ih]
          rfl
        · rw [tagsRead?_cons, tagsRead?_cons, ih]
          rfl
        · rfl
        · rfl

theorem tags?_eq (textTags : List String) (pos depth : Nat) (cs : List Char) :
    tagsRead? (tokenizeFrom textTags pos depth 0 cs) = tags? cs :=
  tagsRead?_tokenizeFrom ..

theorem tags?_nil : tags? [] = some [] := rfl

theorem tags?_content (hn : '<' ∉ cs) (rest : List Char) : tags? (cs ++ rest) = tags? rest := by
  -- The content may go on into what follows.
  obtain ⟨ys, after, rfl, hys, hafter⟩ := exists_content (c := 'x') (by decide) rest
  have hys : '<' ∉ ys := fun hy => hys (List.mem_cons_of_mem _ hy)
  have hread {zs : List Char} (hz : '<' ∉ zs) : tags? (zs ++ after) = tags? after := by
    by_cases hnil : zs = []
    · rw [hnil, List.nil_append]
    · rw [tags?, tokenizeFrom_content hnil hz hafter, tagsRead?_cons, tags?_eq]
      exact Option.map_id'
  rw [← List.append_assoc, hread (by simp [hn, hys]), hread hys]

theorem tags?_verbatim {xs : List Char}
    (h : ∀ after, Markup.read (xs ++ after) = .verbatim xs.length) (rest : List Char) :
    tags? ('<' :: xs ++ rest) = tags? rest := by
  rw [tags?, tokenizeFrom_verbatim h, tagsRead?_cons, tags?_eq]
  exact Option.map_id'

theorem tags?_tag {xs name : List Char} {part : TagPart}
    (h : ∀ after, Markup.read (xs ++ after) = .tag name part xs.length) (rest : List Char) :
    tags? ('<' :: xs ++ rest) = (tags? rest).map ((String.ofList name, part) :: ·) := by
  rw [tags?, tokenizeFrom_tag h, tagsRead?_cons, tags?_eq]
  rfl

theorem Cut.tags?_append (h : Cut textTags pos depth cs pieces) (rest : List Char) :
    tags? (cs ++ rest) = (tags? rest).map (pieces.filterMap RawToken.tag? ++ ·) := by
  induction h with
  | nil => exact Option.map_id'.symm
  | content _ hn _ _ ih =>
    rw [List.append_assoc, tags?_content hn, ih]
    rfl
  | verbatim hx _ ih =>
    rw [List.append_assoc, tags?_verbatim hx, ih]
    rfl
  | tag hx _ ih =>
    rw [List.append_assoc, tags?_tag hx, ih, Option.map_map]
    rfl

theorem tags?_append (h : tags? cs = some marks) (rest : List Char) :
    tags? (cs ++ rest) = (tags? rest).map (marks ++ ·) := by
  obtain ⟨pieces, hp, rfl⟩ := Option.map_eq_some_iff.mp h
  exact (cut_of_tokenizeFrom (ok_of_toOption hp)).tags?_append rest

end

section

variable {x y z : String} {tokens : List OutputToken} {opened : List String}

theorem openElements?_append (h : openElements? x = some opened) (z : String) :
    openElements? (x ++ z) = (tags? z.toList).bind (nest .right opened) := by
  obtain ⟨marks, hm, ho⟩ := Option.bind_eq_some_iff.mp h
  rw [openElements?, String.toList_append, tags?_append hm, Option.bind_map]
  congr 1
  funext more
  rw [Function.comp_apply, nest_append, ho, Option.bind_some]

def Restores (opened : List String) (z : String) : Prop :=
  (tags? z.toList).bind (nest .right opened) = some opened

theorem restores_of_not_mem (h : '<' ∉ z.toList) (opened : List String) : Restores opened z := by
  rw [Restores, ← List.append_nil z.toList, tags?_content h]
  rfl

theorem Restores.openElements? (hz : Restores opened z) (h : openElements? x = some opened) :
    openElements? (x ++ z) = some opened := (openElements?_append h z).trans hz

theorem serialize_append (xs ys : List OutputToken) :
    serialize (xs ++ ys) = serialize xs ++ serialize ys := by
  rw [serialize, List.map_append, String.join_append]
  rfl

theorem openElements?_serialize (h : openElements? x = some opened)
    (ht : ∀ token ∈ tokens, Restores opened token.write) :
    openElements? (x ++ serialize tokens) = some opened := by
  induction tokens generalizing x with
  | nil => simpa [serialize] using h
  | cons token tokens ih =>
    obtain ⟨htoken, htokens⟩ := List.forall_mem_cons.mp ht
    rw [← List.singleton_append, serialize_append, ← String.append_assoc]
    refine ih ?_ htokens
    simpa [serialize] using htoken.openElements? h

def SameElements (x y : String) : Prop :=
  ∀ z, openElements? (x ++ z) = openElements? (y ++ z)

theorem SameElements.openElements? (h : SameElements x y) : openElements? x = openElements? y := by
  simpa using h ""

theorem SameElements.append (h : SameElements x y) (z : String) : SameElements (x ++ z) (y ++ z) := by
  intro after
  rw [String.append_assoc, String.append_assoc]
  exact h (z ++ after)

theorem sameElements_of_openElements? (hx : openElements? x = some opened)
    (hy : openElements? y = some opened) : SameElements x y := fun z =>
  (openElements?_append hx z).trans (openElements?_append hy z).symm

end

/-- A name that is read as written when it stands in a tag. -/
structure PlainName (name : String) : Prop where
  nonempty : name.toList ≠ []
  unbroken : name.toList.any Markup.endsName = false
  first : name.toList.head? ≠ some '!' ∧ name.toList.head? ≠ some '?'

namespace PlainName

variable {name : String}

theorem not_endsName (h : PlainName name) {c : Char} (hc : c ∈ name.toList) :
    Markup.endsName c = false := by
  simpa using List.any_eq_false.mp h.unbroken c hc

theorem takeWhile (h : PlainName name) {rest : List Char} {c : Char}
    (hc : Markup.endsName c = true) :
    (name.toList ++ c :: rest).takeWhile (!Markup.endsName ·) = name.toList := by
  rw [List.takeWhile_append_of_pos fun a ha => by rw [h.not_endsName ha]; rfl]
  simp [hc]

theorem terminator? (h : PlainName name) (rest : List Char) :
    Markup.terminator? ('<' :: (name.toList ++ rest)) = none := by
  obtain ⟨c, cs, hcs⟩ := List.exists_cons_of_ne_nil h.nonempty
  have hc : c ≠ '!' ∧ c ≠ '?' := by simpa [hcs] using h.first
  rw [hcs]
  simp [Markup.terminator?, Markup.verbatimForms, List.isPrefixOf, hc.1.symm, hc.2.symm]

theorem getLastD_ne (h : PlainName name) : name.toList.getLastD '<' ≠ '/' := by
  intro hl
  rw [List.getLastD_eq_getLast?, List.getLast?_eq_some_getLast h.nonempty, Option.getD_some] at hl
  have hu := h.not_endsName (List.getLast_mem h.nonempty)
  rw [hl] at hu
  cases hu

theorem read_opening (h : PlainName name) (rest : List Char) :
    Markup.read (name.toList ++ ['>'] ++ rest) =
      .tag name.toList .opening (name.toList ++ ['>']).length := by
  rw [Markup.read, List.append_assoc, h.terminator?]
  have hrest : Markup.tagRest? none (name.toList.getLastD '<') ('>' :: rest) =
      some (1, name.toList.getLastD '<') := rfl
  have htag := Markup.tagAt_parts (.inr rfl) h.nonempty (h.takeWhile rfl) hrest
  rw [if_neg (by simp), if_neg h.getLastD_ne] at htag
  simpa using htag

theorem read_selfClosing (h : PlainName name) (rest : List Char) :
    Markup.read (name.toList ++ ['/', '>'] ++ rest) =
      .tag name.toList .selfClosing (name.toList ++ ['/', '>']).length := by
  rw [Markup.read, List.append_assoc, h.terminator?]
  have hrest : Markup.tagRest? none (name.toList.getLastD '<') ('/' :: '>' :: rest) =
      some (2, '/') := rfl
  have htag := Markup.tagAt_parts (.inr rfl) h.nonempty (h.takeWhile rfl) hrest
  simpa using htag

theorem read_closing (h : PlainName name) (rest : List Char) :
    Markup.read ('/' :: (name.toList ++ ['>']) ++ rest) =
      .tag name.toList .closing ('/' :: (name.toList ++ ['>'])).length := by
  have hterm : Markup.terminator? ('<' :: ('/' :: (name.toList ++ ['>']) ++ rest)) = none := rfl
  rw [Markup.read, hterm]
  have hrest : Markup.tagRest? none (name.toList.getLastD '<') ('>' :: rest) =
      some (1, name.toList.getLastD '<') := rfl
  have htag := Markup.tagAt_parts (.inl rfl) h.nonempty (h.takeWhile rfl) hrest
  simpa [Nat.add_comm] using htag

end PlainName

section

variable {name : String}

theorem tags?_of_read {xs name : List Char} {part : TagPart}
    (h : ∀ after, Markup.read (xs ++ after) = .tag name part xs.length) :
    tags? ('<' :: xs) = some [(String.ofList name, part)] := by
  rw [← List.append_nil ('<' :: xs), tags?_tag h, tags?_nil, Option.map_some]

theorem tags?_opening (h : PlainName name) :
    tags? ("<" ++ name ++ ">").toList = some [(name, .opening)] := by
  have := tags?_of_read h.read_opening
  simpa using this

theorem tags?_selfClosing (h : PlainName name) :
    tags? ("<" ++ name ++ "/>").toList = some [(name, .selfClosing)] := by
  have := tags?_of_read h.read_selfClosing
  simpa using this

theorem tags?_closing (h : PlainName name) :
    tags? ("</" ++ name ++ ">").toList = some [(name, .closing)] := by
  have := tags?_of_read h.read_closing
  simpa using this

theorem tags?_join {text : String → String} {part : TagPart} {names : List String}
    (h : ∀ name ∈ names, tags? (text name).toList = some [(name, part)]) :
    tags? (String.join (names.map text)).toList = some (names.map (·, part)) := by
  induction names with
  | nil => rfl
  | cons name names ih =>
    obtain ⟨hname, hnames⟩ := List.forall_mem_cons.mp h
    rw [List.map_cons, String.join_cons, String.toList_append, tags?_append hname, ih hnames]
    rfl

theorem nest_closings (names outer : List String) :
    nest .right (names ++ outer) (names.map (·, TagPart.closing)) = some outer := by
  induction names with
  | nil => rfl
  | cons name names ih => exact (nest_exit .right _ name _).trans ih

theorem nest_openings (names outer : List String) :
    nest .right outer (names.map (·, TagPart.opening)) = some (names.reverse ++ outer) := by
  induction names generalizing outer with
  | nil => rfl
  | cons name names ih =>
    rw [List.reverse_cons, List.append_assoc]
    exact (nest_entry .right outer name _).trans (ih (name :: outer))

end

namespace LineBreaks

variable {b : LineBreaks} {s : String} {tokens : List OutputToken} {token : OutputToken}

structure Plain (b : LineBreaks) : Prop where
  tag : PlainName b.tag
  enclosing : ∀ name ∈ b.enclosing, PlainName name

/-- Where a text with a newline stands, the elements to close are the innermost ones. -/
def Encloses (b : LineBreaks) (tokens : List OutputToken) : Prop :=
  ∀ before s after, tokens = before ++ .text s :: after → '\n' ∈ s.toList →
    ∃ outer, openElements? (serialize before) = some (b.enclosing.reverse ++ outer)

theorem tags?_markup (hb : b.Plain) :
    tags? b.markup.toList = some (b.enclosing.reverse.map (·, TagPart.closing) ++
      (b.tag, .selfClosing) :: b.enclosing.map (·, TagPart.opening)) := by
  have hplain : ∀ name ∈ b.enclosing.reverse, PlainName name := fun name hn =>
    hb.enclosing name (List.mem_reverse.mp hn)
  have hclosings := tags?_join fun name hn => tags?_closing (hplain name hn)
  have hopenings := tags?_join fun name hn => tags?_opening (hb.enclosing name hn)
  have htag := tags?_selfClosing hb.tag
  have hmarkup : b.markup =
      String.join (b.enclosing.reverse.map fun name => "</" ++ name ++ ">") ++
        ("<" ++ b.tag ++ "/>" ++ String.join (b.enclosing.map fun name => "<" ++ name ++ ">")) := by
    simp only [markup, String.append_assoc]
  rw [hmarkup, String.toList_append, tags?_append hclosings, String.toList_append,
    tags?_append htag, hopenings]
  rfl

theorem restores_markup (hb : b.Plain) (outer : List String) :
    Restores (b.enclosing.reverse ++ outer) b.markup := by
  rw [Restores, tags?_markup hb, Option.bind_some, nest_append, nest_closings, Option.bind_some,
    nest_selfClosing, nest_openings]

theorem restores_text (s : String) (opened : List String) :
    Restores opened (OutputToken.text s).write := by
  refine restores_of_not_mem ?_ opened
  rw [OutputToken.write, escapeText, String.toList_ofList]
  exact not_mem_escape _

theorem Spells.forall_restores {xs : List OutputToken} {cs : List Char} (h : b.Spells xs cs)
    (hb : b.Plain) (outer : List String) :
    ∀ token ∈ xs, Restores (b.enclosing.reverse ++ outer) token.write := by
  induction h with
  | nil => exact nofun
  | text _ _ ih => exact List.forall_mem_cons.mpr ⟨restores_text _ _, ih⟩
  | newline _ ih => exact List.forall_mem_cons.mpr ⟨restores_markup hb outer, ih⟩

/-- What a text with a newline becomes leaves the elements open that it is in. -/
theorem restores_rewriteToken (hb : b.Plain) (h : '\n' ∈ s.toList) (outer : List String) :
    ∀ token ∈ b.rewriteToken (.text s), Restores (b.enclosing.reverse ++ outer) token.write := by
  rw [rewriteToken, if_pos h]
  exact (spells_splitText s.toList).forall_restores hb outer

theorem rewriteToken_cases (b : LineBreaks) (token : OutputToken) :
    b.rewriteToken token = [token] ∨ ∃ s, token = .text s ∧ '\n' ∈ s.toList := by
  cases token with
  | text s =>
    by_cases h : '\n' ∈ s.toList
    · exact .inr ⟨s, rfl, h⟩
    · exact .inl (if_neg h)
  | _ => exact .inl rfl

theorem Encloses.of_append {xs ys : List OutputToken} (h : b.Encloses (xs ++ ys)) :
    b.Encloses xs := by
  rintro before s after rfl hs
  exact h before s (after ++ ys) (by simp) hs

theorem sameElements_rewrite (hb : b.Plain) (hs : b.Encloses tokens) :
    SameElements (serialize tokens) (serialize (b.rewrite tokens)) := by
  induction tokens using List.reverseRecOn with
  | nil => exact fun _ => rfl
  | append_singleton tokens token ih =>
    have hbefore := ih hs.of_append
    rw [rewrite, List.flatMap_append, List.flatMap_singleton, serialize_append, serialize_append,
      ← rewrite]
    rcases b.rewriteToken_cases token with hsame | ⟨s, rfl, hn⟩
    · rw [hsame]
      exact hbefore.append _
    · obtain ⟨outer, hopen⟩ := hs tokens s [] rfl hn
      have htext : ∀ token ∈ [OutputToken.text s],
          Restores (b.enclosing.reverse ++ outer) token.write :=
        List.forall_mem_singleton.mpr (restores_text s _)
      exact sameElements_of_openElements? (openElements?_serialize hopen htext)
        (openElements?_serialize (hbefore.openElements?.symm.trans hopen)
          (restores_rewriteToken hb hn outer))

/-- Up to any token that stands for another one, the same elements are open as before that one. -/
theorem openElements?_rewrite {before after front back : List OutputToken} {kept : OutputToken}
    (hb : b.Plain) (hs : b.Encloses (before ++ token :: after))
    (hfront : b.rewriteToken token = front ++ kept :: back) :
    openElements? (serialize (b.rewrite before ++ front)) = openElements? (serialize before) := by
  have hbefore := (sameElements_rewrite hb hs.of_append).openElements?
  rcases b.rewriteToken_cases token with hsame | ⟨s, rfl, hn⟩
  · rw [hsame] at hfront
    obtain ⟨rfl, -, -⟩ : front = [] ∧ kept = token ∧ back = [] := by
      simpa [List.singleton_eq_append_iff] using hfront
    rw [List.append_nil, hbefore]
  · obtain ⟨outer, hopen⟩ := hs before s after rfl hn
    have hrestores := restores_rewriteToken hb hn outer
    rw [hfront] at hrestores
    rw [serialize_append, hopen]
    exact openElements?_serialize (hbefore.symm.trans hopen) fun token ht =>
      hrestores token (List.mem_append_left _ ht)

/-- With breaks, a well-nested document stays well nested, and each token that is left, and each
that is new, stands in the elements in which the token stood that it comes from. -/
theorem rewrite_reopens (hb : b.Plain) (hn : openElements? (serialize tokens) = some [])
    (hs : b.Encloses tokens) :
    openElements? (serialize (b.rewrite tokens)) = some [] ∧
      ∀ before token after, tokens = before ++ token :: after →
        b.rewrite tokens = b.rewrite before ++ (b.rewriteToken token ++ b.rewrite after) ∧
        ∀ front kept back, b.rewriteToken token = front ++ kept :: back →
          openElements? (serialize (b.rewrite before ++ front)) =
            openElements? (serialize before) := by
  refine ⟨(sameElements_rewrite hb hs).openElements?.symm.trans hn, ?_⟩
  rintro before token after rfl
  refine ⟨?_, fun front kept back hfront => openElements?_rewrite hb hs hfront⟩
  rw [rewrite, List.flatMap_append, List.flatMap_cons, rewrite, rewrite]

def twoLines : List OutputToken :=
  [.raw (.tag "p" .opening "<p>" 0 false), .raw (.tag "r" .opening "<r>" 3 false),
    .raw (.tag "t" .opening "<t a='>'>" 6 true), .text "a\n<",
    .raw (.tag "t" .closing "</t>" 19 true), .raw (.tag "r" .closing "</r>" 23 false),
    .raw (.tag "p" .closing "</p>" 27 false)]

def betweenRuns : LineBreaks := ⟨"br", ["r", "t"]⟩

theorem rewrite_reopens_twoLines :
    betweenRuns.Plain ∧ betweenRuns.Encloses twoLines ∧
      serialize (betweenRuns.rewrite twoLines) =
        "<p><r><t a='>'>a</t></r><br/><r><t>&lt;</t></r></p>" ∧
      openElements? (serialize (betweenRuns.rewrite twoLines)) = some [] ∧
      openElements? "<p><r><t a='>'>a</t></r><br/><r><t>" = some ["t", "r", "p"] := by
  have hplain : betweenRuns.Plain := by
    constructor
    · constructor <;> decide
    · simp only [betweenRuns, List.forall_mem_cons]
      refine ⟨?_, ?_, List.forall_mem_nil _⟩
      all_goals constructor <;> decide
  have hencloses : betweenRuns.Encloses twoLines := by
    intro before s after h _
    have hbefore : before = twoLines.take 3 := by
      simp [twoLines, List.cons_eq_append_iff] at h
      exact h.1
    exact ⟨["p"], hbefore ▸ rfl⟩
  have hnested : openElements? (serialize twoLines) = some [] := by decide +kernel
  obtain ⟨hclosed, hplaces⟩ := rewrite_reopens hplain hnested hencloses
  have hlines : betweenRuns.rewriteToken (.text "a\n<") =
      [.text "a", .markup "</t></r><br/><r><t>"] ++ .text "<" :: [] := by decide +kernel
  have hsecond := (hplaces (twoLines.take 3) _ (twoLines.drop 4) rfl).2 _ _ _ hlines
  exact ⟨hplain, hencloses, by decide +kernel, hclosed, hsecond⟩

end LineBreaks

end DocTemplate
