import Mathlib.Algebra.Ring.Nat
import Mathlib.Data.List.Chain
import DocTemplate.Proofs.Markup.Pieces
import DocTemplate.Proofs.Text.Slices

namespace DocTemplate

theorem utf8ByteSize_join (texts : List String) :
    (String.join texts).utf8ByteSize = (texts.map String.utf8ByteSize).sum := by
  induction texts with
  | nil => rfl
  | cons text texts ih =>
    rw [String.join_cons, String.utf8ByteSize_append, ih, List.map_cons, List.sum_cons]

/-- Text in which every quote is closed, and in which a `>` stands inside of quotes only. -/
inductive Guarded : List Char → Prop
  | nil : Guarded []
  | plain {c : Char} {cs : List Char} : c ≠ '>' → c ≠ '"' → c ≠ '\x27' → Guarded cs →
      Guarded (c :: cs)
  | quoted {q : Char} {inner cs : List Char} : q = '"' ∨ q = '\x27' → q ∉ inner → Guarded cs →
      Guarded (q :: (inner ++ q :: cs))

/-- The text of a tag: after the `<`, and a slash if it has one, stands the name, and after that
text in which `>` is guarded, up to the last character. -/
def IsTag (name : String) (text : List Char) : Prop :=
  ∃ lead attributes, text = '<' :: (lead ++ name.toList ++ attributes ++ ['>']) ∧
    (lead = ['/'] ∨ lead = []) ∧ name ≠ "" ∧ (∀ c ∈ name.toList, Markup.endsName c = false) ∧
    Guarded attributes

namespace Markup

variable {cs pattern : List Char}

def GuardedFrom (quote : Option Char) (cs : List Char) : Prop :=
  match quote with
  | none => Guarded cs
  | some q => ∃ inner rest, cs = inner ++ q :: rest ∧ q ∉ inner ∧ Guarded rest

theorem tagRest?_guarded {quote : Option Char} {last l : Char} {n : Nat}
    (h : tagRest? quote last cs = some (n, l)) :
    ∃ xs after, cs = xs ++ '>' :: after ∧ n = xs.length + 1 ∧ GuardedFrom quote xs := by
  induction cs generalizing quote last n with
  | nil => cases h
  | cons c cs ih =>
    cases quote with
    | some q =>
      obtain ⟨⟨m, l'⟩, hm, he⟩ := Option.map_eq_some_iff.mp h
      obtain ⟨rfl, rfl⟩ := Prod.mk.inj he
      obtain ⟨xs, after, rfl, rfl, hx⟩ := ih hm
      refine ⟨c :: xs, after, rfl, rfl, ?_⟩
      by_cases hc : c = q
      · rw [if_pos hc] at hx
        exact ⟨[], xs, by rw [hc]; rfl, List.not_mem_nil, hx⟩
      · rw [if_neg hc] at hx
        obtain ⟨inner, rest, rfl, hq, hr⟩ := hx
        exact ⟨c :: inner, rest, rfl, by simp [Ne.symm hc, hq], hr⟩
    | none =>
      unfold tagRest? at h
      simp only at h
      split at h
      next hc =>
        obtain ⟨rfl, rfl⟩ := Prod.mk.inj (Option.some.inj h)
        exact ⟨[], cs, by rw [hc]; rfl, rfl, .nil⟩
      next hc =>
        obtain ⟨⟨m, l'⟩, hm, he⟩ := Option.map_eq_some_iff.mp h
        obtain ⟨rfl, rfl⟩ := Prod.mk.inj he
        obtain ⟨xs, after, rfl, rfl, hx⟩ := ih hm
        refine ⟨c :: xs, after, rfl, rfl, ?_⟩
        by_cases hq : c = '"' ∨ c = '\x27'
        · rw [if_pos hq] at hx
          obtain ⟨inner, rest, rfl, hi, hr⟩ := hx
          exact .quoted hq hi hr
        · rw [if_neg hq] at hx
          exact .plain hc (fun he => hq (.inl he)) (fun he => hq (.inr he)) hx

theorem tagAt_of_read {name : List Char} {part : TagPart} {more : Nat}
    (h : read cs = tag name part more) : tagAt cs = tag name part more := by
  unfold read at h
  split at h
  next => split at h <;> cases h
  next => exact h

theorem isTag_of_read {name : List Char} {part : TagPart} (h : read cs = tag name part cs.length) :
    IsTag (String.ofList name) ('<' :: cs) := by
  have htag := tagAt_of_read h
  obtain ⟨lead, body, last, n, rfl, hlead, hname, htake, hn⟩ := tagAt_eq_tag htag
  rw [tagAt_parts hlead hname htake hn] at htag
  obtain ⟨-, -, hlength⟩ := Markup.tag.inj htag
  obtain ⟨xs, after, rfl, rfl, hx⟩ := tagRest?_guarded hn
  obtain rfl : after = [] := by
    rw [← List.length_eq_zero_iff]
    simp at hlength
    omega
  refine ⟨lead, xs, by simp, hlead, by simpa [← String.toList_inj] using hname, fun c hc => ?_, hx⟩
  rw [String.toList_ofList, ← htake] at hc
  simpa using List.all_eq_true.mp List.all_takeWhile c hc

theorem terminator?_form (h : terminator? cs = some pattern) :
    ∃ form ∈ verbatimForms, form.1 <+: cs ∧ form.2 = pattern := by
  obtain ⟨form, hf, rfl⟩ := Option.map_eq_some_iff.mp h
  have hprefix := List.find?_some hf
  rw [List.isPrefixOf_iff_prefix] at hprefix
  exact ⟨form, List.mem_of_find?_eq_some hf, hprefix, rfl⟩

theorem exists_form_of_read (h : read cs = verbatim cs.length) :
    ∃ form ∈ verbatimForms, form.1 <+: '<' :: cs ∧ form.2 <:+ '<' :: cs := by
  unfold read at h
  split at h
  next terminator hterm =>
    obtain ⟨form, hf, hprefix, rfl⟩ := terminator?_form hterm
    split at h
    next length hlen =>
      obtain ⟨xs, after, hcs, rfl, -⟩ := lengthThrough?_eq_some hlen
      have hlength := congrArg List.length hcs
      have hmore := Markup.verbatim.inj h
      have hform := congrArg List.length (verbatimForms_mark form hf).2
      obtain rfl : after = [] := by
        rw [← List.length_eq_zero_iff]
        simp at hlength hmore hform
        omega
      rw [List.append_nil] at hcs
      exact ⟨form, hf, hprefix, xs, hcs.symm⟩
    next => cases h
  next => exact absurd h (tagAt_ne_verbatim cs _)

end Markup

/-- What the text of a piece looks like. -/
def RawToken.Formed : RawToken → Prop
  | content text _ _ => text ≠ "" ∧ '<' ∉ text.toList
  | verbatim text _ => ∃ form ∈ Markup.verbatimForms,
      form.1 <+: text.toList ∧ form.2 <:+ text.toList
  | tag name _ text _ _ => IsTag name text.toList

theorem RawToken.Formed.text_ne_empty {piece : RawToken} (h : piece.Formed) : piece.text ≠ "" := by
  cases piece with
  | content text => exact h.1
  | verbatim text =>
    obtain ⟨form, hf, -, hsuffix⟩ := h
    rintro rfl
    have hnil := List.suffix_nil.mp hsuffix
    rw [(Markup.verbatimForms_mark form hf).2] at hnil
    simp at hnil
  | tag name part text =>
    obtain ⟨lead, attributes, htext, -⟩ := h
    rintro rfl
    cases htext

namespace Cut

variable {textTags : List String} {pos depth : Nat} {cs : List Char} {pieces : List RawToken}

theorem formed (h : Cut textTags pos depth cs pieces) : ∀ piece ∈ pieces, piece.Formed := by
  induction h with
  | nil => exact nofun
  | @content _ _ cs _ _ hc hn _ _ ih =>
    refine List.forall_mem_cons.mpr ⟨⟨by simpa [← String.toList_inj] using hc, ?_⟩, ih⟩
    rwa [String.toList_ofList]
  | verbatim hx _ ih =>
    have hread := hx []
    rw [List.append_nil] at hread
    refine List.forall_mem_cons.mpr ⟨?_, ih⟩
    rw [RawToken.Formed, String.toList_ofList]
    exact Markup.exists_form_of_read hread
  | tag hx _ ih =>
    have hread := hx []
    rw [List.append_nil] at hread
    refine List.forall_mem_cons.mpr ⟨?_, ih⟩
    rw [RawToken.Formed, String.toList_ofList]
    exact Markup.isTag_of_read hread

theorem head_isMarkup (h : Cut textTags pos depth cs pieces) (hc : ∀ c ∈ cs.head?, c = '<') :
    ∀ piece ∈ pieces.head?, piece.isMarkup = true := by
  cases h with
  | nil => exact nofun
  | @content _ _ cs rest _ hne hn _ _ =>
    obtain ⟨c, cs, rfl⟩ := List.exists_cons_of_ne_nil hne
    obtain rfl := hc c rfl
    simp at hn
  | verbatim | tag =>
    rintro _ ⟨⟩
    rfl

theorem no_adjacent_content (h : Cut textTags pos depth cs pieces) :
    pieces.IsChain fun piece next => piece.isMarkup = true ∨ next.isMarkup = true := by
  induction h with
  | nil => exact .nil
  | content _ _ hr h ih =>
    exact List.isChain_cons.mpr ⟨fun next hn => .inr (h.head_isMarkup hr next hn), ih⟩
  | verbatim _ _ ih | tag _ _ ih => exact List.isChain_cons.mpr ⟨fun _ _ => .inl rfl, ih⟩

end Cut

theorem Placed.offset {pos : Nat} {before after : List RawToken} {piece : RawToken}
    (h : Placed pos (before ++ piece :: after)) :
    piece.offset = Span.clamp (pos + (before.map (·.text.utf8ByteSize)).sum) := by
  induction before generalizing pos with
  | nil => exact h.1
  | cons first before ih =>
    have hoffset := ih h.2
    rw [byteLength_eq_utf8ByteSize, String.ofList_toList] at hoffset
    rw [hoffset, List.map_cons, List.sum_cons, Nat.add_assoc]

/-- The text has pieces up to a `<` at which nothing can be read, and the fault is there. -/
def StuckAt (textTags : List String) (pos depth : Nat) (cs : List Char) (fault : MarkupFault) :
    Prop :=
  ∃ before rest pieces, cs = before ++ '<' :: rest ∧ Cut textTags pos depth before pieces ∧
    fault.span.start = Span.clamp (pos + byteLength before) ∧
    fault.lexeme.toList <+: '<' :: rest ∧
    (Markup.read rest = .unterminated ∧ fault.cause = .unterminated ∨
      (∃ more, Markup.read rest = .unnamed more) ∧ fault.cause = .missingTagName)

section

variable {textTags : List String} {pos depth depth' : Nat} {xs cs : List Char}
  {fault : MarkupFault}

theorem StuckAt.prepend (h : StuckAt textTags (pos + byteLength xs) depth' cs fault)
    (hcut : ∀ before pieces, before <+: cs →
      Cut textTags (pos + byteLength xs) depth' before pieces →
        ∃ pieces', Cut textTags pos depth (xs ++ before) pieces') :
    StuckAt textTags pos depth (xs ++ cs) fault := by
  obtain ⟨before, rest, pieces, rfl, hc, hstart, hlexeme, hread⟩ := h
  obtain ⟨pieces', hc'⟩ := hcut before pieces (List.prefix_append ..) hc
  refine ⟨xs ++ before, rest, pieces', by rw [List.append_assoc], hc', ?_, hlexeme, hread⟩
  rw [hstart, byteLength_append, Nat.add_assoc]

theorem stuckAt_of_tokenizeFrom (h : tokenizeFrom textTags pos depth 0 cs = .error fault) :
    StuckAt textTags pos depth cs fault := by
  -- a piece takes several characters, so the induction is on how much text is left
  induction hl : cs.length using Nat.strongRecOn generalizing cs pos depth with
  | _ n ih =>
    subst hl
    cases cs with
    | nil => cases h
    | cons c cs =>
      by_cases hc : c = '<'
      · subst hc
        cases hm : Markup.read cs with
        | verbatim more =>
          obtain ⟨xs, after, rfl, rfl, hx⟩ := Markup.exists_split hm rfl
          rw [← List.cons_append, tokenizeFrom_verbatim hx, map_eq_error] at h
          have hstuck := ih after.length (by grind) h rfl
          exact hstuck.prepend fun _ _ _ hcut => ⟨_, .verbatim hx hcut⟩
        | tag name part more =>
          obtain ⟨xs, after, rfl, rfl, hx⟩ := Markup.exists_split hm rfl
          rw [← List.cons_append, tokenizeFrom_tag hx, map_eq_error] at h
          have hstuck := ih after.length (by grind) h rfl
          exact hstuck.prepend fun _ _ _ hcut => ⟨_, .tag hx hcut⟩
        | unnamed more =>
          rw [tokenizeFrom, if_neg (by simp)] at h
          simp only [hm] at h
          obtain rfl := Except.error.inj h
          refine ⟨[], cs, [], rfl, .nil, rfl, ?_, .inr ⟨⟨more, hm⟩, rfl⟩⟩
          rw [String.toList_ofList, List.prefix_cons_inj]
          exact List.take_prefix more cs
        | unterminated =>
          rw [tokenizeFrom, if_neg (by simp)] at h
          simp only [hm] at h
          obtain rfl := Except.error.inj h
          refine ⟨[], cs, [], rfl, .nil, rfl, ?_, .inl ⟨hm, rfl⟩⟩
          rw [String.toList_ofList]
          exact List.take_prefix _ _
      · obtain ⟨xs, rest, rfl, hn, hr⟩ := exists_content hc cs
        rw [← List.cons_append, tokenizeFrom_content (List.cons_ne_nil c xs) hn hr,
          map_eq_error] at h
        have hstuck := ih rest.length (by grind) h rfl
        refine hstuck.prepend fun before _ hbefore hcut =>
          ⟨_, .content (List.cons_ne_nil c xs) hn (fun d hd => ?_) hcut⟩
        obtain ⟨after, rfl⟩ := hbefore
        exact hr d (List.mem_head?_append_of_mem_head? hd)

end

/-- A document has pieces that tile it, or a fault at a `<` up to which it has such pieces. -/
theorem tokenize_tiles (textTags : List String) (document : String) :
    (∃ pieces, tokenize textTags document = .ok pieces ∧
      String.join (pieces.map RawToken.text) = document ∧
      (∀ piece ∈ pieces, piece.text ≠ "") ∧
      (document.utf8ByteSize ≤ Span.limit → ∀ before piece after,
        pieces = before ++ piece :: after →
          piece.offset = (before.map (·.text.utf8ByteSize)).sum) ∧
      (pieces.IsChain fun piece next => piece.isMarkup = true ∨ next.isMarkup = true) ∧
      (∀ text offset insideText, .content text offset insideText ∈ pieces → '<' ∉ text.toList) ∧
      ∀ name part text offset isText, .tag name part text offset isText ∈ pieces →
        IsTag name text.toList) ∨
    ∃ fault before rest pieces, tokenize textTags document = .error fault ∧
      document = String.ofList (before ++ '<' :: rest) ∧
      tokenize textTags (String.ofList before) = .ok pieces ∧
      fault.span.start = Span.clamp (byteLength before) ∧
      fault.lexeme.toList <+: '<' :: rest ∧
      (fault.cause.message = "Unterminated markup." ∧ Markup.read rest = .unterminated ∨
        fault.cause.message = "Expected a tag name after '<'." ∧
          ∃ more, Markup.read rest = .unnamed more) := by
  cases h : tokenize textTags document with
  | ok pieces =>
    have hcut := tokenizeFrom_eq_ok.mp h
    have hjoin : String.join (pieces.map RawToken.text) = document := by
      rw [← String.toList_inj, String.toList_join, List.flatMap_map]
      exact hcut.text
    refine .inl ⟨pieces, rfl, hjoin, fun piece hp => (hcut.formed piece hp).text_ne_empty,
      fun hsize before piece after he => ?_, hcut.no_adjacent_content,
      fun text offset insideText hp => (hcut.formed _ hp).2,
      fun name part text offset isText hp => hcut.formed _ hp⟩
    subst he
    have hle : (before.map (·.text.utf8ByteSize)).sum ≤ document.utf8ByteSize := by
      rw [← hjoin, utf8ByteSize_join, List.map_map, List.map_append, List.sum_append]
      exact Nat.le_add_right _ _
    rw [hcut.placed.offset, Nat.zero_add]
    exact Span.clamp_of_le (Nat.le_trans hle hsize)
  | error fault =>
    obtain ⟨before, rest, pieces, hd, hcut, hstart, hlexeme, hcause⟩ := stuckAt_of_tokenizeFrom h
    refine .inr ⟨fault, before, rest, pieces, rfl, ?_, ?_, ?_, hlexeme, ?_⟩
    · rw [← hd, String.ofList_toList]
    · rw [tokenize, String.toList_ofList]
      exact hcut.tokenizeFrom
    · rwa [Nat.zero_add] at hstart
    · obtain ⟨hread, hc⟩ | ⟨hread, hc⟩ := hcause
      · exact .inl ⟨by rw [hc]; rfl, hread⟩
      · exact .inr ⟨by rw [hc]; rfl, hread⟩

def quotedMark : String := "<!-- é > --><a b='>'>1 &gt; 2</a>"

theorem tokenize_tiles_quotedMark :
    quotedMark.utf8ByteSize ≤ Span.limit ∧
      ∃ pieces, tokenize ["a"] quotedMark = .ok pieces ∧
        pieces.map RawToken.text = ["<!-- é > -->", "<a b='>'>", "1 &gt; 2", "</a>"] ∧
        ∀ before piece after, pieces = before ++ piece :: after →
          piece.offset = (before.map (·.text.utf8ByteSize)).sum := by
  have hread : tokenize ["a"] quotedMark =
      .ok [.verbatim "<!-- é > -->" 0, .tag "a" .opening "<a b='>'>" 13 true,
        .content "1 &gt; 2" 22 true, .tag "a" .closing "</a>" 30 true] := by rfl
  have hsize : quotedMark.utf8ByteSize ≤ Span.limit := by decide
  obtain ⟨pieces, hp, -, -, hoffset, -⟩ | ⟨fault, _, _, _, hf, -⟩ := tokenize_tiles ["a"] quotedMark
  · refine ⟨hsize, pieces, hp, ?_, hoffset hsize⟩
    obtain rfl := Except.ok.inj (hread.symm.trans hp)
    rfl
  · cases hread.symm.trans hf

end DocTemplate
