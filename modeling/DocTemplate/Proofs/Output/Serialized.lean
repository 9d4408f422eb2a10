import DocTemplate.Output.Token
import DocTemplate.Proofs.Markup.Pieces
import DocTemplate.Proofs.Text.Decoding

namespace DocTemplate

/-- What the items between the ones that `cut` picks stand for, one after the other; there is one
text more than there are such items. -/
def textsBetween {α : Type} (cut : α → Bool) (text : α → List Char) (items : List α) :
    List (List Char) := (items.splitOnP cut).map (·.flatMap text)

namespace RawToken

def chars (t : RawToken) : List Char := t.text.toList

def IsPiece (t : RawToken) : Prop :=
  ∃ textTags document pieces, tokenize textTags document = .ok pieces ∧ t ∈ pieces

end RawToken

namespace OutputToken

def isMarkup : OutputToken → Bool
  | raw t => t.isMarkup
  | markup _ => true
  | _ => false

def chars (t : OutputToken) : List Char := t.write.toList

theorem toList_serialize (tokens : List OutputToken) :
    (serialize tokens).toList = tokens.flatMap chars := by
  rw [serialize, String.toList_join, List.flatMap_map]
  rfl

def Escaped : OutputToken → Prop
  | raw t => t.IsPiece
  | markup _ => False
  | _ => True

def meaning : OutputToken → List Char
  | text s => s.toList
  | raw t => decode t.chars
  | _ => []

end OutputToken

section

variable {α : Type} {cut : α → Bool} {text : α → List Char}

@[simp]
theorem textsBetween_nil : textsBetween cut text [] = [[]] := by
  simp [textsBetween]

theorem textsBetween_cons (x : α) (xs : List α) : textsBetween cut text (x :: xs) =
    if cut x then [] :: textsBetween cut text xs
    else (textsBetween cut text xs).modifyHead (text x ++ ·) := by
  unfold textsBetween
  rw [List.splitOnP_cons_eq_if_modifyHead]
  split
  · rfl
  · cases List.splitOnP cut xs <;> rfl

theorem mem_of_mem_splitOnP {items run : List α} {x : α} (hr : run ∈ items.splitOnP cut)
    (hx : x ∈ run) : x ∈ items ∧ cut x = false := by
  induction items generalizing run with
  | nil =>
    rw [List.splitOnP_nil, List.mem_singleton] at hr
    rw [hr] at hx
    cases hx
  | cons a items ih =>
    rw [List.splitOnP_cons_eq_if_modifyHead] at hr
    split at hr
    next =>
      rcases List.mem_cons.mp hr with rfl | hr
      · cases hx
      · exact (ih hr hx).imp_left (List.mem_cons_of_mem a)
    next ha =>
      obtain ⟨first, others, hs⟩ := List.exists_cons_of_ne_nil (List.splitOnP_ne_nil cut items)
      rw [hs] at hr ih
      rcases List.mem_cons.mp hr with rfl | hr
      · rcases List.mem_cons.mp hx with rfl | hx
        · exact ⟨List.mem_cons_self, by simpa using ha⟩
        · exact (ih List.mem_cons_self hx).imp_left (List.mem_cons_of_mem a)
      · exact (ih (List.mem_cons_of_mem _ hr) hx).imp_left (List.mem_cons_of_mem a)

end

namespace Markup

theorem exists_cut (textTags : List String) {m : Markup} {xs : List Char}
    (h : ∀ after, read (xs ++ after) = m) (hm : m.more? = some xs.length) (pos depth : Nat) :
    ∃ piece depth', piece.isMarkup = true ∧ piece.text = String.ofList ('<' :: xs) ∧
      ∀ rest pieces, Cut textTags (pos + byteLength ('<' :: xs)) depth' rest pieces →
        Cut textTags pos depth ('<' :: xs ++ rest) (piece :: pieces) := by
  cases m with
  | verbatim more =>
    obtain rfl := Option.some.inj hm
    exact ⟨_, depth, rfl, rfl, fun rest pieces hc => .verbatim h hc⟩
  | tag name part more =>
    obtain rfl := Option.some.inj hm
    exact ⟨_, _, rfl, rfl, fun rest pieces hc => .tag h hc⟩
  | _ => cases hm

end Markup

theorem Cut.delimited {textTags : List String} {pos depth : Nat} {cs : List Char}
    {pieces : List RawToken} {t : RawToken} (h : Cut textTags pos depth cs pieces)
    (ht : t ∈ pieces) :
    (t.isMarkup = false ∧ '<' ∉ t.chars) ∨
      (t.isMarkup = true ∧ ∃ xs m, t.chars = '<' :: xs ∧ m.more? = some xs.length ∧
        ∀ after, Markup.read (xs ++ after) = m) := by
  induction h with
  | nil => cases ht
  | content hc hn hr _ ih =>
    rcases List.mem_cons.mp ht with rfl | ht
    · exact .inl ⟨rfl, by rwa [RawToken.chars, RawToken.text, String.toList_ofList]⟩
    · exact ih ht
  | verbatim hx _ ih =>
    rcases List.mem_cons.mp ht with rfl | ht
    · exact .inr ⟨rfl, _, _, String.toList_ofList, rfl, hx⟩
    · exact ih ht
  | tag hx _ ih =>
    rcases List.mem_cons.mp ht with rfl | ht
    · exact .inr ⟨rfl, _, _, String.toList_ofList, rfl, hx⟩
    · exact ih ht

theorem OutputToken.Escaped.delimited {t : OutputToken} (h : t.Escaped) :
    (t.isMarkup = false ∧ '<' ∉ t.chars) ∨
      (t.isMarkup = true ∧ ∃ xs m, t.chars = '<' :: xs ∧ m.more? = some xs.length ∧
        ∀ after, Markup.read (xs ++ after) = m) := by
  cases t with
  | text s =>
    refine .inl ⟨rfl, ?_⟩
    rw [chars, write, escapeText, String.toList_ofList]
    exact not_mem_escape _
  | markup s => cases h
  | raw t =>
    obtain ⟨textTags, document, pieces, hp, ht⟩ := h
    exact (tokenizeFrom_eq_ok.mp hp).delimited ht
  | sentinel => exact .inl ⟨rfl, by simp [chars, write]⟩

section

variable (textTags : List String) {pos depth : Nat} {pending rest : List Char}

theorem Cut.exists_pending {pieces : List RawToken} (hn : '<' ∉ pending)
    (hr : ∀ c ∈ rest.head?, c = '<')
    (h : Cut textTags (pos + byteLength pending) depth rest pieces) :
    ∃ pieces', Cut textTags pos depth (pending ++ rest) pieces' ∧
      pieces'.filter RawToken.isMarkup = pieces.filter RawToken.isMarkup ∧
      textsBetween RawToken.isMarkup RawToken.chars pieces' =
        (textsBetween RawToken.isMarkup RawToken.chars pieces).modifyHead (pending ++ ·) := by
  by_cases hp : pending = []
  · subst hp
    refine ⟨pieces, h, rfl, ?_⟩
    cases textsBetween RawToken.isMarkup RawToken.chars pieces <;> rfl
  · refine ⟨_, .content hp hn hr h, rfl, ?_⟩
    rw [textsBetween_cons]
    simp [RawToken.isMarkup, RawToken.chars, RawToken.text]

theorem exists_cut_write {tokens : List OutputToken} (h : ∀ t ∈ tokens, t.Escaped)
    (pos depth : Nat) (hn : '<' ∉ pending) :
    ∃ pieces, Cut textTags pos depth (pending ++ tokens.flatMap OutputToken.chars) pieces ∧
      (pieces.filter RawToken.isMarkup).map RawToken.text =
        (tokens.filter OutputToken.isMarkup).map OutputToken.write ∧
      textsBetween RawToken.isMarkup RawToken.chars pieces =
        (textsBetween OutputToken.isMarkup OutputToken.chars tokens).modifyHead (pending ++ ·) := by
  -- texts next to each other make one content, so the text that is not yet cut is carried along
  induction tokens generalizing pending pos depth with
  | nil =>
    have hnil : Cut textTags (pos + byteLength pending) depth [] [] := .nil
    obtain ⟨pieces, hc, hm, ht⟩ := Cut.exists_pending textTags hn (by simp) hnil
    exact ⟨pieces, hc, by simp [hm], by simp [ht]⟩
  | cons t tokens ih =>
    have hts : ∀ t ∈ tokens, t.Escaped := fun s hs => h s (List.mem_cons_of_mem _ hs)
    rcases (h t List.mem_cons_self).delimited with ⟨ht, hlt⟩ | ⟨ht, xs, m, hxs, hm, hread⟩
    · have hn' : '<' ∉ pending ++ t.chars := by simp [hn, hlt]
      obtain ⟨pieces, hc, hmarks, htexts⟩ := ih hts pos depth hn'
      refine ⟨pieces, ?_, ?_, ?_⟩
      · rwa [List.flatMap_cons, ← List.append_assoc]
      · rw [List.filter_cons_of_neg (by simp [ht]), hmarks]
      · rw [htexts, textsBetween_cons, if_neg (by simp [ht]), List.modifyHead_modifyHead]
        congr 1
        funext text
        exact List.append_assoc ..
    · obtain ⟨piece, depth', hp, htext, hcut⟩ :=
        Markup.exists_cut textTags hread hm (pos + byteLength pending) depth
      obtain ⟨pieces, hc, hmarks, htexts⟩ := ih hts
        (pos + byteLength pending + byteLength ('<' :: xs)) depth' List.not_mem_nil
      obtain ⟨pieces', hc', hmarks', htexts'⟩ :=
        Cut.exists_pending textTags hn (by simp) (hcut _ _ hc)
      have hwrite : t.write = piece.text := by
        rw [htext, ← hxs, OutputToken.chars, String.ofList_toList]
      refine ⟨pieces', ?_, ?_, ?_⟩
      · rwa [List.flatMap_cons, hxs]
      · rw [hmarks', List.filter_cons_of_pos hp, List.filter_cons_of_pos ht, List.map_cons,
          List.map_cons, hmarks, hwrite]
      · rw [htexts', textsBetween_cons, if_pos hp, textsBetween_cons, if_pos ht, htexts]
        cases textsBetween OutputToken.isMarkup OutputToken.chars tokens <;> rfl

end

theorem OutputToken.decode_chars {t : OutputToken} (ht : t.isMarkup = false)
    (hraw : ∀ piece, t = .raw piece → hasBareAmpersand t.chars = false) :
    hasBareAmpersand t.chars = false ∧ decode t.chars = t.meaning := by
  cases t with
  | text s =>
    rw [chars, write, escapeText, String.toList_ofList]
    exact ⟨hasBareAmpersand_escape _, decode_escape _⟩
  | markup s => cases ht
  | raw piece => exact ⟨hraw piece rfl, rfl⟩
  | sentinel =>
    exact ⟨by simp [chars, write, hasBareAmpersand], by simp [chars, write, meaning]; rfl⟩

theorem decode_run {run : List OutputToken}
    (h : ∀ t ∈ run, hasBareAmpersand t.chars = false ∧ decode t.chars = t.meaning) :
    decode (run.flatMap OutputToken.chars) = run.flatMap OutputToken.meaning := by
  induction run with
  | nil => rfl
  | cons t run ih =>
    obtain ⟨hamp, hdecode⟩ := h t List.mem_cons_self
    rw [List.flatMap_cons, decode_append hamp, hdecode, List.flatMap_cons,
      ih fun s hs => h s (List.mem_cons_of_mem _ hs)]

/-- Reading what is written: the markup that comes out is the markup of the pieces, in order, and
what stands between decodes to the texts that were written, unless a piece of content has an
ampersand that starts no entity. -/
theorem tokenize_serialize (textTags : List String) (tokens : List OutputToken)
    (h : ∀ t ∈ tokens, t.Escaped) :
    ∃ pieces, tokenize textTags (serialize tokens) = .ok pieces ∧
      (pieces.filter RawToken.isMarkup).map RawToken.text =
        (tokens.filter OutputToken.isMarkup).map OutputToken.write ∧
      ((∀ text offset insideText, OutputToken.raw (.content text offset insideText) ∈ tokens →
          hasBareAmpersand text.toList = false) →
        (textsBetween RawToken.isMarkup RawToken.chars pieces).map decode =
          textsBetween OutputToken.isMarkup OutputToken.meaning tokens) := by
  obtain ⟨pieces, hc, hmarks, htexts⟩ :=
    exists_cut_write textTags h 0 0 List.not_mem_nil
  refine ⟨pieces, ?_, hmarks, fun hamp => ?_⟩
  · rw [tokenize, OutputToken.toList_serialize]
    exact hc.tokenizeFrom
  · have hhead (texts : List (List Char)) : texts.modifyHead ([] ++ ·) = texts := by
      cases texts <;> rfl
    rw [htexts, hhead, textsBetween, textsBetween, List.map_map]
    refine List.map_congr_left fun run hrun => decode_run fun t ht => ?_
    obtain ⟨htokens, hmark⟩ := mem_of_mem_splitOnP hrun ht
    refine OutputToken.decode_chars hmark fun piece he => ?_
    subst he
    cases piece with
    | content text offset insideText => exact hamp text offset insideText htokens
    | _ => cases hmark

def mixedElement : List OutputToken :=
  [.raw (.tag "t" .opening "<t>" 0 true), .raw (.content "a &amp; " 3 true), .text "1 < 2",
    .raw (.tag "t" .closing "</t>" 11 true)]

theorem tokenize_serialize_mixedElement :
    (∀ t ∈ mixedElement, t.Escaped) ∧
      ∃ pieces, tokenize ["t"] (serialize mixedElement) = .ok pieces ∧
        (pieces.filter RawToken.isMarkup).map RawToken.text = ["<t>", "</t>"] ∧
        (textsBetween RawToken.isMarkup RawToken.chars pieces).map decode =
          [[], "a & 1 < 2".toList, []] := by
  have hread : tokenize ["t"] "<t>a &amp; </t>" =
      .ok [.tag "t" .opening "<t>" 0 true, .content "a &amp; " 3 true,
        .tag "t" .closing "</t>" 11 true] := by rfl
  have hescaped : ∀ t ∈ mixedElement, t.Escaped := by
    simp only [mixedElement, List.forall_mem_cons]
    exact ⟨⟨_, _, _, hread, by simp⟩, ⟨_, _, _, hread, by simp⟩, trivial,
      ⟨_, _, _, hread, by simp⟩, by simp⟩
  have hamp : ∀ text offset insideText,
      OutputToken.raw (.content text offset insideText) ∈ mixedElement →
        hasBareAmpersand text.toList = false := by
    intro text offset insideText ht
    simp only [mixedElement, List.mem_cons, OutputToken.raw.injEq, RawToken.content.injEq,
      reduceCtorEq, false_or, or_false, List.not_mem_nil] at ht
    obtain ⟨rfl, -, -⟩ := ht
    rfl
  obtain ⟨pieces, hp, hmarks, htexts⟩ := tokenize_serialize ["t"] mixedElement hescaped
  exact ⟨hescaped, pieces, hp, hmarks, htexts hamp⟩

end DocTemplate
