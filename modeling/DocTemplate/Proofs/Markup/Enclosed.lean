import DocTemplate.Proofs.Markup.Pieces
import Mathlib.Data.List.Infix

namespace DocTemplate

/-- What keeps a body of text out of the markup and of the text of a document. -/
inductive Enclosure where
  | comment
  | characterData
  | instruction
  deriving DecidableEq, Repr

namespace Enclosure

def opener : Enclosure → String
  | comment => "<!--"
  | characterData => "<![CDATA["
  | instruction => "<?"

def terminator : Enclosure → String
  | comment => "-->"
  | characterData => "]]>"
  | instruction => "?>"

def enclose (e : Enclosure) (body : String) : String := e.opener ++ body ++ e.terminator

def early? : Enclosure → List Char → Option String
  | comment, '>' :: _ => some "<!-->"
  | comment, '-' :: '>' :: _ => some "<!--->"
  | instruction, '>' :: _ => some "<?>"
  | _, _ => none

end Enclosure

namespace Markup

variable {stem xs body rest : List Char}

/-- A pattern that ends with its only `>` does not overlap itself, so text without it does not
start with it when the pattern follows. -/
theorem not_prefix_of_not_infix (rest : List Char) (hs : '>' ∉ stem) (hx : xs ≠ [])
    (hn : ¬stem ++ ['>'] <:+: xs) : ¬stem ++ ['>'] <+: xs ++ (stem ++ ['>']) ++ rest := by
  rintro ⟨after, h⟩
  rw [List.append_assoc xs] at h
  obtain ⟨more, rfl, -⟩ | ⟨last, hlast, hrest⟩ := List.append_eq_append_iff.mp h
  · exact hn (List.prefix_append ..).isInfix
  · have hne : last ≠ [] := by
      rintro rfl
      exact hn (by rw [hlast, List.append_nil])
    have hmem : '>' ∈ last := by
      obtain ⟨init, c, rfl⟩ := List.eq_nil_or_concat last |>.resolve_left hne
      have hc := congrArg List.getLast? hlast
      simp only [List.concat_eq_append, ← List.append_assoc, List.getLast?_concat,
        Option.some.injEq] at hc
      subst hc
      simp
    have hwithin : last <+: stem := by
      have hstem : stem <+: stem ++ ['>'] ++ rest := by simp
      have hlast' : last <+: stem ++ ['>'] ++ rest := hrest ▸ List.prefix_append ..
      refine List.prefix_of_prefix_length_le hlast' hstem ?_
      have hlength := congrArg List.length hlast
      have hpos := List.length_pos_iff.mpr hx
      simp at hlength
      omega
    exact hs (hwithin.subset hmem)

theorem lengthThrough?_of_not_infix (stem : List Char) (hs : '>' ∉ stem)
    (hn : ¬stem ++ ['>'] <:+: xs) :
    lengthThrough? (stem ++ ['>']) (xs ++ (stem ++ ['>']) ++ rest) =
      some (xs ++ (stem ++ ['>'])).length := by
  induction xs with
  | nil => exact lengthThrough?_append_self rest
  | cons x xs ih =>
    have hnot := not_prefix_of_not_infix rest hs (List.cons_ne_nil x xs) hn
    rw [← List.isPrefixOf_iff_prefix] at hnot
    have htail := ih fun h => hn (h.trans (List.suffix_cons x xs).isInfix)
    rw [List.cons_append, List.cons_append] at hnot ⊢
    rw [lengthThrough?, if_neg hnot, htail]
    rfl

end Markup

namespace Enclosure

variable {e : Enclosure} {textTags : List String} {pos depth : Nat} {body : String}
  {cs rest : List Char}

theorem terminator?_opener (e : Enclosure) (cs : List Char) :
    Markup.terminator? (e.opener.toList ++ cs) = some e.terminator.toList := by
  cases e <;> rfl

theorem lengthThrough?_behind (e : Enclosure) (rest : List Char)
    (hb : ¬e.terminator.toList <:+: cs) :
    Markup.lengthThrough? e.terminator.toList (cs ++ e.terminator.toList ++ rest) =
      some (cs ++ e.terminator.toList).length := by
  cases e with
  | comment => exact Markup.lengthThrough?_of_not_infix ['-', '-'] (by decide) hb
  | characterData => exact Markup.lengthThrough?_of_not_infix [']', ']'] (by decide) hb
  | instruction => exact Markup.lengthThrough?_of_not_infix ['?'] (by decide) hb

theorem lengthThrough?_opener (h : e.early? cs = none) :
    Markup.lengthThrough? e.terminator.toList (e.opener.toList ++ cs) =
      (Markup.lengthThrough? e.terminator.toList cs).map (· + e.opener.toList.length) := by
  cases e with
  | characterData =>
    simp [Markup.lengthThrough?, List.isPrefixOf, opener, terminator, Function.comp_def]
  | comment =>
    have h₁ : ¬['>'] <+: cs := by
      rintro ⟨cs, rfl⟩
      cases h
    have h₂ : ¬['-', '>'] <+: cs := by
      rintro ⟨cs, rfl⟩
      cases h
    simp [Markup.lengthThrough?, List.isPrefixOf, opener, terminator, Function.comp_def, h₁, h₂]
  | instruction =>
    have h₁ : ¬['>'] <+: cs := by
      rintro ⟨cs, rfl⟩
      cases h
    simp [Markup.lengthThrough?, List.isPrefixOf, opener, terminator, Function.comp_def, h₁]

theorem lengthThrough?_early {text : String} (h : e.early? cs = some text) :
    Markup.lengthThrough? e.terminator.toList (e.opener.toList ++ cs) =
      some text.toList.length := by
  unfold early? at h
  split at h <;> cases h <;> rfl

theorem early?_append (e : Enclosure) (cs rest : List Char) :
    e.early? (cs ++ (e.terminator.toList ++ rest)) = e.early? cs := by
  match e, cs with
  | characterData, _ | comment, [] | instruction, [] => rfl
  | comment, [c] =>
    by_cases hc : c = '>'
    · subst hc
      rfl
    · simp [early?, terminator, hc]
  | comment, c :: d :: _ =>
    rw [List.cons_append, List.cons_append]
    unfold early?
    grind
  | instruction, c :: _ =>
    rw [List.cons_append]
    unfold early?
    grind

/-- The construct of this body, up to where it is cut off. -/
def kept (e : Enclosure) (body : String) : String := (e.early? body.toList).getD (e.enclose body)

/-- The first terminator from the start of the opener on is the one behind the body, unless the
opener and the body end the construct together. -/
theorem lengthThrough?_enclose (hb : ¬e.terminator.toList <:+: body.toList) (rest : List Char) :
    Markup.lengthThrough? e.terminator.toList ((e.enclose body).toList ++ rest) =
      some (e.kept body).toList.length := by
  have hearly := e.early?_append body.toList rest
  simp only [enclose, String.toList_append, List.append_assoc]
  cases h : e.early? body.toList with
  | some text =>
    rw [kept, h]
    exact lengthThrough?_early (hearly.trans h)
  | none =>
    have hbehind := e.lengthThrough?_behind rest hb
    rw [List.append_assoc] at hbehind
    rw [lengthThrough?_opener (hearly.trans h), hbehind, kept, h]
    simp [enclose]
    omega

theorem head?_kept (e : Enclosure) (body : String) : (e.kept body).toList.head? = some '<' := by
  unfold kept
  cases h : e.early? body.toList with
  | none =>
    rw [Option.getD_none, enclose, String.append_assoc, String.toList_append]
    cases e <;> rfl
  | some text =>
    rw [Option.getD_some]
    unfold early? at h
    split at h <;> cases h <;> rfl

theorem kept_prefix (e : Enclosure) (body : String) :
    (e.kept body).toList <+: (e.enclose body).toList := by
  unfold kept
  cases h : e.early? body.toList with
  | none => exact List.prefix_rfl
  | some text =>
    rw [Option.getD_some]
    unfold early? at h
    split at h <;> cases h
    all_goals
      next hbody => simp [enclose, opener, hbody]

theorem kept_eq_enclose (e : Enclosure) (body : String) :
    e.kept body = e.enclose body ↔ e.early? body.toList = none := by
  unfold kept
  cases h : e.early? body.toList with
  | none => simp
  | some text =>
    rw [Option.getD_some, ← String.toList_inj]
    unfold early? at h
    split at h <;> cases h
    all_goals
      next hbody => simp [enclose, opener, terminator, hbody]

/-- A construct is one piece, up to where it is cut off. -/
theorem tokenizeFrom_enclose (hb : ¬e.terminator.toList <:+: body.toList) {left : List Char}
    (hleft : (e.kept body).toList ++ left = (e.enclose body).toList) :
    tokenizeFrom textTags pos depth 0 ((e.enclose body).toList ++ rest) =
      (tokenizeFrom textTags (pos + byteLength (e.kept body).toList) depth 0 (left ++ rest)).map
        (.verbatim (e.kept body) (Span.clamp pos) :: ·) := by
  obtain ⟨xs, hkept⟩ := List.head?_eq_some_iff.mp (e.head?_kept body)
  have hchars : (e.enclose body).toList ++ rest = '<' :: (xs ++ (left ++ rest)) := by
    rw [← hleft, hkept, List.cons_append, List.cons_append, List.append_assoc]
  have hread : Markup.read (xs ++ (left ++ rest)) = .verbatim xs.length := by
    have hterm := e.terminator?_opener (body.toList ++ e.terminator.toList ++ rest)
    have hlength := lengthThrough?_enclose hb rest
    rw [← List.append_assoc, ← List.append_assoc, ← String.toList_append, ← String.toList_append,
      ← enclose, hchars] at hterm
    rw [hchars, hkept] at hlength
    rw [Markup.read, hterm]
    simp only [hlength]
    simp
  obtain ⟨ys, after, hys, hlength, hrest⟩ := Markup.exists_split hread rfl
  obtain ⟨rfl, rfl⟩ := List.append_inj hys hlength
  rw [hchars, ← List.cons_append, tokenizeFrom_verbatim hrest, ← hkept, String.ofList_toList]

end Enclosure

theorem exists_tokenizeFrom_append {textTags : List String} {pos depth : Nat} {cs : List Char}
    {pieces : List RawToken} (h : Cut textTags pos depth cs pieces) :
    ∃ depth', ∀ rest : List Char, (∀ c ∈ rest.head?, c = '<') →
      tokenizeFrom textTags pos depth 0 (cs ++ rest) =
        (tokenizeFrom textTags (pos + byteLength cs) depth' 0 rest).map (pieces ++ ·) := by
  induction h with
  | @nil pos depth =>
    refine ⟨depth, fun rest _ => ?_⟩
    cases h : tokenizeFrom textTags (pos + byteLength []) depth 0 rest
    all_goals exact h
  | @content _ _ _ cs _ hc hn hr _ ih =>
    obtain ⟨depth', ih⟩ := ih
    refine ⟨depth', fun rest hrest => ?_⟩
    have hhead : ∀ c ∈ (cs ++ rest).head?, c = '<' := by
      cases cs with
      | nil => exact hrest
      | cons => exact hr
    rw [List.append_assoc, tokenizeFrom_content hc hn hhead, ih rest hrest, map_map,
      byteLength_append, Nat.add_assoc]
    rfl
  | verbatim hx _ ih =>
    obtain ⟨depth', ih⟩ := ih
    refine ⟨depth', fun rest hrest => ?_⟩
    rw [List.append_assoc, tokenizeFrom_verbatim hx, ih rest hrest, map_map, byteLength_append,
      Nat.add_assoc]
    rfl
  | tag hx _ ih =>
    obtain ⟨depth', ih⟩ := ih
    refine ⟨depth', fun rest hrest => ?_⟩
    rw [List.append_assoc, tokenizeFrom_tag hx, ih rest hrest, map_map, byteLength_append,
      Nat.add_assoc]
    rfl

end DocTemplate
