import DocTemplate.Proofs.Group.Fragments
import DocTemplate.Proofs.Group.Places
import DocTemplate.Proofs.Token.Settled

namespace DocTemplate

/-- The token is what the source has in a range of bytes. -/
structure Token.StandsAt (source : LocatedText) (t : Token) (r : Span) : Prop where
  slice : sliceBytes? source.text.toList r.start r.stop = some t.text
  span : t.span = source.span r.start r.stop

/-- One range ends before the other starts, and the text between them is blank. -/
def Span.BlankUpTo (text : List Char) (r r' : Span) : Prop :=
  r.stop ≤ r'.start ∧ ∃ gap, sliceBytes? text r.stop r'.start = some gap ∧ ∀ c ∈ gap, isBlank c

def Lexeme.place (base : Nat) (inner : List Char) (l : Lexeme) : Span :=
  let start := base + byteLength (inner.take l.start)
  ⟨start, start + byteLength l.text⟩

section

variable {opening inner closing seen cs text : List Char} {i : Nat} {l : Lexeme} {ls : List Lexeme}

theorem sliceBytes?_append (lead found rest : List Char) :
    sliceBytes? (lead ++ found ++ rest) (byteLength lead) (byteLength (lead ++ found)) =
      some found := by
  rw [byteLength_append]
  exact sliceBytes?_eq_some_iff.mpr rfl

theorem Span.blankUpTo_append {r r' : Span} {lead gap : List Char} (rest : List Char)
    (hb : ∀ c ∈ gap, isBlank c) (hr : r.stop = byteLength lead)
    (hr' : r'.start = byteLength (lead ++ gap)) : r.BlankUpTo (lead ++ gap ++ rest) r' := by
  rw [Span.BlankUpTo, hr, hr']
  refine ⟨?_, gap, sliceBytes?_append lead gap rest, hb⟩
  rw [byteLength_append]
  exact Nat.le_add_right _ _

theorem Lexeme.place_eq (opening : List Char) (hl : seen.length = l.start) (cs : List Char) :
    l.place (byteLength opening) (seen ++ l.text ++ cs) =
      ⟨byteLength (opening ++ seen), byteLength (opening ++ seen ++ l.text)⟩ := by
  rw [place, ← hl, List.append_assoc, List.take_left]
  simp only [byteLength_append]

theorem Lexeme.length_seen {gap : List Char} (hi : seen.length = i)
    (start : l.start = i + gap.length) :
    (seen ++ gap).length = l.start ∧ (seen ++ gap ++ l.text).length = l.stop := by
  have hseen : (seen ++ gap).length = l.start := by rw [List.length_append, start, hi]
  exact ⟨hseen, by rw [List.length_append, hseen, Lexeme.stop]⟩

theorem Spaced.stand (h : Spaced i cs ls) (hi : seen.length = i) (opening closing : List Char) :
    ∀ l ∈ ls, sliceBytes? (opening ++ (seen ++ cs) ++ closing)
        (l.place (byteLength opening) (seen ++ cs)).start
        (l.place (byteLength opening) (seen ++ cs)).stop = some l.text := by
  induction h generalizing seen with
  | nil => exact nofun
  | @cons i gap cs l ls _ start _ rest ih =>
    obtain ⟨hseen, hnext⟩ := Lexeme.length_seen hi start
    have hinner : seen ++ (gap ++ (l.text ++ cs)) = seen ++ gap ++ l.text ++ cs := by
      simp only [List.append_assoc]
    have htext : opening ++ (seen ++ gap ++ l.text ++ cs) ++ closing =
        opening ++ (seen ++ gap) ++ l.text ++ (cs ++ closing) := by
      simp only [List.append_assoc]
    rw [hinner]
    refine List.forall_mem_cons.mpr ⟨?_, ih hnext⟩
    rw [Lexeme.place_eq opening hseen, htext]
    exact sliceBytes?_append ..

theorem Spaced.chain (h : Spaced i cs ls) (hi : seen.length = i) (opening closing : List Char)
    {r r' : Span} (hr : r.stop = byteLength (opening ++ seen))
    (hr' : r'.start = byteLength (opening ++ (seen ++ cs))) :
    (r :: ls.map (·.place (byteLength opening) (seen ++ cs)) ++ [r']).IsChain
      (Span.BlankUpTo (opening ++ (seen ++ cs) ++ closing)) := by
  induction h generalizing seen r with
  | @nil i gap blank =>
    rw [← List.append_assoc] at hr' ⊢
    exact .cons_cons (Span.blankUpTo_append closing blank hr hr') (.singleton _)
  | @cons i gap cs l ls blank start _ rest ih =>
    obtain ⟨hseen, hnext⟩ := Lexeme.length_seen hi start
    have hinner : seen ++ (gap ++ (l.text ++ cs)) = seen ++ gap ++ l.text ++ cs := by
      simp only [List.append_assoc]
    have htext : opening ++ (seen ++ gap ++ l.text ++ cs) ++ closing =
        opening ++ seen ++ gap ++ (l.text ++ cs ++ closing) := by
      simp only [List.append_assoc]
    have hplace := Lexeme.place_eq opening hseen cs
    rw [← List.append_assoc opening] at hplace
    have hstop := congrArg Span.stop hplace
    rw [List.append_assoc opening, List.append_assoc opening] at hstop
    rw [hinner] at hr' ⊢
    refine .cons_cons ?_ (ih hnext hstop hr')
    rw [htext]
    exact Span.blankUpTo_append _ blank hr (congrArg Span.start hplace)

end

section

variable {source : LocatedText} {delimiters : Delimiters} {inner : List Char} {l : Lexeme}
  {ls : List Lexeme} {tokens : List Token}

theorem Lexeme.Settled.text_token (h : l.Settled) (source : LocatedText) (base : Nat)
    (inner : List Char) : (l.token source base inner).text = l.text := by
  refine Lexeme.text_token fun hk => ?_
  obtain ⟨c, tail, htext, -, hlex⟩ := h
  have hlex := hlex [] .nil
  rw [hk] at hlex
  obtain rfl := Lexed.eq_of_lex_target hlex
  exact ⟨tail, htext⟩

theorem Lexeme.Settled.place_lt (h : l.Settled) (base : Nat) (inner : List Char) :
    (l.place base inner).start < (l.place base inner).stop := by
  obtain ⟨c, tail, htext, -⟩ := h
  exact Nat.lt_add_of_pos_right (byteLength_pos (htext ▸ List.cons_ne_nil c tail))

def Delimiters.closingPlace (delimiters : Delimiters) (size : Nat) : Span :=
  ⟨size - byteLength delimiters.closing.toList, size⟩

theorem Delimiters.closingPlace_eq (h : source.text.toList =
      delimiters.opening.toList ++ inner ++ delimiters.closing.toList) :
    delimiters.closingPlace (byteLength source.text.toList) =
      ⟨byteLength (delimiters.opening.toList ++ inner),
        byteLength (delimiters.opening.toList ++ inner ++ delimiters.closing.toList)⟩ := by
  rw [closingPlace, h, byteLength_append _ delimiters.closing.toList, Nat.add_sub_cancel]

theorem groupTokens_stand (h : source.text.toList =
      delimiters.opening.toList ++ inner ++ delimiters.closing.toList) (hls : Spaced 0 inner ls) :
    List.Forall₂ (Token.StandsAt source) (groupTokens source delimiters inner ls)
      (⟨0, byteLength delimiters.opening.toList⟩ ::
        ls.map (·.place (byteLength delimiters.opening.toList) inner) ++
        [delimiters.closingPlace (byteLength source.text.toList)]) := by
  have hstand := hls.stand List.length_nil delimiters.opening.toList delimiters.closing.toList
  rw [List.nil_append, ← h] at hstand
  refine .cons ⟨?_, rfl⟩ (List.rel_append ?_ (.cons ⟨?_, rfl⟩ .nil))
  · rw [h, List.append_assoc]
    exact sliceBytes?_append [] _ _
  · rw [List.forall₂_map_left_iff, List.forall₂_map_right_iff, List.forall₂_same]
    intro l hl
    refine ⟨?_, rfl⟩
    rw [(hls.settled l hl).text_token]
    exact hstand l hl
  · rw [Delimiters.closingPlace_eq h, h]
    have hslice := sliceBytes?_append (delimiters.opening.toList ++ inner)
      delimiters.closing.toList []
    rwa [List.append_nil] at hslice

/-- What a text with the same lexemes is scanned as. -/
theorem scanGroup_joined (hls : ∀ l ∈ ls, l.Settled) (h : source.text.toList =
      delimiters.opening.toList ++ joined ls ++ delimiters.closing.toList) :
    ∃ found, scanGroup source delimiters = .ok found ∧ ∀ source' inner,
      found.map Token.unplaced = (groupTokens source' delimiters inner ls).map Token.unplaced := by
  obtain ⟨found, hfound, hsame⟩ := lexemesFrom_joined hls 0
  refine ⟨groupTokens source delimiters (joined ls) found, ?_, fun source' inner => ?_⟩
  · rw [scanGroup_eq h, lexemes, hfound]
    rfl
  · have htokens (source : LocatedText) (base : Nat) (text : List Char) (ls : List Lexeme) :
        (ls.map (Lexeme.token source base text)).map Token.unplaced =
          (ls.map Lexeme.unplaced).map fun l => (l.token .empty 0 []).unplaced := by
      simp only [List.map_map]
      rfl
    simp only [groupTokens, List.map_cons, List.map_append, htokens, hsame]
    rfl

/-- The tokens of a group stand in its text one behind the other, from the opening delimiter at the
start to the closing one at the end, each between them in a range that is not empty, and what is
between two ranges is blank. The texts of the tokens with single spaces between them are scanned as
the same tokens. -/
theorem scanGroup_covers (h : scanGroup source delimiters = .ok tokens) :
    ∃ opening between closing, ∃ ranges : List Span,
      tokens = opening :: between ++ [closing] ∧
      (opening.kind = .opening ∧ opening.lexeme = delimiters.opening) ∧
      (closing.kind = .closing ∧ closing.lexeme = delimiters.closing) ∧
      (let places := ⟨0, byteLength delimiters.opening.toList⟩ :: ranges ++
        [delimiters.closingPlace (byteLength source.text.toList)]
      List.Forall₂ (Token.StandsAt source) tokens places ∧
        places.IsChain (Span.BlankUpTo source.text.toList) ∧ ∀ r ∈ ranges, r.start < r.stop) ∧
      ∀ respaced : LocatedText, respaced.text.toList = delimiters.opening.toList ++
          [' '].intercalate (between.map Token.text) ++ delimiters.closing.toList →
        ∃ found, scanGroup respaced delimiters = .ok found ∧
          found.map Token.unplaced = tokens.map Token.unplaced := by
  obtain ⟨inner, hinner⟩ := scanGroup_delimited h
  rw [scanGroup_eq hinner, map_eq_ok] at h
  obtain ⟨ls, hls, rfl⟩ := h
  rw [mapError_eq_ok] at hls
  have hspaced := lexemesFrom_spaced hls
  have hstand := groupTokens_stand hinner hspaced
  have hfirst : (⟨0, byteLength delimiters.opening.toList⟩ : Span).stop =
      byteLength (delimiters.opening.toList ++ []) := by
    rw [List.append_nil]
  have hlast : (delimiters.closingPlace (byteLength source.text.toList)).start =
      byteLength (delimiters.opening.toList ++ ([] ++ inner)) := by
    rw [Delimiters.closingPlace_eq hinner]
    rfl
  have hchain := hspaced.chain List.length_nil _ delimiters.closing.toList hfirst hlast
  rw [List.nil_append, ← hinner] at hchain
  refine ⟨_, ls.map (Lexeme.token source (byteLength delimiters.opening.toList) inner), _,
    ls.map (·.place (byteLength delimiters.opening.toList) inner), rfl, ⟨rfl, rfl⟩, ⟨rfl, rfl⟩,
    ⟨hstand, hchain, fun r hr => ?_⟩, fun respaced hrespaced => ?_⟩
  · obtain ⟨l, hl, rfl⟩ := List.mem_map.mp hr
    exact (hspaced.settled l hl).place_lt _ _
  · have htexts : (ls.map (Lexeme.token source (byteLength delimiters.opening.toList) inner)).map
        Token.text = ls.map Lexeme.text := by
      rw [List.map_map]
      exact List.map_congr_left fun l hl => (hspaced.settled l hl).text_token _ _ _
    rw [htexts] at hrespaced
    obtain ⟨found, hfound, hsame⟩ := scanGroup_joined hspaced.settled hrespaced
    exact ⟨found, hfound, hsame source inner⟩

end

def crowded : LocatedText := .contiguous "[[a.b>=1.5m@w:tr\u00A0'it\\'s'+12L ]]" 100

def crowdedTokens : List Token :=
  [⟨.opening, "[[", ⟨100, 102⟩, none⟩, ⟨.identifier, "a", ⟨102, 103⟩, none⟩,
    ⟨.dot, ".", ⟨103, 104⟩, none⟩, ⟨.identifier, "b", ⟨104, 105⟩, none⟩,
    ⟨.greaterEqual, ">=", ⟨105, 107⟩, none⟩,
    ⟨.number, "1.5m", ⟨107, 111⟩, some (.decimal ⟨15, 1⟩)⟩, ⟨.target, "w:tr", ⟨111, 116⟩, none⟩,
    ⟨.string, "'it\\'s'", ⟨118, 125⟩, some (.str "it's")⟩, ⟨.plus, "+", ⟨125, 126⟩, none⟩,
    ⟨.number, "12L", ⟨126, 129⟩, some (.long 12)⟩, ⟨.closing, "]]", ⟨130, 132⟩, none⟩]

theorem scanGroup_covers_crowded :
    scanGroup crowded ⟨"[[", "]]"⟩ = .ok crowdedTokens ∧
      (∃ ranges : List Span, List.Forall₂ (Token.StandsAt crowded) crowdedTokens
        (⟨0, 2⟩ :: ranges ++ [⟨30, 32⟩])) ∧
      ∃ found, scanGroup (.contiguous "[[a . b >= 1.5m @w:tr 'it\\'s' + 12L]]" 0) ⟨"[[", "]]"⟩ =
          .ok found ∧
        found.map Token.unplaced = crowdedTokens.map Token.unplaced := by
  have h : scanGroup crowded ⟨"[[", "]]"⟩ = .ok crowdedTokens := by decide +kernel
  obtain ⟨opening, between, closing, ranges, htokens, -, -, ⟨hstand, -⟩, hrespaced⟩ :=
    scanGroup_covers h
  have hbetween : between = crowdedTokens.tail.dropLast := by simp [htokens]
  refine ⟨h, ⟨ranges, hstand⟩, hrespaced _ ?_⟩
  rw [hbetween]
  decide +kernel

end DocTemplate
