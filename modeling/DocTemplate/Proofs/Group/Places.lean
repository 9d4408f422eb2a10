import DocTemplate.Proofs.Group.Closings
import DocTemplate.Proofs.Markup.Tiled

namespace DocTemplate

structure GroupChar where
  piece : Nat
  decoded : DecodedChar

namespace GroupChar

def char (c : GroupChar) : Char := c.decoded.char

def start (c : GroupChar) : Nat := c.piece + c.decoded.start

def stop (c : GroupChar) : Nat := c.start + byteLength c.decoded.source

def IsPlain (c : GroupChar) : Prop := c.decoded.source = [c.char]

def IsFrom (pieces : List RawToken) (c : GroupChar) : Prop :=
  ∃ text insideText, .content text c.piece insideText ∈ pieces ∧
    c.decoded ∈ decodeFrom 0 0 text.toList

def Precedes (c d : GroupChar) : Prop := c.stop ≤ d.start ∧ (c.piece = d.piece → c.stop = d.start)

end GroupChar

structure Drawn (pieces : List RawToken) (chars : List GroupChar) : Prop where
  isFrom : ∀ c ∈ chars, c.IsFrom pieces
  ordered : chars.IsChain GroupChar.Precedes

/-- The characters of a text are all plain and from one piece. -/
def IsOnePiece (chars : List GroupChar) : Prop :=
  ∃ piece, ∀ c ∈ chars, c.piece = piece ∧ c.IsPlain

def LocatedText.ofChars (chars : List GroupChar) : LocatedText :=
  chars.foldl (fun t c => t.appendAt c.char (Span.clamp c.start)) .empty

def Token.text (t : Token) : List Char :=
  if t.kind = .target then '@' :: t.lexeme.toList else t.lexeme.toList

section

variable {chars before found after : List GroupChar} {c : GroupChar}

namespace LocatedText

theorem ofChars_append (chars more : List GroupChar) : ofChars (chars ++ more) =
    more.foldl (fun t c => t.appendAt c.char (Span.clamp c.start)) (ofChars chars) :=
  List.foldl_append

theorem text_ofChars (chars : List GroupChar) :
    (ofChars chars).text.toList = chars.map GroupChar.char := by
  induction chars using List.reverseRecOn with
  | nil => rfl
  | append_singleton chars c ih =>
    rw [ofChars_append, List.map_append, ← ih]
    simp [appendAt]

theorem offsets_ofChars (chars : List GroupChar) : (ofChars chars).offsets.toList =
    chars.flatMap fun c => List.replicate c.char.utf8Size (Span.clamp c.start) := by
  induction chars using List.reverseRecOn with
  | nil => rfl
  | append_singleton chars c ih =>
    rw [ofChars_append, List.flatMap_append, ← ih]
    simp [appendAt]

theorem length_offsets (chars : List GroupChar) :
    (chars.flatMap fun c => List.replicate c.char.utf8Size (Span.clamp c.start)).length =
      byteLength (chars.map GroupChar.char) := by
  induction chars with
  | nil => rfl
  | cons c chars ih => simp [byteLength, ih]

theorem offset_ofChars (before after : List GroupChar) (c : GroupChar) (stop : Nat) {i : Nat}
    (hi : i < c.char.utf8Size) :
    ((ofChars (before ++ c :: after)).finish stop).offset
      (byteLength (before.map GroupChar.char) + i) = Span.clamp c.start := by
  have hget : ((ofChars (before ++ c :: after)).finish stop).offsets[
      byteLength (before.map GroupChar.char) + i]? = some (Span.clamp c.start) := by
    rw [← Array.getElem?_toList, finish, Array.toList_push, offsets_ofChars, List.flatMap_append,
      List.flatMap_cons, ← length_offsets, List.append_assoc, List.getElem?_append_right (by omega),
      Nat.add_sub_cancel_left, List.append_assoc, List.getElem?_append_left (by simpa using hi),
      List.getElem?_replicate, if_pos hi]
  rw [offset, hget]
  rfl

theorem span_ofChars (before : List GroupChar) {found : List GroupChar} (after : List GroupChar)
    (stop : Nat) {first last : GroupChar} (hf : first ∈ found.head?) (hl : last ∈ found.getLast?) :
    ((ofChars (before ++ found ++ after)).finish stop).span
        (byteLength (before.map GroupChar.char))
        (byteLength (before.map GroupChar.char) + byteLength (found.map GroupChar.char)) =
      ⟨Span.clamp first.start,
        max (Span.wrap (Span.clamp last.start + 1)) (Span.clamp first.start)⟩ := by
  obtain ⟨tail, rfl⟩ := List.head?_eq_some_iff.mp hf
  obtain ⟨init, hinit⟩ := List.getLast?_eq_some_iff.mp hl
  have hfirst : ((ofChars (before ++ first :: tail ++ after)).finish stop).offset
      (byteLength (before.map GroupChar.char)) = Span.clamp first.start := by
    rw [List.append_assoc]
    exact offset_ofChars before (tail ++ after) first stop first.char.utf8Size_pos
  have hlast : ((ofChars (before ++ first :: tail ++ after)).finish stop).offset
      (byteLength (before.map GroupChar.char) +
        byteLength ((first :: tail).map GroupChar.char) - 1) = Span.clamp last.start := by
    have hpos := last.char.utf8Size_pos
    have hoffset := offset_ofChars (before ++ init) after last stop
      (i := last.char.utf8Size - 1) (by omega)
    rw [hinit]
    simp only [List.map_append, byteLength_append, List.map_cons, List.map_nil, byteLength,
      List.append_assoc, List.singleton_append] at hoffset ⊢
    rw [← hoffset]
    congr 1
    omega
  have hlt : 0 < byteLength ((first :: tail).map GroupChar.char) := byteLength_pos (by simp)
  rw [span, hfirst, if_pos (by omega), hlast]

end LocatedText

theorem exists_split_of_mem {document : List Char} {pieces : List RawToken} {piece : RawToken}
    (hp : Placed 0 pieces) (hd : pieces.flatMap (·.text.toList) = document)
    (hl : byteLength document ≤ Span.limit) (h : piece ∈ pieces) :
    ∃ lead rest, document = lead ++ piece.text.toList ++ rest ∧ piece.offset = byteLength lead := by
  obtain ⟨before, after, rfl⟩ := List.append_of_mem h
  rw [List.flatMap_append, List.flatMap_cons, ← List.append_assoc] at hd
  subst hd
  refine ⟨_, _, rfl, ?_⟩
  have hsum : (before.map (·.text.utf8ByteSize)).sum =
      byteLength (before.flatMap (·.text.toList)) := by
    have hjoin := utf8ByteSize_join (before.map RawToken.text)
    rw [List.map_map] at hjoin
    rw [byteLength_eq_utf8ByteSize, ← List.flatMap_map, ← String.toList_join, String.ofList_toList]
    exact hjoin.symm
  rw [hp.offset, Nat.zero_add, hsum]
  rw [byteLength_append, byteLength_append] at hl
  exact Span.clamp_of_le (by omega)

theorem exists_split_of_decodeFrom {pos : Nat} {cs : List Char} {d : DecodedChar}
    (h : d ∈ decodeFrom pos 0 cs) :
    ∃ lead rest, cs = lead ++ d.source ++ rest ∧ d.start = pos + byteLength lead := by
  obtain ⟨before, after, hsplit⟩ := List.append_of_mem h
  obtain ⟨lead, ys, rfl, -, hys⟩ := decodeFrom_eq_append hsplit
  obtain ⟨source, rest, rfl, hd, -⟩ := decodeFrom_eq_cons hys.symm
  obtain ⟨rfl, hstart⟩ := decodeFrom_eq_singleton hd
  exact ⟨lead, rest, (List.append_assoc _ _ _).symm, hstart⟩

section

variable {document : List Char} {pieces : List RawToken}

theorem GroupChar.IsFrom.exists_split (h : c.IsFrom pieces) (hp : Placed 0 pieces)
    (hd : pieces.flatMap (·.text.toList) = document) (hl : byteLength document ≤ Span.limit) :
    ∃ lead rest, document = lead ++ c.decoded.source ++ rest ∧ c.start = byteLength lead := by
  obtain ⟨text, insideText, hmem, hc⟩ := h
  obtain ⟨lead, rest, rfl, hoffset⟩ := exists_split_of_mem hp hd hl hmem
  obtain ⟨inner, more, htext, hstart⟩ := exists_split_of_decodeFrom hc
  refine ⟨lead ++ inner, more ++ rest, ?_, ?_⟩
  · rw [RawToken.text, htext]
    simp
  · rw [GroupChar.start, hstart, byteLength_append, Nat.zero_add]
    exact congrArg (· + byteLength inner) hoffset

theorem Drawn.exists_split (h : Drawn pieces found) (ho : IsOnePiece found) (hne : found ≠ [])
    (hp : Placed 0 pieces) (hd : pieces.flatMap (·.text.toList) = document)
    (hl : byteLength document ≤ Span.limit) :
    ∃ lead rest, document = lead ++ found.map GroupChar.char ++ rest ∧
      (∀ first ∈ found.head?, first.start = byteLength lead) ∧
      ∀ last ∈ found.getLast?, last.stop = byteLength lead + byteLength (found.map GroupChar.char)
      := by
  obtain ⟨piece, ho⟩ := ho
  induction found with
  | nil => exact absurd rfl hne
  | cons c tail ih =>
    obtain ⟨hc, hplain⟩ := ho c (by simp)
    obtain ⟨lead, rest, hdoc, hstart⟩ := (h.isFrom c (by simp)).exists_split hp hd hl
    rw [hplain] at hdoc
    have hstop : c.stop = byteLength (lead ++ [c.char]) := by
      rw [GroupChar.stop, hplain, hstart, byteLength_append]
    cases tail with
    | nil =>
      refine ⟨lead, rest, hdoc, by simpa using hstart, ?_⟩
      rintro last ⟨⟩
      exact hstop.trans (byteLength_append _ _)
    | cons d tail =>
      obtain ⟨hcd, hordered⟩ := List.isChain_cons_cons.mp h.ordered
      obtain ⟨lead', rest', hdoc', hfirst, hlast⟩ :=
        ih ⟨fun e he => h.isFrom e (List.mem_cons_of_mem _ he), hordered⟩ (List.cons_ne_nil _ _)
          fun e he => ho e (List.mem_cons_of_mem _ he)
      have hnext : c.stop = d.start := hcd.2 (hc.trans (ho d (by simp)).1.symm)
      have hlead : lead' = lead ++ [c.char] := by
        have hpre : lead' <+: document := by
          rw [hdoc', List.append_assoc]
          exact List.prefix_append ..
        refine IsPrefix.eq_of_byteLength hpre ⟨rest, hdoc.symm⟩ ?_
        rw [← hstop, hnext]
        exact (hfirst d rfl).symm
      subst hlead
      refine ⟨lead, rest', by rw [hdoc']; simp, by simpa using hstart, fun last hmem => ?_⟩
      rw [hlast last (by simpa using hmem), byteLength_append, List.map_cons (l := d :: tail)]
      simp [byteLength, Nat.add_assoc]

end

end

section

variable {lead text rest cs xs : List Char} {n : Nat}

theorem fullSpan_contiguous {base : Nat} (hne : text ≠ [])
    (h : base + byteLength text ≤ Span.limit) :
    (LocatedText.contiguous (String.ofList text) base).fullSpan =
      ⟨base, base + byteLength text⟩ := by
  have hpos := byteLength_pos hne
  have hoffset {i : Nat} (hi : i < byteLength text) :
      (LocatedText.contiguous (String.ofList text) base).offset i = base + i := by
    have hget : (LocatedText.contiguous (String.ofList text) base).offsets[i]? =
        some (Span.clamp (base + i)) := by
      rw [← Array.getElem?_toList]
      simp [LocatedText.contiguous, LocatedText.finish, LocatedText.append, LocatedText.empty,
        ← byteLength_eq_utf8ByteSize, List.getElem?_append_left, hi]
    rw [LocatedText.offset, hget]
    exact Span.clamp_of_le (by omega)
  have hsize : (LocatedText.contiguous (String.ofList text) base).text.utf8ByteSize =
      byteLength text := by
    simp [LocatedText.contiguous, LocatedText.finish, LocatedText.append, LocatedText.empty,
      ← byteLength_eq_utf8ByteSize]
  rw [LocatedText.fullSpan, hsize, LocatedText.span, hoffset hpos, if_pos hpos,
    hoffset (by omega), Span.wrap_of_le (by omega)]
  congr 1
  omega

end

section

variable {c : Char} {cs : List Char} {i skip : Nat} {ls : List Lexeme}

theorem Lexed.eq_of_lex_target {literal : Option Literal} {more : Nat}
    (h : lex c cs = .token .target literal more) : c = '@' := by
  unfold lex at h
  split at h
  iterate 10 cases h
  iterate 6
    unfold either at h
    split at h <;> cases h
  · split at h <;> cases h
  · rfl
  · split at h
    next q hq => cases (stringBody_token h).1
    next hq =>
      split at h
      next =>
        obtain ⟨read, last, found, -, -, hnumber⟩ := number_eq c cs
        rw [hnumber] at h
        split at h
        next => cases h
        next => split at h <;> cases h
      next =>
        split at h
        next =>
          unfold name at h
          obtain ⟨hkind, -, -⟩ := Lexed.token.inj h
          split at hkind <;> cases hkind
        next => cases h

theorem lexemesFrom_stands (h : lexemesFrom i skip cs = .ok ls) {l : Lexeme} (hl : l ∈ ls) :
    ∃ seen rest, cs = seen ++ l.text ++ rest ∧ l.start = i + seen.length ∧ l.text ≠ [] ∧
      (l.kind = .target → ∃ name, l.text = '@' :: name) := by
  induction cs generalizing i skip ls with
  | nil =>
    cases skip with
    | zero | succ skip =>
      obtain rfl := Except.ok.inj h
      cases hl
  | cons c cs ih =>
    have hnext {skip : Nat} {ls : List Lexeme} (h : lexemesFrom (i + 1) skip cs = .ok ls)
        (hl : l ∈ ls) : ∃ seen rest, c :: cs = seen ++ l.text ++ rest ∧
          l.start = i + seen.length ∧ l.text ≠ [] ∧
          (l.kind = .target → ∃ name, l.text = '@' :: name) := by
      obtain ⟨seen, rest, hcs, hstart, hrest⟩ := ih h hl
      refine ⟨c :: seen, rest, by rw [hcs]; rfl, ?_, hrest⟩
      rw [hstart, List.length_cons]
      omega
    cases skip with
    | succ skip => exact hnext h hl
    | zero =>
      rw [lexemesFrom] at h
      split at h
      next => exact hnext h hl
      next =>
        split at h
        next kind literal more hlex =>
          obtain ⟨ls', hls, rfl⟩ := map_eq_ok.mp h
          rcases List.mem_cons.mp hl with rfl | hl
          · refine ⟨[], cs.drop more, by simp, rfl, List.cons_ne_nil _ _, ?_⟩
            rintro rfl
            exact ⟨_, congrArg (· :: cs.take more) (Lexed.eq_of_lex_target hlex)⟩
          · exact hnext hls hl
        next => cases h

theorem Lexeme.text_token {l : Lexeme} {source : LocatedText} {base : Nat}
    (h : l.kind = .target → ∃ name, l.text = '@' :: name) :
    (l.token source base cs).text = l.text := by
  unfold Token.text Lexeme.token TokenKind.lexemeOf
  dsimp only
  split
  next hk =>
    obtain ⟨name, hname⟩ := h hk
    simp [hname]
  next => simp

end

section

variable {source : LocatedText} {delimiters : Delimiters} {nicknames : Nicknames}
  {tokens : List Token} {t : Token}

theorem scanGroup_delimited (h : scanGroup source delimiters = .ok tokens) :
    ∃ inner, source.text.toList =
      delimiters.opening.toList ++ inner ++ delimiters.closing.toList := by
  unfold scanGroup at h
  dsimp only at h
  split at h
  next => cases h
  next hopen =>
    split at h
    next => cases h
    next hclose =>
      obtain ⟨rest, hrest⟩ : delimiters.opening.toList <+: source.text.toList := by
        simpa [List.isPrefixOf_iff_prefix] using hopen
      obtain ⟨hlong, hends⟩ : delimiters.opening.toList.length + delimiters.closing.toList.length ≤
          source.text.toList.length ∧ delimiters.closing.toList <:+ source.text.toList := by
        simpa [List.isSuffixOf_iff_suffix] using hclose
      rw [← hrest, List.length_append] at hlong
      obtain ⟨inner, rfl⟩ := List.suffix_of_suffix_length_le hends ⟨_, hrest⟩ (by omega)
      exact ⟨inner, by rw [← hrest, List.append_assoc]⟩

theorem scanGroup_stands (h : scanGroup source delimiters = .ok tokens)
    (ho : delimiters.opening.toList ≠ []) (hc : delimiters.closing.toList ≠ []) (ht : t ∈ tokens) :
    t.text ≠ [] ∧ ∃ seen rest, source.text.toList = seen ++ t.text ++ rest ∧
      t.span = source.span (byteLength seen) (byteLength seen + byteLength t.text) := by
  obtain ⟨inner, hinner⟩ := scanGroup_delimited h
  rw [scanGroup_eq hinner, map_eq_ok] at h
  obtain ⟨ls, hls, rfl⟩ := h
  rw [mapError_eq_ok] at hls
  have hsize : byteLength source.text.toList = byteLength delimiters.opening.toList +
      byteLength inner + byteLength delimiters.closing.toList := by
    rw [hinner, byteLength_append, byteLength_append]
  rw [groupTokens, List.mem_append, List.mem_cons, List.mem_singleton, List.mem_map] at ht
  obtain (rfl | ⟨l, hl, rfl⟩) | rfl := ht
  · refine ⟨ho, [], inner ++ delimiters.closing.toList, ?_, ?_⟩
    · rw [hinner, List.append_assoc]
      rfl
    · exact congrArg (source.span 0) (Nat.zero_add _).symm
  · obtain ⟨seen, rest, rfl, hstart, hne, htarget⟩ := lexemesFrom_stands hls hl
    rw [Lexeme.text_token htarget]
    refine ⟨hne, delimiters.opening.toList ++ seen, rest ++ delimiters.closing.toList, ?_, ?_⟩
    · rw [hinner]
      simp
    · rw [Nat.zero_add] at hstart
      rw [Lexeme.token, hstart, List.append_assoc, List.take_left, byteLength_append]
  · refine ⟨hc, delimiters.opening.toList ++ inner, [], ?_, ?_⟩
    · rw [hinner, List.append_nil]
      rfl
    · dsimp only
      congr 1
      · rw [hsize, byteLength_append]
        omega
      · rw [hsize, byteLength_append]
        rfl

theorem Group.ofTokens_subset {span : Span} {g : Group}
    (h : Group.ofTokens tokens span nicknames = .ok g) : g.tokens ⊆ tokens := by
  unfold Group.ofTokens at h
  obtain ⟨⟨mark, kept⟩, htake, h⟩ := bind_eq_ok.mp h
  have hkept : kept ⊆ tokens := by
    unfold takeTarget at htake
    split at htake
    next =>
      obtain ⟨-, rfl⟩ := Prod.mk.inj (Except.ok.inj htake)
      exact List.Subset.refl _
    next =>
      split at htake
      next =>
        obtain ⟨-, rfl⟩ := Prod.mk.inj (Except.ok.inj htake)
        exact List.filter_subset_self _
      next => cases htake
    next => cases htake
  cases mark with
  | none =>
    obtain rfl := Except.ok.inj h
    exact hkept
  | some mark =>
    dsimp only at h
    split at h
    next => cases h
    next =>
      obtain rfl := Except.ok.inj h
      exact hkept

end

section

variable {pieces : List RawToken} {chars : List GroupChar} {base pos : Nat} {d : DecodedChar}
  {cs : List Char} {text : String} {insideText : Bool}

/-- The characters of a group reach up to byte `pos` at most, and if they are from the piece at
byte `base`, they reach exactly up to there. -/
def ReachesTo (base pos : Nat) (chars : List GroupChar) : Prop :=
  ∀ c ∈ chars.getLast?, c.stop ≤ pos ∧ c.piece < pos ∧ (c.piece = base → c.stop = pos)

theorem ReachesTo.enter (h : ReachesTo base pos chars) (n : Nat) :
    ReachesTo (pos + n) (pos + n) chars := by
  intro c hc
  obtain ⟨hstop, hpiece, -⟩ := h c hc
  exact ⟨by omega, by omega, fun he => by omega⟩

theorem Drawn.append_singleton (h : Drawn pieces chars) (hr : ReachesTo base pos chars)
    {c : GroupChar} (hc : c.IsFrom pieces) (hb : c.piece = base) (hs : c.start = pos)
    (hne : c.decoded.source ≠ []) :
    Drawn pieces (chars ++ [c]) ∧
      ReachesTo base (pos + byteLength c.decoded.source) (chars ++ [c]) := by
  refine ⟨⟨fun e he => ?_, ?_⟩, fun e he => ?_⟩
  · rcases List.mem_append.mp he with he | he
    · exact h.isFrom e he
    · rwa [List.mem_singleton.mp he]
  · refine List.isChain_append.mpr ⟨h.ordered, List.isChain_singleton _, fun e he e' he' => ?_⟩
    obtain rfl : c = e' := Option.some.inj he'
    obtain ⟨hstop, -, hreach⟩ := hr e he
    exact ⟨hs ▸ hstop, fun hp => (hreach (hp.trans hb)).trans hs.symm⟩
  · rw [List.getLast?_concat, Option.mem_some_iff] at he
    subst he
    have hpos := byteLength_pos hne
    have hstart : c.piece ≤ c.start := Nat.le_add_right _ _
    exact ⟨by rw [GroupChar.stop, hs], by omega, fun _ => by rw [GroupChar.stop, hs]⟩

theorem eq_nil_of_decodeFrom (h : decodeFrom pos 0 cs = []) : cs = [] := by
  rw [← decodeFrom_source pos cs, h]
  rfl

theorem Drawn.append_decoded (h : Drawn pieces chars) (hr : ReachesTo base (base + pos) chars)
    (hmem : .content text base insideText ∈ pieces)
    (hsub : decodeFrom pos 0 cs ⊆ decodeFrom 0 0 text.toList) :
    Drawn pieces (chars ++ (decodeFrom pos 0 cs).map (GroupChar.mk base)) ∧
      ReachesTo base (base + pos + byteLength cs)
        (chars ++ (decodeFrom pos 0 cs).map (GroupChar.mk base)) := by
  induction hds : decodeFrom pos 0 cs generalizing pos cs chars with
  | nil =>
    obtain rfl := eq_nil_of_decodeFrom hds
    simpa [byteLength] using ⟨h, hr⟩
  | cons d ds ih =>
    rw [hds] at hsub
    obtain ⟨hd, hsub⟩ := List.cons_subset.mp hsub
    obtain ⟨xs, ys, rfl, hone, rfl⟩ := decodeFrom_eq_cons hds
    obtain ⟨hsource, hstart⟩ := decodeFrom_eq_singleton hone
    obtain ⟨h, hr⟩ := h.append_singleton (c := ⟨base, d⟩) hr ⟨text, insideText, hmem, hd⟩ rfl
      (congrArg (base + ·) hstart) (hsource ▸ ne_nil_of_decodeFrom hone)
    rw [hsource, Nat.add_assoc] at hr
    rw [List.map_cons, List.append_cons, byteLength_append, ← Nat.add_assoc, Nat.add_assoc base pos]
    exact ih h hr hsub rfl

end

namespace Extraction

variable {delimiters : Delimiters} {nicknames : Nicknames} {pieces : List RawToken}
  {x x' : Extraction} {base pos depth : Nat}

theorem gather_ofChars (run : TextRun) (chars : List GroupChar) (ds : List DecodedChar) :
    gather run (.ofChars chars) ds = .ofChars (chars ++ ds.map (GroupChar.mk run.offset)) := by
  rw [LocatedText.ofChars_append, List.foldl_map]
  rfl

/-- The groups so far are read from characters of the pieces, and so is the group that has started,
up to byte `pos`. -/
structure Draws (delimiters : Delimiters) (nicknames : Nicknames) (pieces : List RawToken)
    (base pos : Nat) (x : Extraction) : Prop where
  groups : ∀ g ∈ x.groups, delimiters.opening.toList ≠ [] ∧ delimiters.closing.toList ≠ [] ∧
    ∃ chars stop, Drawn pieces chars ∧
      readGroup delimiters nicknames ((LocatedText.ofChars chars).finish stop) = .ok g
  pending : ∀ p ∈ x.pending, delimiters.opening.toList ≠ [] ∧
    ∃ chars, Drawn pieces chars ∧ ReachesTo base pos chars ∧ p.source = .ofChars chars

namespace Draws

theorem start : Extraction.start.Draws delimiters nicknames pieces base pos :=
  ⟨fun _ h => absurd h (Array.not_mem_empty _), nofun⟩

theorem keep (h : x.Draws delimiters nicknames pieces base pos) (hp : x.pending = none)
    (c : DecodedChar) (pos' : Nat) : (x.keep c).Draws delimiters nicknames pieces base pos' :=
  ⟨h.groups, by simp [Extraction.keep, hp]⟩

theorem enter (h : x.Draws delimiters nicknames pieces base pos) (n : Nat) :
    x.Draws delimiters nicknames pieces (pos + n) (pos + n) := by
  refine ⟨h.groups, fun p hp => ?_⟩
  obtain ⟨hne, chars, hdrawn, hreach, hsource⟩ := h.pending p hp
  exact ⟨hne, chars, hdrawn, hreach.enter n, hsource⟩

theorem push (h : x.Draws delimiters nicknames pieces base pos) (item : StreamItem) :
    (x.push item).Draws delimiters nicknames pieces base pos := by
  unfold Extraction.push
  cases hp : x.pending with
  | none => exact ⟨h.groups, by simp⟩
  | some p =>
    refine ⟨h.groups, ?_⟩
    rintro p' ⟨⟩
    exact h.pending p hp

theorem flush {run : TextRun} (h : x.Draws delimiters nicknames pieces base pos) :
    (x.flush run).Draws delimiters nicknames pieces base pos :=
  ⟨by rw [flush_groups]; exact h.groups, by rw [flush_pending]; exact h.pending⟩

variable {run : TextRun} {text : String} {cs : List Char} {c : DecodedChar} {p : PendingGroup}

theorem opens (h : x.Draws run.delimiters nicknames pieces run.offset (run.offset + pos))
    (hmem : .content text run.offset run.insideText ∈ pieces)
    (hne : run.delimiters.opening.toList ≠ [])
    (hsub : decodeFrom pos 0 cs ⊆ decodeFrom 0 0 text.toList) :
    (x.openGroup run c (decodeFrom pos 0 cs)).Draws run.delimiters nicknames pieces run.offset
      (run.offset + pos + byteLength cs) := by
  refine ⟨by rw [openGroup, flush_groups]; exact h.groups, ?_⟩
  rintro p ⟨⟩
  have hnone : Drawn pieces [] := ⟨by simp, .nil⟩
  have hreach : ReachesTo run.offset (run.offset + pos) [] := by simp [ReachesTo]
  obtain ⟨hdrawn, hreach⟩ := hnone.append_decoded hreach hmem hsub
  exact ⟨hne, _, hdrawn, hreach, gather_ofChars run [] _⟩

theorem tracks (h : x.Draws run.delimiters nicknames pieces run.offset (run.offset + pos))
    (hmem : .content text run.offset run.insideText ∈ pieces) (hp : x.pending = some p)
    (hsub : decodeFrom pos 0 cs ⊆ decodeFrom 0 0 text.toList) (c : Char) :
    Draws run.delimiters nicknames pieces run.offset (run.offset + pos + byteLength cs)
      { x with pending := some { PendingGroup.track p c with
          source := gather run p.source (decodeFrom pos 0 cs) } } := by
  obtain ⟨hne, chars, hdrawn, hreach, hsource⟩ := h.pending p hp
  refine ⟨h.groups, ?_⟩
  rintro p' ⟨⟩
  obtain ⟨hdrawn, hreach⟩ := hdrawn.append_decoded hreach hmem hsub
  exact ⟨hne, _, hdrawn, hreach, by rw [hsource, gather_ofChars]⟩

theorem closes (h : x.Draws run.delimiters run.nicknames pieces run.offset (run.offset + pos))
    (hmem : .content text run.offset run.insideText ∈ pieces) (hp : x.pending = some p)
    (hne : run.delimiters.closing.toList ≠ [])
    (hsub : decodeFrom pos 0 cs ⊆ decodeFrom 0 0 text.toList)
    (hx : x.closeGroup run p (decodeFrom pos 0 cs) = .ok x') (pos' : Nat) :
    x'.Draws run.delimiters run.nicknames pieces run.offset pos' := by
  obtain ⟨hopen, chars, hdrawn, hreach, hsource⟩ := h.pending p hp
  obtain ⟨hdrawn, -⟩ := hdrawn.append_decoded hreach hmem hsub
  rw [closeGroup_eq, map_eq_ok] at hx
  obtain ⟨g, hg, rfl⟩ := hx
  refine ⟨fun g' hg' => ?_, nofun⟩
  rcases Array.mem_push.mp hg' with hg' | rfl
  · exact h.groups g' hg'
  · rw [PendingGroup.finished, hsource, gather_ofChars] at hg
    exact ⟨hopen, hne, _, _, hdrawn, hg⟩

/-- That one step of reading takes a text off `rest`, from where reading goes on to `x'`. -/
def Steps (run : TextRun) (pieces : List RawToken) (pos : Nat) (rest : List Char)
    (x' : Extraction) : Prop :=
  ∃ x xs ys, rest = xs ++ ys ∧ xs ≠ [] ∧
    decodeFrom (pos + byteLength xs) 0 ys ⊆ decodeFrom pos 0 rest ∧
    x.Draws run.delimiters run.nicknames pieces run.offset (run.offset + pos + byteLength xs) ∧
    Extraction.read run run.delimiters.opening.toList run.delimiters.closing.toList x 0
      (decodeFrom (pos + byteLength xs) 0 ys) = .ok x'

variable {rest : List Char} {ds found tail : List DecodedChar}

theorem exists_taken (hd : decodeFrom pos 0 rest = c :: found ++ tail) :
    ∃ xs ys, rest = xs ++ ys ∧ xs ≠ [] ∧ c :: found = decodeFrom pos 0 xs ∧
      tail = decodeFrom (pos + byteLength xs) 0 ys ∧
      decodeFrom pos 0 xs ⊆ decodeFrom pos 0 rest ∧
      decodeFrom (pos + byteLength xs) 0 ys ⊆ decodeFrom pos 0 rest := by
  obtain ⟨xs, ys, rfl, hxs, rfl⟩ := decodeFrom_eq_append hd
  refine ⟨xs, ys, rfl, ne_nil_of_decodeFrom hxs, hxs, rfl, ?_⟩
  rw [hd, hxs]
  exact ⟨List.subset_append_left _ _, List.subset_append_right _ _⟩

theorem steps_outside
    (h : x.Draws run.delimiters run.nicknames pieces run.offset (run.offset + pos))
    (hmem : .content text run.offset run.insideText ∈ pieces)
    (hsub : decodeFrom pos 0 rest ⊆ decodeFrom 0 0 text.toList) (hp : x.pending = none)
    (hd : decodeFrom pos 0 rest = c :: ds)
    (hx : Extraction.read run run.delimiters.opening.toList run.delimiters.closing.toList x 0
      (c :: ds) = .ok x') : Steps run pieces pos rest x' := by
  by_cases hopen : startsWith run.delimiters.opening.toList (c :: ds) = true
  · obtain ⟨d, found, tail, heq, hf⟩ := exists_of_startsWith hopen
    rw [heq, read_open hp hf] at hx
    obtain ⟨xs, ys, hrest, hne, hxs, rfl, hread, hys⟩ := exists_taken (hd.trans heq)
    have hdelimiter : run.delimiters.opening.toList ≠ [] := hf ▸ List.cons_ne_nil _ _
    rw [hxs] at hx
    exact ⟨_, xs, ys, hrest, hne, hys,
      h.opens hmem hdelimiter (List.Subset.trans hread hsub), hx⟩
  · rw [read_keep hp (by simpa using hopen)] at hx
    obtain ⟨xs, ys, hrest, hne, -, rfl, -, hys⟩ :=
      exists_taken (show decodeFrom pos 0 rest = [c] ++ ds from hd)
    exact ⟨x.keep c, xs, ys, hrest, hne, hys, h.keep hp c _, hx⟩

theorem steps_inside
    (h : x.Draws run.delimiters run.nicknames pieces run.offset (run.offset + pos))
    (hmem : .content text run.offset run.insideText ∈ pieces)
    (hsub : decodeFrom pos 0 rest ⊆ decodeFrom 0 0 text.toList) (hp : x.pending = some p)
    (hd : decodeFrom pos 0 rest = c :: ds)
    (hx : Extraction.read run run.delimiters.opening.toList run.delimiters.closing.toList x 0
      (c :: ds) = .ok x') : Steps run pieces pos rest x' := by
  by_cases hclose : p.quote = none ∧ startsWith run.delimiters.closing.toList (c :: ds) = true
  · obtain ⟨d, found, tail, heq, hf⟩ := exists_of_startsWith hclose.2
    rw [heq, read_close hp hclose.1 hf] at hx
    obtain ⟨xs, ys, hrest, hne, hxs, rfl, hread, hys⟩ := exists_taken (hd.trans heq)
    obtain ⟨x₂, hx₂, hx⟩ := bind_eq_ok.mp hx
    have hdelimiter : run.delimiters.closing.toList ≠ [] := hf ▸ List.cons_ne_nil _ _
    rw [hxs] at hx₂
    exact ⟨x₂, xs, ys, hrest, hne, hys,
      h.closes hmem hp hdelimiter (List.Subset.trans hread hsub) hx₂ _, hx⟩
  · rw [read_track hp hclose] at hx
    obtain ⟨xs, ys, hrest, hne, hxs, rfl, hread, hys⟩ :=
      exists_taken (show decodeFrom pos 0 rest = [c] ++ ds from hd)
    rw [hxs] at hx
    exact ⟨_, xs, ys, hrest, hne, hys, h.tracks hmem hp (List.Subset.trans hread hsub) c.char, hx⟩

theorem read (h : x.Draws run.delimiters run.nicknames pieces run.offset (run.offset + pos))
    (hmem : .content text run.offset run.insideText ∈ pieces)
    (hsub : decodeFrom pos 0 rest ⊆ decodeFrom 0 0 text.toList)
    (hx : read run run.delimiters.opening.toList run.delimiters.closing.toList x 0
      (decodeFrom pos 0 rest) = .ok x') :
    x'.Draws run.delimiters run.nicknames pieces run.offset
      (run.offset + pos + byteLength rest) := by
  -- A step can read several characters, so the induction is on how much text is left.
  induction hl : rest.length using Nat.strongRecOn generalizing x pos rest with
  | _ n ih =>
    subst hl
    cases hd : decodeFrom pos 0 rest with
    | nil =>
      obtain rfl := eq_nil_of_decodeFrom hd
      rw [hd] at hx
      obtain rfl := Except.ok.inj hx
      exact h
    | cons c ds =>
      rw [hd] at hx
      have hsteps : Steps run pieces pos rest x' := by
        cases hp : x.pending with
        | none => exact h.steps_outside hmem hsub hp hd hx
        | some p => exact h.steps_inside hmem hsub hp hd hx
      obtain ⟨x₂, xs, ys, rfl, hne, hys, h₂, hx₂⟩ := hsteps
      have hlt : ys.length < (xs ++ ys).length := by
        simpa [List.length_pos_iff] using hne
      rw [Nat.add_assoc] at h₂
      have hdraws := ih ys.length hlt h₂ (List.Subset.trans hys hsub) hx₂ rfl
      rwa [← Nat.add_assoc, Nat.add_assoc, ← byteLength_append] at hdraws

end Draws

end Extraction

section

variable {delimiters : Delimiters} {nicknames : Nicknames} {pieces tokens : List RawToken}
  {x x' : Extraction} {pos depth : Nat}

theorem extractFrom_draws (h : x.Draws delimiters nicknames pieces pos pos)
    (hmem : tokens ⊆ pieces) (hp : Placed pos tokens)
    (hl : pos + byteLength (tokens.flatMap (·.text.toList)) ≤ Span.limit)
    (hx : extractFrom delimiters nicknames x depth tokens = .ok x') :
    ∃ stop, x'.Draws delimiters nicknames pieces stop stop := by
  induction tokens generalizing x pos depth with
  | nil =>
    obtain rfl := Except.ok.inj hx
    exact ⟨pos, h⟩
  | cons token tokens ih =>
    obtain ⟨htoken, htail⟩ := List.cons_subset.mp hmem
    obtain ⟨hoffset, hp⟩ := hp
    rw [List.flatMap_cons, byteLength_append, ← Nat.add_assoc] at hl
    rw [Span.clamp_of_le (by omega)] at hoffset
    cases he : token.isEligible depth with
    | false =>
      rw [extractFrom_whole he] at hx
      exact ih ((h.push _).enter _) htail hp hl hx
    | true =>
      cases token with
      | content text offset insideText =>
        obtain rfl : offset = pos := hoffset
        rw [extractFrom_text he] at hx
        obtain ⟨x₂, hx₂, hx⟩ := bind_eq_ok.mp hx
        obtain ⟨x₃, hx₃, rfl⟩ := map_eq_ok.mp hx₂
        have hread : x₃.Draws delimiters nicknames pieces offset
            (offset + 0 + byteLength text.toList) :=
          Extraction.Draws.read h htoken (List.Subset.refl _) hx₃
        exact ih (hread.flush.enter 0) htail hp hl hx
      | _ => cases he

end

section

variable {delimiters : Delimiters} {nicknames : Nicknames} {textTags : List String}
  {document : String} {pieces : List RawToken} {stream : TemplateStream}

theorem extractGroups_drawn (ht : tokenize textTags document = .ok pieces)
    (hl : byteLength document.toList ≤ Span.limit)
    (h : extractGroups delimiters nicknames pieces = .ok stream) {g : Group}
    (hg : g ∈ stream.groups) :
    delimiters.opening.toList ≠ [] ∧ delimiters.closing.toList ≠ [] ∧ ∃ chars stop,
      Drawn pieces chars ∧
        readGroup delimiters nicknames ((LocatedText.ofChars chars).finish stop) = .ok g := by
  obtain ⟨x, hx, h⟩ := bind_eq_ok.mp h
  obtain ⟨stop, hdraws⟩ := extractFrom_draws .start (List.Subset.refl _) (tokenize_placed ht)
    (by rwa [tokenize_text ht, Nat.zero_add]) hx
  split at h
  next => cases h
  next =>
    obtain rfl := Except.ok.inj h
    exact hdraws.groups g hg

theorem byteLength_part_le {cs lead text rest : List Char} {limit : Nat}
    (hcs : cs = lead ++ text ++ rest) (h : byteLength cs ≤ limit) :
    byteLength lead + byteLength text ≤ limit := by
  rw [hcs, byteLength_append, byteLength_append] at h
  omega

theorem utf8Size_le_of_getLast? {cs : List Char} {last : Char} (h : cs.getLast? = some last) :
    last.utf8Size ≤ byteLength cs := by
  obtain ⟨init, rfl⟩ := List.getLast?_eq_some_iff.mp h
  rw [byteLength_append]
  exact Nat.le_add_left _ _

theorem Drawn.span_eq {before found after : List GroupChar}
    (h : Drawn pieces (before ++ found ++ after)) (stop : Nat) (ho : IsOnePiece found)
    (hne : found ≠ []) (ht : tokenize textTags document = .ok pieces)
    (hl : byteLength document.toList ≤ Span.limit) :
    ∃ lead rest, document.toList = lead ++ found.map GroupChar.char ++ rest ∧
      ∀ last ∈ (found.map GroupChar.char).getLast?,
        ((LocatedText.ofChars (before ++ found ++ after)).finish stop).span
            (byteLength (before.map GroupChar.char))
            (byteLength (before.map GroupChar.char) + byteLength (found.map GroupChar.char)) =
          ⟨byteLength lead,
            byteLength lead + (byteLength (found.map GroupChar.char) - last.utf8Size + 1)⟩ := by
  have hfound : Drawn pieces found := by
    refine ⟨fun c hc => h.isFrom c (by simp [hc]), ?_⟩
    exact (List.isChain_append.mp (List.isChain_append.mp h.ordered).1).2.1
  obtain ⟨lead, rest, hdoc, hfirst, hlast⟩ :=
    hfound.exists_split ho hne (tokenize_placed ht) (tokenize_text ht) hl
  refine ⟨lead, rest, hdoc, fun last hmem => ?_⟩
  have hcs := utf8Size_le_of_getLast? hmem
  rw [List.getLast?_map] at hmem
  obtain ⟨c, hc, rfl⟩ := Option.map_eq_some_iff.mp hmem
  obtain ⟨piece, ho⟩ := ho
  have hplain : c.decoded.source = [c.char] := (ho c (List.mem_of_getLast? hc)).2
  have hstop := hlast c hc
  rw [GroupChar.stop, hplain] at hstop
  have hsize := byteLength_part_le hdoc hl
  have hpos := c.char.utf8Size_pos
  have hone : byteLength [c.char] = c.char.utf8Size := Nat.add_zero _
  have hf := hfirst _ (List.head?_eq_some_head hne)
  rw [LocatedText.span_ofChars before after stop (List.head?_eq_some_head hne) hc, hf,
    Span.clamp_of_le (by omega), Span.clamp_of_le (by omega), Span.wrap_of_le (by omega)]
  congr 1
  omega

theorem scanGroup_found {chars : List GroupChar} {stop : Nat} {tokens : List Token} {t : Token}
    (h : scanGroup ((LocatedText.ofChars chars).finish stop) delimiters = .ok tokens)
    (ho : delimiters.opening.toList ≠ []) (hc : delimiters.closing.toList ≠ []) (ht : t ∈ tokens) :
    t.text ≠ [] ∧ ∃ before found after, chars = before ++ found ++ after ∧
      found.map GroupChar.char = t.text ∧
      t.span = ((LocatedText.ofChars chars).finish stop).span
        (byteLength (before.map GroupChar.char))
        (byteLength (before.map GroupChar.char) + byteLength t.text) := by
  obtain ⟨hne, seen, rest, htext, hspan⟩ := scanGroup_stands h ho hc ht
  rw [LocatedText.finish, LocatedText.text_ofChars] at htext
  obtain ⟨others, after, rfl, hothers, -⟩ := List.map_eq_append_iff.mp htext
  obtain ⟨before, found, rfl, rfl, hfound⟩ := List.map_eq_append_iff.mp hothers
  exact ⟨hne, before, found, after, rfl, hfound, hspan⟩

/-- A span that ends one byte after the start of the last character is the place of the text if and
only if that character takes one byte. -/
theorem place_iff {cs lead text rest : List Char} {last : Char} (hcs : cs = lead ++ text ++ rest)
    (hl : byteLength cs ≤ Span.limit) (hlast : text.getLast? = some last) :
    let span : Span := ⟨byteLength lead, byteLength lead + (byteLength text - last.utf8Size + 1)⟩
    (sliceBytes? cs span.start span.stop = some text ↔ last.utf8Size = 1) ∧
      (span = (LocatedText.contiguous (String.ofList text) (byteLength lead)).fullSpan ↔
        last.utf8Size = 1) := by
  have hsize := byteLength_part_le hcs hl
  have hlastSize := utf8Size_le_of_getLast? hlast
  have hpos := last.utf8Size_pos
  have hne : text ≠ [] := by
    rintro rfl
    cases hlast
  constructor
  · rw [hcs, sliceBytes?_eq_some_iff]
    omega
  · rw [fullSpan_contiguous hne hsize, Span.mk.injEq]
    omega

/-- A token that is written as it is in one piece of content starts where its text starts in the
document. It ends one byte after the start of its last character: its span is the place of its
text, as if the text were given in one piece, if and only if that character takes one byte. -/
theorem extractGroups_spans (ht : tokenize textTags document = .ok pieces)
    (hl : byteLength document.toList ≤ Span.limit)
    (h : extractGroups delimiters nicknames pieces = .ok stream) {g : Group}
    (hg : g ∈ stream.groups) :
    ∃ chars stop tokens, Drawn pieces chars ∧
      let source := (LocatedText.ofChars chars).finish stop
      scanGroup source delimiters = .ok tokens ∧
      Group.ofTokens tokens source.fullSpan nicknames = .ok g ∧ g.tokens ⊆ tokens ∧
      ∀ t ∈ tokens, ∃ before found after last, chars = before ++ found ++ after ∧
        found.map GroupChar.char = t.text ∧ t.text.getLast? = some last ∧
        t.span = source.span (byteLength (before.map GroupChar.char))
          (byteLength (before.map GroupChar.char) + byteLength t.text) ∧
        (IsOnePiece found → ∃ lead rest, document.toList = lead ++ t.text ++ rest ∧
          t.span =
            ⟨byteLength lead, byteLength lead + (byteLength t.text - last.utf8Size + 1)⟩ ∧
          (sliceBytes? document.toList t.span.start t.span.stop = some t.text ↔
            last.utf8Size = 1) ∧
          (t.span = (LocatedText.contiguous (String.ofList t.text) (byteLength lead)).fullSpan ↔
            last.utf8Size = 1)) := by
  obtain ⟨hopen, hclose, chars, stop, hdrawn, hread⟩ := extractGroups_drawn ht hl h hg
  obtain ⟨tokens, hscan, hgroup⟩ := bind_eq_ok.mp hread
  rw [mapError_eq_ok] at hscan
  refine ⟨chars, stop, tokens, hdrawn, hscan, hgroup, Group.ofTokens_subset hgroup,
    fun t htoken => ?_⟩
  obtain ⟨hne, before, found, after, rfl, hfound, hspan⟩ :=
    scanGroup_found hscan hopen hclose htoken
  obtain ⟨last, hlast⟩ : ∃ last, t.text.getLast? = some last :=
    ⟨_, List.getLast?_eq_some_getLast hne⟩
  refine ⟨before, found, after, last, rfl, hfound, hlast, hspan, fun ho => ?_⟩
  have hfoundNe : found ≠ [] := by
    rintro rfl
    exact hne hfound.symm
  obtain ⟨lead, rest, hdoc, hexact⟩ := hdrawn.span_eq stop ho hfoundNe ht hl
  rw [hfound] at hdoc hexact
  rw [hexact last hlast] at hspan
  have hplace := place_iff hdoc hl hlast
  rw [← hspan] at hplace
  exact ⟨lead, rest, hdoc, hspan, hplace⟩

end

def accented : String := "<t>\x7baé + b\x7d</t>"

def accentedPieces : List RawToken :=
  [.tag "t" .opening "<t>" 0 true, .content "\x7baé + b\x7d" 3 true,
    .tag "t" .closing "</t>" 12 true]

def accentedGroup : Group :=
  ⟨[⟨.opening, "\x7b", ⟨3, 4⟩, none⟩, ⟨.identifier, "aé", ⟨4, 6⟩, none⟩,
    ⟨.plus, "+", ⟨8, 9⟩, none⟩, ⟨.identifier, "b", ⟨10, 11⟩, none⟩,
    ⟨.closing, "\x7d", ⟨11, 12⟩, none⟩], .placeholder, ⟨3, 12⟩, .stay, .both, false, none⟩

theorem isFrom_accented {c : GroupChar} (h : c.IsFrom accentedPieces) :
    c.piece = 3 ∧ c.IsPlain := by
  obtain ⟨text, insideText, hmem, hc⟩ := h
  obtain ⟨rfl, hpiece, -⟩ : text = "\x7baé + b\x7d" ∧ c.piece = 3 ∧ insideText = true := by
    simpa [accentedPieces] using hmem
  have hall : ∀ d ∈ decodeFrom 0 0 "\x7baé + b\x7d".toList, d.source = [d.char] := by
    decide +kernel
  exact ⟨hpiece, hall _ hc⟩

theorem extractGroups_spans_accented :
    tokenize ["t"] accented = .ok accentedPieces ∧ byteLength accented.toList ≤ Span.limit ∧
      ∃ stream, extractGroups .standard [] accentedPieces = .ok stream ∧
        accentedGroup ∈ stream.groups ∧
        ∀ t ∈ accentedGroup.tokens, ∃ last lead rest, t.text.getLast? = some last ∧
          accented.toList = lead ++ t.text ++ rest ∧
          t.span =
            ⟨byteLength lead, byteLength lead + (byteLength t.text - last.utf8Size + 1)⟩ ∧
          (sliceBytes? accented.toList t.span.start t.span.stop = some t.text ↔
            last.utf8Size = 1) := by
  have ht : tokenize ["t"] accented = .ok accentedPieces := by rfl
  have hl : byteLength accented.toList ≤ Span.limit := by decide
  have h : extractGroups .standard [] accentedPieces = .ok ⟨[.raw accentedPieces[0], .group 0,
      .raw accentedPieces[2]], #[accentedGroup]⟩ := by
    decide +kernel
  have hg : accentedGroup ∈ #[accentedGroup] := by simp
  obtain ⟨chars, stop, tokens, hdrawn, -, -, hsub, hall⟩ := extractGroups_spans ht hl h hg
  refine ⟨ht, hl, _, h, hg, fun t htoken => ?_⟩
  obtain ⟨before, found, after, last, rfl, -, hlast, -, hplace⟩ := hall t (hsub htoken)
  have hone : IsOnePiece found :=
    ⟨3, fun c hc => isFrom_accented (hdrawn.isFrom c (by simp [hc]))⟩
  obtain ⟨lead, rest, hdoc, hspan, hslice, -⟩ := hplace hone
  exact ⟨last, lead, rest, hlast, hdoc, hspan, hslice⟩

/-- The span of such an identifier ends inside its last character. -/
example : sliceBytes? accented.toList 4 6 = none := by decide +kernel

end DocTemplate
