import DocTemplate.Proofs.Markup.Pieces
import DocTemplate.Proofs.Text.Decoding

namespace DocTemplate

/-- A part of a document: a token that stays, or a text that belongs to a group and the byte where
it starts. -/
inductive Part where
  | kept (token : RawToken)
  | opens (id : GroupId) (offset : Nat) (text : List Char)
  | continues (id : GroupId) (offset : Nat) (text : List Char)
  deriving DecidableEq, Repr

namespace Part

def chars : Part → List Char
  | kept token => token.text.toList
  | opens _ _ text => text
  | continues _ _ text => text

def item? : Part → Option StreamItem
  | kept token => some (.raw token)
  | opens id _ _ => some (.group id)
  | continues .. => none

/-- The text that a part gives to the group of this number. -/
def given? (id : GroupId) : Part → Option (Nat × List Char)
  | kept _ => none
  | opens owner offset text => if owner = id then some (offset, text) else none
  | continues owner offset text => if owner = id then some (offset, text) else none

end Part

/-- The parts of a text that starts at byte `pos`. The offset of a token that starts at a byte is
what `place` makes of the byte. -/
inductive Division (place : Nat → Nat) (opening : List Char) (insideText : Bool) :
    Nat → List Char → List Part → Prop
  | nil {pos : Nat} : Division place opening insideText pos [] []
  | kept {pos : Nat} {cs rest : List Char} {parts : List Part} : cs ≠ [] →
      Division place opening insideText (pos + byteLength cs) rest parts →
      Division place opening insideText pos (cs ++ rest)
        (.kept (.content (String.ofList cs) (place pos) insideText) :: parts)
  | opens {pos : Nat} {cs rest : List Char} {id : GroupId} {parts : List Part} :
      decode cs = opening →
      Division place opening insideText (pos + byteLength cs) rest parts →
      Division place opening insideText pos (cs ++ rest) (.opens id pos cs :: parts)
  | continues {pos : Nat} {cs rest : List Char} {id : GroupId} {parts : List Part} : cs ≠ [] →
      Division place opening insideText (pos + byteLength cs) rest parts →
      Division place opening insideText pos (cs ++ rest) (.continues id pos cs :: parts)

def RawToken.isEligible (depth : Nat) : RawToken → Bool
  | content _ _ insideText => insideText || depth == 0
  | _ => false

/-- The parts of the pieces that stand from byte `pos` on and start inside `depth` elements:
eligible text is divided, any other piece is kept as it is. -/
inductive Divided (place : Nat → Nat) (opening : List Char) :
    Nat → Nat → List RawToken → List Part → Prop
  | nil {pos depth : Nat} : Divided place opening pos depth [] []
  | whole {pos depth : Nat} {token : RawToken} {tokens : List RawToken} {parts : List Part} :
      token.isEligible depth = false →
      Divided place opening (pos + byteLength token.text.toList) (elementDepthAfter depth token)
        tokens parts →
      Divided place opening pos depth (token :: tokens) (.kept token :: parts)
  | text {pos depth : Nat} {text : String} {insideText : Bool} {tokens : List RawToken}
      {run parts : List Part} :
      (RawToken.content text (place pos) insideText).isEligible depth = true →
      Division place opening insideText pos text.toList run →
      Divided place opening (pos + byteLength text.toList) depth tokens parts →
      Divided place opening pos depth (.content text (place pos) insideText :: tokens)
        (run ++ parts)

section

variable {place : Nat → Nat} {opening cs ds : List Char} {insideText : Bool} {pos depth : Nat}
  {parts more : List Part} {tokens : List RawToken}

theorem Division.append (h : Division place opening insideText pos cs parts)
    (hd : Division place opening insideText (pos + byteLength cs) ds more) :
    Division place opening insideText pos (cs ++ ds) (parts ++ more) := by
  induction h with
  | nil => exact hd
  | kept hc _ ih =>
    rw [List.append_assoc]
    exact .kept hc (ih (by rwa [byteLength_append, ← Nat.add_assoc] at hd))
  | opens hc _ ih =>
    rw [List.append_assoc]
    exact .opens hc (ih (by rwa [byteLength_append, ← Nat.add_assoc] at hd))
  | continues hc _ ih =>
    rw [List.append_assoc]
    exact .continues hc (ih (by rwa [byteLength_append, ← Nat.add_assoc] at hd))

theorem Division.chars (h : Division place opening insideText pos cs parts) :
    parts.flatMap Part.chars = cs := by
  induction h with
  | nil => rfl
  | kept _ _ ih => rw [List.flatMap_cons, ih, Part.chars, RawToken.text, String.toList_ofList]
  | opens _ _ ih => rw [List.flatMap_cons, ih, Part.chars]
  | continues _ _ ih => rw [List.flatMap_cons, ih, Part.chars]

theorem Divided.chars (h : Divided place opening pos depth tokens parts) :
    parts.flatMap Part.chars = tokens.flatMap (·.text.toList) := by
  induction h with
  | nil => rfl
  | whole _ _ ih => rw [List.flatMap_cons, ih, List.flatMap_cons, Part.chars]
  | text _ hd _ ih => rw [List.flatMap_append, hd.chars, ih, List.flatMap_cons, RawToken.text]

theorem Division.exact (h : Division Span.clamp opening insideText pos cs parts)
    (hl : pos + byteLength cs ≤ Span.limit) : Division id opening insideText pos cs parts := by
  induction h with
  | nil => exact .nil
  | kept hc _ ih =>
    rw [byteLength_append] at hl
    rw [Span.clamp_of_le (by omega)]
    exact .kept hc (ih (by omega))
  | opens hc _ ih =>
    rw [byteLength_append] at hl
    exact .opens hc (ih (by omega))
  | continues hc _ ih =>
    rw [byteLength_append] at hl
    exact .continues hc (ih (by omega))

theorem Divided.exact (h : Divided Span.clamp opening pos depth tokens parts)
    (hl : pos + byteLength (tokens.flatMap (·.text.toList)) ≤ Span.limit) :
    Divided id opening pos depth tokens parts := by
  induction h with
  | nil => exact .nil
  | whole he _ ih =>
    rw [List.flatMap_cons, byteLength_append] at hl
    exact .whole he (ih (by omega))
  | @text pos _ text _ _ _ _ he hd _ ih =>
    rw [List.flatMap_cons, byteLength_append, RawToken.text] at hl
    rw [Span.clamp_of_le (by omega)] at he ⊢
    exact .text he (hd.exact (by omega)) (ih (by omega))

end

namespace LocatedText

def appendDecoded (t : LocatedText) (offset : Nat) (text : List Char) : LocatedText :=
  (decodeFrom offset 0 text).foldl (fun t c => t.appendAt c.char (Span.clamp c.start)) t

def gathered (texts : List (Nat × List Char)) : LocatedText :=
  texts.foldl (fun t part => t.appendDecoded part.1 part.2) .empty

def ofTexts (texts : List (Nat × List Char)) : LocatedText :=
  (gathered texts).finish
    (Span.clamp ((texts.getLast?.map fun part => part.1 + byteLength part.2).getD 0))

end LocatedText

def readGroup (delimiters : Delimiters) (nicknames : Nicknames) (source : LocatedText) :
    Except GroupFault Group := do
  let tokens ← (scanGroup source delimiters).mapError fun f => ⟨.scan f.cause, f.span, f.lexeme⟩
  Group.ofTokens tokens source.fullSpan nicknames

theorem Span.clamp_clamp_add (a b : Nat) : clamp (clamp a + b) = clamp (a + b) := by
  unfold clamp
  omega

theorem gather_decodeFrom {run : TextRun} {base : Nat} (h : run.offset = Span.clamp base)
    (source : LocatedText) (pos : Nat) (cs : List Char) :
    Extraction.gather run source (decodeFrom pos 0 cs) =
      source.appendDecoded (base + pos) cs := by
  unfold Extraction.gather LocatedText.appendDecoded
  rw [h]
  induction cs using decode_induction generalizing source pos with
  | nil => rfl
  | char c cs hc ih =>
    rw [decodeFrom_char hc, decodeFrom_char hc, List.foldl_cons, List.foldl_cons, ih,
      Span.clamp_clamp_add, Nat.add_assoc]
  | entity d xs rest hx ih =>
    rw [decodeFrom_entity hx, decodeFrom_entity hx, List.foldl_cons, List.foldl_cons, ih,
      Span.clamp_clamp_add, Nat.add_assoc]

section

variable {parts : List Part} {id owner : GroupId} {offset : Nat} {cs : List Char}

theorem given_kept (token : RawToken) : (parts ++ [Part.kept token]).filterMap (Part.given? id) =
    parts.filterMap (Part.given? id) := by
  simp [Part.given?]

theorem given_continues : (parts ++ [Part.continues owner offset cs]).filterMap (Part.given? id) =
    parts.filterMap (Part.given? id) ++ if owner = id then [(offset, cs)] else [] := by
  by_cases h : owner = id <;> simp [Part.given?, h]

theorem given_opens : (parts ++ [Part.opens owner offset cs]).filterMap (Part.given? id) =
    parts.filterMap (Part.given? id) ++ if owner = id then [(offset, cs)] else [] := by
  by_cases h : owner = id <;> simp [Part.given?, h]

theorem gathered_append (texts : List (Nat × List Char)) (offset : Nat) (cs : List Char) :
    LocatedText.gathered (texts ++ [(offset, cs)]) =
      (LocatedText.gathered texts).appendDecoded offset cs := by
  simp [LocatedText.gathered]

theorem ofTexts_append (texts : List (Nat × List Char)) (offset : Nat) (cs : List Char) :
    LocatedText.ofTexts (texts ++ [(offset, cs)]) =
      ((LocatedText.gathered texts).appendDecoded offset cs).finish
        (Span.clamp (offset + byteLength cs)) := by
  rw [LocatedText.ofTexts, gathered_append, List.getLast?_concat]
  rfl

end

namespace Extraction

def stream (x : Extraction) : List StreamItem :=
  match x.pending with
  | none => x.items.reverse
  | some p => x.items.reverse ++ .group x.groups.size :: p.held.reverse

def source? (x : Extraction) : Option LocatedText := x.pending.map PendingGroup.source

def opened (x : Extraction) : Nat := x.groups.size + x.source?.isSome.toNat

/-- What has been read, accounted for by the parts read so far. -/
structure Accounts (delimiters : Delimiters) (nicknames : Nicknames) (x : Extraction)
    (parts : List Part) : Prop where
  items : x.stream = parts.filterMap Part.item?
  numbered : groupIds x.stream = List.range x.opened
  untaken : ∀ id, x.opened ≤ id → parts.filterMap (Part.given? id) = []
  closed : ∀ id (h : id < x.groups.size), readGroup delimiters nicknames
    (.ofTexts (parts.filterMap (Part.given? id))) = .ok x.groups[id]
  pending : ∀ source ∈ x.source?, source = .gathered (parts.filterMap (Part.given? x.groups.size))

namespace Accounts

variable {delimiters : Delimiters} {nicknames : Nicknames} {x x' : Extraction} {parts : List Part}
  {offset : Nat} {cs : List Char} {source : LocatedText}

theorem start : (Extraction.start).Accounts delimiters nicknames [] :=
  ⟨rfl, rfl, fun _ _ => rfl, fun _ h => absurd h (Nat.not_lt_zero _), nofun⟩

theorem kept (hx : x.Accounts delimiters nicknames parts) {token : RawToken}
    (hs : x'.stream = x.stream ++ [.raw token]) (hg : x'.groups = x.groups)
    (hp : x'.source? = x.source?) :
    x'.Accounts delimiters nicknames (parts ++ [.kept token]) := by
  have ho : x'.opened = x.opened := by rw [opened, opened, hg, hp]
  refine ⟨?_, ?_, fun id h => ?_, fun id h => ?_, fun source h => ?_⟩
  · rw [hs, hx.items]
    simp [Part.item?]
  · rw [hs, ho, ← hx.numbered]
    simp [groupIds, StreamItem.group?]
  · rw [given_kept]
    exact hx.untaken id (ho ▸ h)
  · rw [given_kept]
    simp only [hg] at h ⊢
    exact hx.closed id h
  · rw [given_kept, hg]
    exact hx.pending source (hp ▸ h)

theorem opens (hx : x.Accounts delimiters nicknames parts) (h : x.source? = none)
    (hs : x'.stream = x.stream ++ [.group x.groups.size]) (hg : x'.groups = x.groups)
    (hp : x'.source? = some (LocatedText.empty.appendDecoded offset cs)) :
    x'.Accounts delimiters nicknames (parts ++ [.opens x.groups.size offset cs]) := by
  have ho : x.opened = x.groups.size := by simp [opened, h]
  have ho' : x'.opened = x.groups.size + 1 := by simp [opened, hg, hp]
  have hnone := hx.untaken x.groups.size (by omega)
  refine ⟨?_, ?_, fun id hid => ?_, fun id hid => ?_, fun source hsource => ?_⟩
  · rw [hs, hx.items]
    simp [Part.item?]
  · rw [hs, ho', List.range_succ, ← ho, ← hx.numbered, ho]
    simp [groupIds, StreamItem.group?]
  · rw [given_opens, if_neg (show x.groups.size ≠ id by omega), hx.untaken id (by omega)]
    rfl
  · simp only [hg] at hid ⊢
    rw [given_opens, if_neg (show x.groups.size ≠ id by omega), List.append_nil]
    exact hx.closed id hid
  · obtain rfl := Option.some.inj (hp.symm.trans hsource)
    rw [hg, given_opens, hnone, if_pos rfl]
    rfl

theorem continues (hx : x.Accounts delimiters nicknames parts) (h : x.source? = some source)
    (hs : x'.stream = x.stream) (hg : x'.groups = x.groups)
    (hp : x'.source? = some (source.appendDecoded offset cs)) :
    x'.Accounts delimiters nicknames (parts ++ [.continues x.groups.size offset cs]) := by
  have ho : x.opened = x.groups.size + 1 := by simp [opened, h]
  have ho' : x'.opened = x.opened := by simp [opened, hg, h, hp]
  refine ⟨?_, ?_, fun id hid => ?_, fun id hid => ?_, fun source' hsource => ?_⟩
  · rw [hs, hx.items]
    simp [Part.item?]
  · rw [hs, ho', hx.numbered]
  · rw [given_continues, if_neg (show x.groups.size ≠ id by omega), hx.untaken id (by omega)]
    rfl
  · simp only [hg] at hid ⊢
    rw [given_continues, if_neg (show x.groups.size ≠ id by omega), List.append_nil]
    exact hx.closed id hid
  · obtain rfl := Option.some.inj (hp.symm.trans hsource)
    rw [hg, given_continues, if_pos rfl, gathered_append, ← hx.pending source h]

theorem closes (hx : x.Accounts delimiters nicknames parts) (h : x.source? = some source)
    {g : Group} (hs : x'.stream = x.stream) (hg : x'.groups = x.groups.push g)
    (hp : x'.source? = none)
    (hr : readGroup delimiters nicknames ((source.appendDecoded offset cs).finish
      (Span.clamp (offset + byteLength cs))) = .ok g) :
    x'.Accounts delimiters nicknames (parts ++ [.continues x.groups.size offset cs]) := by
  have ho : x.opened = x.groups.size + 1 := by simp [opened, h]
  have ho' : x'.opened = x.opened := by simp [opened, hg, h, hp]
  refine ⟨?_, ?_, fun id hid => ?_, fun id hid => ?_, by simp [hp]⟩
  · rw [hs, hx.items]
    simp [Part.item?]
  · rw [hs, ho', hx.numbered]
  · rw [given_continues, if_neg (show x.groups.size ≠ id by omega), hx.untaken id (by omega)]
    rfl
  · simp only [hg, Array.getElem_push]
    rw [hg, Array.size_push] at hid
    split
    next hlt =>
      rw [given_continues, if_neg (show x.groups.size ≠ id by omega), List.append_nil]
      exact hx.closed id hlt
    next hlt =>
      obtain rfl : x.groups.size = id := by omega
      rw [given_continues, if_pos rfl, ofTexts_append, ← hx.pending source h, hr]

end Accounts

section

variable {run : TextRun} {opening closing : List Char} {x : Extraction} {c : DecodedChar}
  {found tail cs : List DecodedChar} {p : PendingGroup}

theorem startsWith_append {delimiter : List Char}
    (hf : (c :: found).map DecodedChar.char = delimiter) :
    startsWith delimiter (c :: found ++ tail) = true := by
  have htake : (c :: found ++ tail).take delimiter.length = c :: found := by simp [← hf]
  rw [startsWith, htake, hf, List.isPrefixOf_iff_prefix.mpr (List.prefix_refl _), ← hf]
  rfl

theorem exists_of_startsWith {delimiter : List Char} (h : startsWith delimiter cs = true) :
    ∃ c found tail, cs = c :: found ++ tail ∧ (c :: found).map DecodedChar.char = delimiter := by
  obtain ⟨hne, hpre⟩ := Bool.and_eq_true_iff.mp h
  rw [List.isPrefixOf_iff_prefix] at hpre
  have hmap : delimiter = (cs.take delimiter.length).map DecodedChar.char :=
    hpre.eq_of_length_le (by simp)
  cases htake : cs.take delimiter.length with
  | nil =>
    rw [htake] at hmap
    exact absurd hmap (by simpa using hne)
  | cons c found =>
    refine ⟨c, found, cs.drop delimiter.length, ?_, by rw [← htake, ← hmap]⟩
    rw [← htake, List.take_append_drop]

theorem read_skip (found : List DecodedChar) :
    read run opening closing x found.length (found ++ tail) =
      read run opening closing x 0 tail := by
  induction found with
  | nil => rfl
  | cons c found ih => rw [List.cons_append, List.length_cons, read, ih]

theorem read_open (hp : x.pending = none) (hf : (c :: found).map DecodedChar.char = opening) :
    read run opening closing x 0 (c :: found ++ tail) =
      read run opening closing (x.openGroup run c (c :: found)) 0 tail := by
  have hlen : opening.length = found.length + 1 := by rw [← hf]; simp
  rw [List.cons_append, read]
  simp only [hp]
  rw [← List.cons_append, if_pos (startsWith_append hf), hlen, Nat.add_sub_cancel, read_skip]
  congr 2
  simp

theorem read_keep (hp : x.pending = none) (hn : startsWith opening (c :: cs) = false) :
    read run opening closing x 0 (c :: cs) = read run opening closing (x.keep c) 0 cs := by
  rw [read]
  simp [hp, hn]

theorem read_close (hp : x.pending = some p) (hq : p.quote = none)
    (hf : (c :: found).map DecodedChar.char = closing) :
    read run opening closing x 0 (c :: found ++ tail) =
      x.closeGroup run p (c :: found) >>= fun x' => read run opening closing x' 0 tail := by
  have hlen : closing.length = found.length + 1 := by rw [← hf]; simp
  have htake : (c :: found ++ tail).take closing.length = c :: found := by simp [hlen]
  rw [List.cons_append, read]
  simp only [hp]
  rw [← List.cons_append, if_pos ⟨hq, startsWith_append hf⟩, htake, hlen, Nat.add_sub_cancel]
  cases x.closeGroup run p (c :: found) with
  | ok x' => exact read_skip found
  | error f => rfl

theorem read_track (hp : x.pending = some p)
    (hn : ¬(p.quote = none ∧ startsWith closing (c :: cs) = true)) :
    read run opening closing x 0 (c :: cs) =
      read run opening closing { x with
        pending := some { PendingGroup.track p c.char with
          source := gather run p.source [c] } } 0 cs := by
  rw [read]
  simp only [hp, if_neg hn]

end

section

variable {run : TextRun} {x x' : Extraction} {parts : List Part} {pos : Nat} {cs : List Char}
  {p : PendingGroup}

@[simp] theorem flush_groups : (x.flush run).groups = x.groups := by
  unfold flush
  split <;> rfl

@[simp] theorem flush_pending : (x.flush run).pending = x.pending := by
  unfold flush
  split <;> rfl

@[simp] theorem flush_run : (x.flush run).run = [] := by
  unfold flush
  split
  · assumption
  · rfl

theorem held_track (p : PendingGroup) (c : Char) : (PendingGroup.track p c).held = p.held := by
  unfold PendingGroup.track
  split
  · rfl
  · split <;> try split <;> try split
    all_goals rfl

/-- A state of reading a run of text that starts at byte `base`: `parts` account for everything
before byte `pos` of the run, and `plain` is the text from there on that is not yet in the
stream. -/
structure Reading (run : TextRun) (base : Nat) (x : Extraction) (parts : List Part) (pos : Nat)
    (plain : List Char) : Prop where
  accounts : x.Accounts run.delimiters run.nicknames parts
  text : x.run.reverse = plain
  idle : x.pending = none ∨ plain = []
  starts : plain ≠ [] → x.runStart = pos

namespace Reading

variable {base : Nat} {plain : List Char} {c : DecodedChar}

theorem flush (opening : List Char) (hb : run.offset = Span.clamp base)
    (h : Reading run base x parts pos plain) :
    ∃ new, (x.flush run).Accounts run.delimiters run.nicknames (parts ++ new) ∧
      Division Span.clamp opening run.insideText (base + pos) plain new := by
  obtain ⟨hx, rfl, hidle, hstart⟩ := h
  unfold Extraction.flush
  split
  next hr =>
    rw [hr]
    exact ⟨[], by rwa [List.append_nil], .nil⟩
  next hr =>
    have hplain : x.run.reverse ≠ [] := by simpa using hr
    have hnone := hidle.resolve_right hplain
    rw [hstart hplain, hb, Span.clamp_clamp_add]
    refine ⟨[.kept (.content (String.ofList x.run.reverse) (Span.clamp (base + pos))
      run.insideText)], hx.kept ?_ rfl rfl, ?_⟩
    · simp [stream, hnone]
    · simpa using Division.kept hplain .nil

theorem opens {opening : List Char} (hb : run.offset = Span.clamp base)
    (h : Reading run base x parts pos plain) (hp : x.pending = none) (hc : decode cs = opening) :
    ∃ new, Reading run base (x.openGroup run c (decodeFrom (pos + byteLength plain) 0 cs))
        (parts ++ new) (pos + byteLength (plain ++ cs)) [] ∧
      Division Span.clamp opening run.insideText (base + pos) (plain ++ cs) new := by
  obtain ⟨new, hnew, hdiv⟩ := h.flush opening hb
  refine ⟨new ++ [.opens x.groups.size (base + pos + byteLength plain) cs],
    ⟨?_, by simp [openGroup], .inr rfl, nofun⟩, hdiv.append ?_⟩
  · rw [show x.groups.size = (x.flush run).groups.size by rw [flush_groups],
      ← List.append_assoc, Nat.add_assoc]
    refine hnew.opens ?_ ?_ rfl ?_
    · simp [source?, hp]
    · simp [stream, openGroup, hp]
    · rw [source?, openGroup, gather_decodeFrom hb]
      rfl
  · simpa using Division.opens hc .nil

theorem keep (h : Reading run base x parts pos plain) (hp : x.pending = none)
    (hc : [c] = decodeFrom (pos + byteLength plain) 0 cs) :
    Reading run base (x.keep c) parts pos (plain ++ cs) := by
  obtain ⟨rfl, hat⟩ := decodeFrom_eq_singleton hc
  obtain ⟨hx, rfl, -, hstart⟩ := h
  refine ⟨⟨hx.items, hx.numbered, hx.untaken, hx.closed, hx.pending⟩, by simp [Extraction.keep],
    .inl hp, fun _ => ?_⟩
  unfold Extraction.keep
  split
  next hr => simpa [hr, byteLength] using hat
  next hr => exact hstart (by simpa using hr)

theorem tracks (hb : run.offset = Span.clamp base) (h : Reading run base x parts pos [])
    (hp : x.pending = some p) (c : Char) :
    Reading run base
      { x with pending := some { PendingGroup.track p c with
          source := gather run p.source (decodeFrom pos 0 cs) } }
      (parts ++ [.continues x.groups.size (base + pos) cs]) (pos + byteLength cs) [] := by
  refine ⟨h.accounts.continues (by rw [source?, hp]; rfl) ?_ rfl ?_, h.text, .inr rfl, nofun⟩
  · simp [stream, hp, held_track]
  · rw [source?, gather_decodeFrom hb]
    rfl

theorem closes (hb : run.offset = Span.clamp base) (h : Reading run base x parts pos [])
    (hp : x.pending = some p) (hcs : cs ≠ [])
    (hx : x.closeGroup run p (decodeFrom pos 0 cs) = .ok x') :
    Reading run base x' (parts ++ [.continues x.groups.size (base + pos) cs])
      (pos + byteLength cs) [] := by
  unfold closeGroup at hx
  extract_lets source stop source' at hx
  obtain ⟨tokens, ht, hx⟩ := bind_eq_ok.mp hx
  obtain ⟨g, hg, hx⟩ := bind_eq_ok.mp hx
  obtain rfl := Except.ok.inj hx
  refine ⟨h.accounts.closes (by rw [source?, hp]; rfl) ?_ rfl rfl ?_, h.text, .inr rfl, nofun⟩
  · simp [stream, hp]
  · have hsource : source' = (p.source.appendDecoded (base + pos) cs).finish
        (Span.clamp (base + pos + byteLength cs)) := by
      simp only [source', source, stop, gather_decodeFrom hb, stop_decodeFrom hcs, hb,
        Span.clamp_clamp_add, Nat.add_assoc]
    rw [← hsource]
    exact bind_eq_ok.mpr ⟨tokens, ht, hg⟩

/-- That one step of reading leaves less of the text, from where reading goes on to `x'`, and the
parts that it adds stand before those of the text it leaves. -/
def Steps (run : TextRun) (base : Nat) (parts : List Part) (pos : Nat) (plain rest : List Char)
    (x' : Extraction) : Prop :=
  ∃ x new pos' plain' rest', rest'.length < rest.length ∧
    Reading run base x (parts ++ new) pos' plain' ∧
    Extraction.read run run.delimiters.opening.toList run.delimiters.closing.toList x 0
      (decodeFrom (pos' + byteLength plain') 0 rest') = .ok x' ∧
    ∀ more, Division Span.clamp run.delimiters.opening.toList run.insideText (base + pos')
        (plain' ++ rest') more →
      Division Span.clamp run.delimiters.opening.toList run.insideText (base + pos)
        (plain ++ rest) (new ++ more)

theorem steps_outside {rest : List Char} {cs : List DecodedChar}
    (hb : run.offset = Span.clamp base) (h : Reading run base x parts pos plain)
    (hp : x.pending = none) (hd : decodeFrom (pos + byteLength plain) 0 rest = c :: cs)
    (hx : read run run.delimiters.opening.toList run.delimiters.closing.toList x 0 (c :: cs) =
      .ok x') :
    Steps run base parts pos plain rest x' := by
  by_cases hopen : startsWith run.delimiters.opening.toList (c :: cs) = true
  · obtain ⟨d, found, tail, heq, hf⟩ := exists_of_startsWith hopen
    rw [heq] at hx hd
    rw [read_open hp hf] at hx
    obtain ⟨xs, ys, rfl, hxs, rfl⟩ := decodeFrom_eq_append hd
    have hdecode : decode xs = run.delimiters.opening.toList := by
      rw [decode, map_char_decodeFrom 0 (pos + byteLength plain), ← hxs, hf]
    rw [hxs, Nat.add_assoc, ← byteLength_append] at hx
    obtain ⟨new, hnew, hdiv⟩ := h.opens (c := d) hb hp hdecode
    refine ⟨_, new, _, [], ys, length_lt_of_decodeFrom hxs, hnew, hx, fun more hmore => ?_⟩
    rw [← List.append_assoc]
    exact hdiv.append (by rwa [Nat.add_assoc])
  · rw [read_keep hp (by simpa using hopen)] at hx
    obtain ⟨xs, ys, rfl, hxs, rfl⟩ := decodeFrom_eq_cons hd
    rw [Nat.add_assoc, ← byteLength_append] at hx
    refine ⟨x.keep c, [], pos, plain ++ xs, ys, length_lt_of_decodeFrom hxs, ?_, hx,
      fun more hmore => ?_⟩
    · rw [List.append_nil]
      exact h.keep hp hxs
    · rwa [← List.append_assoc]

theorem Steps.belongs {id : GroupId} {xs ys : List Char} (hne : xs ≠ [])
    (h : Reading run base x (parts ++ [.continues id (base + pos) xs])
      (pos + byteLength xs) [])
    (hx : Extraction.read run run.delimiters.opening.toList run.delimiters.closing.toList x 0
      (decodeFrom (pos + byteLength xs) 0 ys) = .ok x') :
    Steps run base parts pos [] (xs ++ ys) x' :=
  ⟨x, _, _, [], ys, by simpa [List.length_pos_iff] using hne, h, hx,
    fun _ hmore => .continues hne (by rwa [Nat.add_assoc])⟩

theorem steps_inside {rest : List Char} {cs : List DecodedChar}
    (hb : run.offset = Span.clamp base) (h : Reading run base x parts pos [])
    (hp : x.pending = some p) (hd : decodeFrom pos 0 rest = c :: cs)
    (hx : read run run.delimiters.opening.toList run.delimiters.closing.toList x 0 (c :: cs) =
      .ok x') :
    Steps run base parts pos [] rest x' := by
  by_cases hclose : p.quote = none ∧ startsWith run.delimiters.closing.toList (c :: cs) = true
  · obtain ⟨d, found, tail, heq, hf⟩ := exists_of_startsWith hclose.2
    rw [heq] at hx hd
    rw [read_close hp hclose.1 hf] at hx
    obtain ⟨xs, ys, rfl, hxs, rfl⟩ := decodeFrom_eq_append hd
    obtain ⟨x₂, hx₂, hx⟩ := bind_eq_ok.mp hx
    rw [hxs] at hx₂
    have hne := ne_nil_of_decodeFrom hxs
    exact .belongs hne (h.closes hb hp hne hx₂) hx
  · rw [read_track hp hclose] at hx
    obtain ⟨xs, ys, rfl, hxs, rfl⟩ := decodeFrom_eq_cons hd
    rw [hxs] at hx
    exact .belongs (ne_nil_of_decodeFrom hxs) (h.tracks hb hp c.char) hx

theorem read {rest : List Char} (hb : run.offset = Span.clamp base)
    (h : Reading run base x parts pos plain)
    (hx : read run run.delimiters.opening.toList run.delimiters.closing.toList x 0
      (decodeFrom (pos + byteLength plain) 0 rest) = .ok x') :
    ∃ new, (x'.flush run).Accounts run.delimiters run.nicknames (parts ++ new) ∧
      Division Span.clamp run.delimiters.opening.toList run.insideText (base + pos) (plain ++ rest)
        new := by
  -- A step can read several characters, so the induction is on how much text is left.
  induction hl : rest.length using Nat.strongRecOn generalizing x parts pos plain rest with
  | _ n ih =>
    subst hl
    cases hd : decodeFrom (pos + byteLength plain) 0 rest with
    | nil =>
      obtain rfl : rest = [] := by
        rw [← decodeFrom_source (pos + byteLength plain) rest, hd]
        rfl
      rw [hd] at hx
      obtain rfl := Except.ok.inj hx
      rw [List.append_nil]
      exact h.flush _ hb
    | cons c cs =>
      rw [hd] at hx
      have hsteps : Steps run base parts pos plain rest x' := by
        cases hp : x.pending with
        | none => exact h.steps_outside hb hp hd hx
        | some p =>
          obtain rfl : plain = [] := h.idle.resolve_left (by simp [hp])
          exact h.steps_inside hb hp hd hx
      obtain ⟨x₂, new, pos₂, plain₂, ys, hlt, h₂, hx₂, hdiv⟩ := hsteps
      obtain ⟨more, hmore, hdivided⟩ := ih ys.length hlt h₂ hx₂ rfl
      exact ⟨new ++ more, by rwa [← List.append_assoc], hdiv more hdivided⟩

end Reading

end

theorem content_accounts {run : TextRun} {base : Nat} {x x' : Extraction} {parts : List Part}
    {text : String} (hb : run.offset = Span.clamp base)
    (hx : x.Accounts run.delimiters run.nicknames parts) (hr : x.run = [])
    (h : x.content run text = .ok x') :
    ∃ new, x'.Accounts run.delimiters run.nicknames (parts ++ new) ∧ x'.run = [] ∧
      Division Span.clamp run.delimiters.opening.toList run.insideText base text.toList new := by
  obtain ⟨x₂, h₂, rfl⟩ := map_eq_ok.mp h
  have hreading : Reading run base x parts 0 [] := ⟨hx, by rw [hr]; rfl, .inr rfl, nofun⟩
  obtain ⟨new, hnew, hdiv⟩ := hreading.read hb h₂
  exact ⟨new, hnew, flush_run, hdiv⟩

theorem push_accounts {delimiters : Delimiters} {nicknames : Nicknames} {x : Extraction}
    {parts : List Part} (hx : x.Accounts delimiters nicknames parts) (token : RawToken) :
    (x.push (.raw token)).Accounts delimiters nicknames (parts ++ [.kept token]) := by
  unfold push
  cases hp : x.pending with
  | none => exact hx.kept (by simp [stream, hp]) rfl (by simp [source?, hp])
  | some p => exact hx.kept (by simp [stream, hp]) rfl (by simp [source?, hp])

end Extraction

section

variable {delimiters : Delimiters} {nicknames : Nicknames} {x x' : Extraction} {depth : Nat}

theorem extractFrom_text {text : String} {offset : Nat} {insideText : Bool}
    {tokens : List RawToken}
    (h : (RawToken.content text offset insideText).isEligible depth = true) :
    extractFrom delimiters nicknames x depth (.content text offset insideText :: tokens) =
      x.content ⟨delimiters, nicknames, offset, insideText⟩ text >>= fun x =>
        extractFrom delimiters nicknames x depth tokens := by
  rw [RawToken.isEligible] at h
  rw [extractFrom, if_pos h]
  cases x.content ⟨delimiters, nicknames, offset, insideText⟩ text <;> rfl

theorem extractFrom_whole {token : RawToken} {tokens : List RawToken}
    (h : token.isEligible depth = false) :
    extractFrom delimiters nicknames x depth (token :: tokens) =
      extractFrom delimiters nicknames (x.push (.raw token)) (elementDepthAfter depth token)
        tokens := by
  cases token with
  | content text offset insideText =>
    rw [extractFrom, if_neg (by simpa [RawToken.isEligible] using h)]
    rfl
  | _ =>
    rw [extractFrom]
    rintro _ _ _ ⟨⟩

/-- Reading the pieces that stand from byte `pos` on accounts for all of them. -/
theorem extractFrom_accounts {parts : List Part} {tokens : List RawToken} {pos : Nat}
    (hx : x.Accounts delimiters nicknames parts) (hr : x.run = []) (hp : Placed pos tokens)
    (h : extractFrom delimiters nicknames x depth tokens = .ok x') :
    ∃ new, x'.Accounts delimiters nicknames (parts ++ new) ∧
      Divided Span.clamp delimiters.opening.toList pos depth tokens new := by
  induction tokens generalizing x parts pos depth with
  | nil =>
    obtain rfl := Except.ok.inj h
    exact ⟨[], by rwa [List.append_nil], .nil⟩
  | cons token tokens ih =>
    obtain ⟨hoffset, hp⟩ := hp
    cases he : token.isEligible depth with
    | true =>
      cases token with
      | content text offset insideText =>
        obtain rfl : offset = Span.clamp pos := hoffset
        rw [extractFrom_text he] at h
        obtain ⟨x₂, h₂, h⟩ := bind_eq_ok.mp h
        obtain ⟨new, hnew, hr₂, hdiv⟩ := Extraction.content_accounts rfl hx hr h₂
        obtain ⟨more, hmore, hdivided⟩ := ih hnew hr₂ hp h
        exact ⟨new ++ more, by rwa [← List.append_assoc], .text he hdiv hdivided⟩
      | _ => cases he
    | false =>
      rw [extractFrom_whole he] at h
      have hr₂ : (x.push (.raw token)).run = [] := by
        unfold Extraction.push
        split <;> exact hr
      obtain ⟨more, hmore, hdivided⟩ := ih (Extraction.push_accounts hx token) hr₂ hp h
      exact ⟨.kept token :: more, by simpa using hmore, .whole he hdivided⟩

end

/-- A stream whose groups are lifted out of a document that is divided into `parts`: it has the
tokens that are kept and each group once, in order, and each group is read from exactly the texts
that belong to it. -/
structure TemplateStream.Lifted (delimiters : Delimiters) (nicknames : Nicknames)
    (stream : TemplateStream) (parts : List Part) : Prop where
  items : stream.items = parts.filterMap Part.item?
  ids : groupIds stream.items = List.range stream.groups.size
  groups : ∀ id (h : id < stream.groups.size), readGroup delimiters nicknames
    (.ofTexts (parts.filterMap (Part.given? id))) = .ok stream.groups[id]
  owned : ∀ id, stream.groups.size ≤ id → parts.filterMap (Part.given? id) = []

theorem TemplateStream.Lifted.no_sentinel {delimiters : Delimiters} {nicknames : Nicknames}
    {stream : TemplateStream} {parts : List Part} (h : stream.Lifted delimiters nicknames parts) :
    .sentinel ∉ stream.items := by
  rw [h.items, List.mem_filterMap]
  rintro ⟨part, -, hpart⟩
  cases part <;> cases hpart

section

variable {delimiters : Delimiters} {nicknames : Nicknames} {stream : TemplateStream}
  {textTags : List String} {document : String} {pieces : List RawToken}

theorem extractGroups_lifted (ht : tokenize textTags document = .ok pieces)
    (h : extractGroups delimiters nicknames pieces = .ok stream) :
    ∃ parts, Divided Span.clamp delimiters.opening.toList 0 0 pieces parts ∧
      stream.Lifted delimiters nicknames parts := by
  obtain ⟨x, hx, h⟩ := bind_eq_ok.mp h
  obtain ⟨parts, hparts, hdivided⟩ := extractFrom_accounts .start rfl (tokenize_placed ht) hx
  cases hp : x.pending with
  | some p =>
    rw [hp] at h
    cases h
  | none =>
    rw [hp] at h
    obtain rfl := Except.ok.inj h
    have hstream : x.stream = x.items.reverse := by rw [Extraction.stream, hp]
    have hopened : x.opened = x.groups.size := by simp [Extraction.opened, Extraction.source?, hp]
    refine ⟨parts, hdivided, ?_, ?_, hparts.closed, fun id hid => ?_⟩
    · rw [← hstream, hparts.items]
      rfl
    · rw [← hstream, ← hopened]
      exact hparts.numbered
    · exact hparts.untaken id (hopened.trans_le hid)

/-- Lifting the groups out of a document divides it into parts without gap or overlap: what is not
eligible is kept as it is, and eligible text is cut into tokens that are kept, each with its offset,
and texts of groups. In a longer document the offsets past `Span.limit` are cut there. -/
theorem extractGroups_divides (ht : tokenize textTags document = .ok pieces)
    (hl : byteLength document.toList ≤ Span.limit)
    (h : extractGroups delimiters nicknames pieces = .ok stream) :
    ∃ parts, Divided id delimiters.opening.toList 0 0 pieces parts ∧
      stream.items = parts.filterMap Part.item? ∧
      .sentinel ∉ stream.items ∧
      groupIds stream.items = List.range stream.groups.size ∧
      (∀ id (hid : id < stream.groups.size), readGroup delimiters nicknames
        (.ofTexts (parts.filterMap (Part.given? id))) = .ok stream.groups[id]) ∧
      ∀ id, stream.groups.size ≤ id → parts.filterMap (Part.given? id) = [] := by
  obtain ⟨parts, hdivided, hlifted⟩ := extractGroups_lifted ht h
  have hexact := hdivided.exact (by rwa [tokenize_text ht, Nat.zero_add])
  exact ⟨parts, hexact, hlifted.items, hlifted.no_sentinel, hlifted.ids, hlifted.groups,
    hlifted.owned⟩

end

def splitGroup : String := "<t>a \x7bx</t><t>\x7d &amp; b</t>"

def splitGroupPieces : List RawToken :=
  [.tag "t" .opening "<t>" 0 true, .content "a \x7bx" 3 true, .tag "t" .closing "</t>" 7 true,
    .tag "t" .opening "<t>" 11 true, .content "\x7d &amp; b" 14 true,
    .tag "t" .closing "</t>" 23 true]

def splitGroupStream : TemplateStream where
  items := [.raw (.tag "t" .opening "<t>" 0 true), .raw (.content "a " 3 true), .group 0,
    .raw (.tag "t" .closing "</t>" 7 true), .raw (.tag "t" .opening "<t>" 11 true),
    .raw (.content " &amp; b" 15 true), .raw (.tag "t" .closing "</t>" 23 true)]
  groups := #[⟨[⟨.opening, "\x7b", ⟨5, 6⟩, none⟩, ⟨.identifier, "x", ⟨6, 7⟩, none⟩,
    ⟨.closing, "\x7d", ⟨14, 15⟩, none⟩], .placeholder, ⟨5, 15⟩, .stay, .both, false, none⟩]

theorem extractGroups_divides_splitGroup :
    tokenize ["t"] splitGroup = .ok splitGroupPieces ∧ byteLength splitGroup.toList ≤ Span.limit ∧
      extractGroups .standard [] splitGroupPieces = .ok splitGroupStream ∧
      ∃ parts, Divided id ['\x7b'] 0 0 splitGroupPieces parts ∧
        splitGroupStream.items = parts.filterMap Part.item? ∧
        readGroup .standard [] (.ofTexts (parts.filterMap (Part.given? 0))) =
          .ok splitGroupStream.groups[0] := by
  have ht : tokenize ["t"] splitGroup = .ok splitGroupPieces := by rfl
  have hl : byteLength splitGroup.toList ≤ Span.limit := by decide
  have h : extractGroups .standard [] splitGroupPieces = .ok splitGroupStream := by
    decide +kernel
  obtain ⟨parts, hdivided, hitems, -, -, hread, -⟩ := extractGroups_divides ht hl h
  exact ⟨ht, hl, h, parts, hdivided, hitems, hread 0 (by decide)⟩

end DocTemplate
