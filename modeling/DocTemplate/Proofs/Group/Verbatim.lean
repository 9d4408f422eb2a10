import DocTemplate.Proofs.Group.Closings
import DocTemplate.Proofs.Markup.Enclosed
import DocTemplate.Proofs.Markup.Tiled

namespace DocTemplate

namespace Extraction

variable {item : StreamItem} {x y : Extraction} {run : TextRun}

inductive Inserts (item : StreamItem) (x y : Extraction) : Prop
  | stream (later earlier : List StreamItem) (h : x.items = later ++ earlier)
      (hy : y = { x with items := later ++ item :: earlier })
  | held (p : PendingGroup) (later earlier : List StreamItem)
      (hx : x = { x with pending := some { p with held := later ++ earlier } })
      (hy : y = { x with pending := some { p with held := later ++ item :: earlier } })

theorem inserts_push (x : Extraction) (item : StreamItem) : Inserts item x (x.push item) := by
  unfold push
  split
  next p hp => exact .held p [] p.held (by simp [← hp]) rfl
  next => exact .stream [] x.items rfl rfl

theorem track_held (p : PendingGroup) (held : List StreamItem) (c : Char) :
    PendingGroup.track { p with held := held } c =
      { PendingGroup.track p c with held := held } := by
  unfold PendingGroup.track
  grind

namespace Inserts

theorem pending (h : Inserts item x y) :
    x.pending = none ∧ y.pending = none ∨
      ∃ p held, x.pending = some p ∧ y.pending = some { p with held := held } := by
  obtain ⟨later, earlier, -, rfl⟩ | ⟨p, later, earlier, hx, rfl⟩ := h
  · cases hp : x.pending with
    | none => exact .inl ⟨rfl, rfl⟩
    | some p => exact .inr ⟨p, p.held, rfl, rfl⟩
  · exact .inr ⟨_, later ++ item :: earlier, congrArg Extraction.pending hx, rfl⟩

theorem push (h : Inserts item x y) (other : StreamItem) :
    Inserts item (x.push other) (y.push other) := by
  obtain ⟨later, earlier, h, rfl⟩ | ⟨p, later, earlier, hx, rfl⟩ := h
  · unfold Extraction.push
    cases hp : x.pending with
    | none => exact .stream (other :: later) earlier (congrArg (other :: ·) h) rfl
    | some p => exact .stream later earlier h rfl
  · rw [hx]
    exact .held p (other :: later) earlier rfl rfl

theorem flush (run : TextRun) (h : Inserts item x y) :
    Inserts item (x.flush run) (y.flush run) := by
  unfold Extraction.flush
  obtain ⟨later, earlier, h, rfl⟩ | ⟨p, later, earlier, hx, rfl⟩ := h
  · split
    · exact .stream later earlier h rfl
    · exact .stream (_ :: later) earlier (congrArg (_ :: ·) h) rfl
  · rw [hx]
    split <;> exact .held p later earlier rfl rfl

theorem keep (h : Inserts item x y) (c : DecodedChar) : Inserts item (x.keep c) (y.keep c) := by
  obtain ⟨later, earlier, h, rfl⟩ | ⟨p, later, earlier, hx, rfl⟩ := h
  · exact .stream later earlier h rfl
  · rw [hx]
    exact .held p later earlier rfl rfl

theorem openGroup (h : Inserts item x y) (hp : x.pending = none) (c : DecodedChar)
    (delimiter : List DecodedChar) :
    Inserts item (x.openGroup run c delimiter) (y.openGroup run c delimiter) := by
  unfold Extraction.openGroup
  obtain ⟨later, earlier, h, hy⟩ | ⟨p, later, earlier, hx, -⟩ := h.flush run
  · exact .stream later earlier h (by rw [hy])
  · have hpending : (x.flush run).pending = none := flush_pending.trans hp
    rw [hx] at hpending
    cases hpending

theorem update {p : PendingGroup} {held : List StreamItem} (h : Inserts item x y)
    (hp : x.pending = some p) (hq : y.pending = some { p with held := held }) {p' : PendingGroup}
    (hp' : p'.held = p.held) :
    Inserts item { x with pending := some p' }
      { y with pending := some { p' with held := held } } := by
  obtain ⟨later, earlier, h, rfl⟩ | ⟨q, later, earlier, hx, rfl⟩ := h
  · have hheld : p.held = held := congrArg PendingGroup.held (Option.some.inj (hp.symm.trans hq))
    exact .stream later earlier h (by rw [← hheld, ← hp'])
  · have hheld := congrArg PendingGroup.held (Option.some.inj hq)
    rw [hx] at hp
    have hheld' := congrArg PendingGroup.held (Option.some.inj hp)
    dsimp only at hheld hheld'
    exact .held p' later earlier (by rw [hheld', ← hp']) (by rw [hheld])

theorem closeGroup (run : TextRun) {p : PendingGroup} {held : List StreamItem}
    (h : Inserts item x y) (hp : x.pending = some p) (hq : y.pending = some { p with held := held })
    (delimiter : List DecodedChar) :
    Results (Inserts item) (x.closeGroup run p delimiter)
      (y.closeGroup run { p with held := held } delimiter) := by
  rw [closeGroup_eq, closeGroup_eq]
  change Results _ _ ((readGroup _ _ (p.finished run delimiter)).map _)
  cases readGroup run.delimiters run.nicknames (p.finished run delimiter) with
  | error f => exact .error f
  | ok g =>
    refine .ok ?_
    obtain ⟨later, earlier, h, rfl⟩ | ⟨q, later, earlier, hx, rfl⟩ := h
    · obtain rfl : p.held = held := congrArg PendingGroup.held (Option.some.inj (hp.symm.trans hq))
      refine .stream (p.held ++ .group x.groups.size :: later) earlier ?_ ?_
      · simp [h]
      · simp
    · obtain rfl := congrArg PendingGroup.held (Option.some.inj hq)
      rw [hx] at hp
      have hheld := congrArg PendingGroup.held (Option.some.inj hp)
      refine .stream later (earlier ++ .group x.groups.size :: x.items) ?_ ?_
      · simp [← hheld]
      · simp

theorem read {opening closing : List Char} {skip : Nat} {cs : List DecodedChar}
    (h : Inserts item x y) :
    Results (Inserts item) (read run opening closing x skip cs)
      (read run opening closing y skip cs) := by
  induction cs generalizing x y skip with
  | nil => cases skip <;> exact .ok h
  | cons c cs ih =>
    cases skip with
    | succ skip => exact ih h
    | zero =>
      rw [Extraction.read, Extraction.read]
      obtain ⟨hx, hy⟩ | ⟨p, held, hx, hy⟩ := h.pending
      · simp only [hx, hy]
        split
        · exact ih (h.openGroup hx c _)
        · exact ih (h.keep c)
      · simp only [hx, hy]
        split
        · have hclose := h.closeGroup run hx hy ((c :: cs).take closing.length)
          generalize x.closeGroup run p _ = r, y.closeGroup run _ _ = q at hclose ⊢
          cases hclose with
          | ok h => exact ih h
          | error f => exact .error f
        · rw [track_held p held c.char]
          exact ih (h.update hx hy (held_track p c.char))

theorem content (h : Inserts item x y) (text : String) :
    Results (Inserts item) (x.content run text) (y.content run text) :=
  h.read.map fun _ _ h => h.flush run

end Inserts

end Extraction

section

variable {delimiters : Delimiters} {nicknames : Nicknames} {item : StreamItem} {x y : Extraction}
  {depth : Nat} {front back : List RawToken}

theorem extractFrom_append (depth : Nat) (front : List RawToken) :
    ∃ depth', ∀ x back, extractFrom delimiters nicknames x depth (front ++ back) =
      extractFrom delimiters nicknames x depth front >>= fun x =>
        extractFrom delimiters nicknames x depth' back := by
  induction front generalizing depth with
  | nil => exact ⟨depth, fun _ _ => rfl⟩
  | cons token front ih =>
    cases he : token.isEligible depth with
    | true =>
      cases token with
      | content text offset insideText =>
        obtain ⟨depth', ih⟩ := ih depth
        refine ⟨depth', fun x back => ?_⟩
        rw [List.cons_append, extractFrom_text he, extractFrom_text he]
        simp only [ih, bind_assoc]
      | _ => cases he
    | false =>
      obtain ⟨depth', ih⟩ := ih (elementDepthAfter depth token)
      refine ⟨depth', fun x back => ?_⟩
      rw [List.cons_append, extractFrom_whole he, extractFrom_whole he, ih]

theorem extractFrom_inserts (h : x.Inserts item y) (tokens : List RawToken) :
    Results (Extraction.Inserts item) (extractFrom delimiters nicknames x depth tokens)
      (extractFrom delimiters nicknames y depth tokens) := by
  induction tokens generalizing x y depth with
  | nil => exact .ok h
  | cons token tokens ih =>
    cases he : token.isEligible depth with
    | true =>
      cases token with
      | content text offset insideText =>
        rw [extractFrom_text he, extractFrom_text he]
        exact (h.content text).bind fun _ _ h => ih h
      | _ => cases he
    | false =>
      rw [extractFrom_whole he, extractFrom_whole he]
      exact ih (h.push _)

def TemplateStream.Inserts (item : StreamItem) (stream stream' : TemplateStream) : Prop :=
  stream'.groups = stream.groups ∧ ∃ earlier later, stream.items = earlier ++ later ∧
    stream'.items = earlier ++ item :: later

/-- A verbatim piece only adds itself to the stream. -/
theorem extractGroups_verbatim (front back : List RawToken) (text : String) (offset : Nat) :
    Results (TemplateStream.Inserts (.raw (.verbatim text offset)))
      (extractGroups delimiters nicknames (front ++ back))
      (extractGroups delimiters nicknames (front ++ .verbatim text offset :: back)) := by
  obtain ⟨depth, happend⟩ := extractFrom_append 0 front
  have hread : Results (Extraction.Inserts (.raw (.verbatim text offset)))
      (extractFrom delimiters nicknames .start 0 (front ++ back))
      (extractFrom delimiters nicknames .start 0 (front ++ .verbatim text offset :: back)) := by
    rw [happend, happend]
    refine Results.bind (.self fun x _ => rfl) fun x _ hx => ?_
    rw [← hx, extractFrom_whole rfl]
    exact extractFrom_inserts (x.inserts_push _) back
  refine hread.bind fun x y h => ?_
  obtain ⟨hx, hy⟩ | ⟨p, held, hx, hy⟩ := h.pending
  · rw [hx, hy]
    obtain ⟨later, earlier, h, rfl⟩ | ⟨_, _, _, -, rfl⟩ := h
    · refine .ok ⟨rfl, earlier.reverse, later.reverse, ?_, ?_⟩
      · simp [h]
      · simp
    · cases hy
  · rw [hx, hy]
    exact .error _

end

/-- A comment, a character data section or a processing instruction behind a text is one piece of
the document behind those of the text, and groups are extracted as if it was not there. The piece
is all of the construct, unless the opener and the first characters of the body end it together. -/
theorem tokenize_enclosed (e : Enclosure) {textTags : List String} {before body after : String}
    {front pieces : List RawToken} (hf : tokenize textTags before = .ok front)
    (hb : ¬e.terminator.toList <:+: body.toList)
    (h : tokenize textTags (before ++ e.enclose body ++ after) = .ok pieces) :
    ∃ back, pieces = front ++ .verbatim (e.kept body) (Span.clamp before.utf8ByteSize) :: back ∧
      e.kept body ++ String.join (back.map RawToken.text) = e.enclose body ++ after ∧
      (e.kept body = e.enclose body ↔ e.early? body.toList = none) ∧
      ∀ delimiters nicknames,
        Results (TemplateStream.Inserts
            (.raw (.verbatim (e.kept body) (Span.clamp before.utf8ByteSize))))
          (extractGroups delimiters nicknames (front ++ back))
          (extractGroups delimiters nicknames pieces) := by
  obtain ⟨depth, happend⟩ := exists_tokenizeFrom_append (tokenizeFrom_eq_ok.mp hf)
  obtain ⟨left, hleft⟩ := e.kept_prefix body
  rw [tokenize, String.toList_append, String.toList_append, List.append_assoc, happend,
    Enclosure.tokenizeFrom_enclose hb hleft, map_map] at h
  · obtain ⟨back, hback, rfl⟩ := map_eq_ok.mp h
    rw [Nat.zero_add, byteLength_eq_utf8ByteSize, String.ofList_toList]
    refine ⟨back, rfl, ?_, e.kept_eq_enclose body, fun delimiters nicknames => ?_⟩
    · have htext := (tokenizeFrom_eq_ok.mp hback).text
      rw [← String.toList_inj, String.toList_append, String.toList_append, ← hleft,
        String.toList_join, List.flatMap_map, htext, List.append_assoc]
    · exact extractGroups_verbatim front back _ _
  · obtain ⟨xs, hkept⟩ := List.head?_eq_some_iff.mp (e.head?_kept body)
    rw [← hleft, hkept]
    simp

/-- A comment in a paragraph, with what looks like a tag and a group in it. -/
def commentedOut : String := "<p>a<!-- <b>\x7bx\x7d -- > -->\x7by\x7d</p>"

theorem tokenize_enclosed_commentedOut :
    ∃ pieces, tokenize [] commentedOut = .ok pieces ∧
      ¬Enclosure.comment.terminator.toList <:+: " <b>\x7bx\x7d -- > ".toList ∧
      ∃ back, pieces = [.tag "p" .opening "<p>" 0 false, .content "a" 3 false,
        .verbatim "<!-- <b>\x7bx\x7d -- > -->" 4] ++ back := by
  have hf : tokenize [] "<p>a" =
      .ok [.tag "p" .opening "<p>" 0 false, .content "a" 3 false] := by rfl
  have hb : ¬Enclosure.comment.terminator.toList <:+: " <b>\x7bx\x7d -- > ".toList := by decide
  have h : ∃ pieces, tokenize [] ("<p>a" ++ Enclosure.comment.enclose " <b>\x7bx\x7d -- > " ++
      "\x7by\x7d</p>") = .ok pieces := ⟨_, by rfl⟩
  obtain ⟨pieces, h⟩ := h
  obtain ⟨back, hpieces, -⟩ := tokenize_enclosed .comment hf hb h
  exact ⟨pieces, h, hb, back, hpieces⟩

example : tokenize [] "<!-->a-->" =
    .ok [.verbatim "<!-->" 0, .content "a-->" 5 false] := by rfl

end DocTemplate
