import DocTemplate.Proofs.Group.Lifting
import DocTemplate.Proofs.Token.Strings

namespace DocTemplate

/-- A character that a group takes: the group before it, and what is left of its run of text after
it. -/
structure Taken where
  group : PendingGroup
  char : DecodedChar
  rest : List DecodedChar
  deriving Repr

def Taken.quoted (t : Taken) : Bool × Bool :=
  (t.group.quote.isSome, (Extraction.PendingGroup.track t.group t.char.char).quote.isSome)

/-- A group as it is when its closing delimiter is found. -/
structure Closing where
  run : TextRun
  group : PendingGroup
  taken : List Taken
  delimiter : List DecodedChar

def PendingGroup.finished (p : PendingGroup) (run : TextRun) (delimiter : List DecodedChar) :
    LocatedText :=
  let stop := (delimiter.getLast?.map fun c => c.start + byteLength c.source).getD 0
  (Extraction.gather run p.source delimiter).finish (Span.clamp (run.offset + stop))

def PendingGroup.quoting (p : PendingGroup) : Quoting := ⟨p.quote, p.escaped⟩

namespace Closing

def source (k : Closing) : LocatedText := k.group.finished k.run k.delimiter

def text (k : Closing) : List Char := k.taken.map (·.char.char)

end Closing

namespace Extraction

/-- The groups that are closed while a run is read as `read` reads it, and what the group that has
started has taken in the end. -/
def watch (run : TextRun) (opening closing : List Char) :
    Extraction → List Taken → Nat → List DecodedChar → List Closing × List Taken
  | _, taken, _, [] => ([], taken)
  | x, taken, skip + 1, _ :: cs => watch run opening closing x taken skip cs
  | x, taken, 0, c :: cs =>
    match x.pending with
    | none =>
      if startsWith opening (c :: cs) then
        watch run opening closing (x.openGroup run c ((c :: cs).take opening.length)) []
          (opening.length - 1) cs
      else watch run opening closing (x.keep c) taken 0 cs
    | some p =>
      if p.quote = none ∧ startsWith closing (c :: cs) then
        let delimiter := (c :: cs).take closing.length
        let (closings, taken') :=
          match x.closeGroup run p delimiter with
          | .ok x => watch run opening closing x [] (closing.length - 1) cs
          | .error _ => ([], [])
        (⟨run, p, taken, delimiter⟩ :: closings, taken')
      else
        let p' := { PendingGroup.track p c.char with source := gather run p.source [c] }
        watch run opening closing { x with pending := some p' } (taken ++ [⟨p, c, cs⟩]) 0 cs

end Extraction

def ifOk {ε α β : Type} (f : α → List β) : Except ε α → List β
  | .ok a => f a
  | .error _ => []

/-- The groups that are closed while the pieces are read as `extractFrom` reads them. -/
def closingsFrom (delimiters : Delimiters) (nicknames : Nicknames) :
    Extraction → List Taken → Nat → List RawToken → List Closing
  | _, _, _, [] => []
  | x, taken, depth, token :: tokens =>
    match token with
    | .content text offset insideText =>
      if insideText || depth == 0 then
        let run : TextRun := ⟨delimiters, nicknames, offset, insideText⟩
        let (closings, taken) := x.watch run delimiters.opening.toList delimiters.closing.toList
          taken 0 (decodeFrom 0 0 text.toList)
        closings ++ ifOk (fun x => closingsFrom delimiters nicknames x taken depth tokens)
          (x.content run text)
      else closingsFrom delimiters nicknames (x.push (.raw token)) taken depth tokens
    | token =>
      closingsFrom delimiters nicknames (x.push (.raw token)) taken (elementDepthAfter depth token)
        tokens

def closings (delimiters : Delimiters) (nicknames : Nicknames) (tokens : List RawToken) :
    List Closing :=
  closingsFrom delimiters nicknames .start [] 0 tokens

namespace Extraction

variable {run : TextRun} {opening closing : List Char} {x : Extraction} {p : PendingGroup}
  {c : DecodedChar} {cs : List DecodedChar} {taken : List Taken} {skip : Nat}

theorem startsWith_take {delimiter : List Char} (h : startsWith delimiter cs = true) :
    (cs.take delimiter.length).map DecodedChar.char = delimiter := by
  obtain ⟨c, found, tail, rfl, rfl⟩ := exists_of_startsWith h
  rw [List.length_map, List.take_left]

theorem toList_gather (source : LocatedText) (cs : List DecodedChar) :
    (gather run source cs).text.toList = source.text.toList ++ cs.map DecodedChar.char := by
  induction cs generalizing source with
  | nil => simp [gather]
  | cons c cs ih =>
    change (gather run (source.appendAt c.char _) cs).text.toList = _
    rw [ih]
    simp [LocatedText.appendAt]

theorem closeGroup_eq (x : Extraction) (p : PendingGroup) (delimiter : List DecodedChar) :
    x.closeGroup run p delimiter =
      (readGroup run.delimiters run.nicknames (p.finished run delimiter)).map fun g =>
        { x with
          items := p.held ++ .group x.groups.size :: x.items
          groups := x.groups.push g
          pending := none } := by
  unfold closeGroup readGroup PendingGroup.finished
  dsimp only
  generalize scanGroup _ run.delimiters = scanned
  cases scanned with
  | error f => rfl
  | ok tokens =>
    simp only [mapError_ok, bind, Except.bind]
    generalize Group.ofTokens tokens _ run.nicknames = read
    cases read <;> rfl

theorem quoting_track (p : PendingGroup) (c : Char) :
    (PendingGroup.track p c).quoting = p.quoting.next c := by
  unfold PendingGroup.track Quoting.next PendingGroup.quoting
  cases hq : p.quote with
  | none => rfl
  | some q =>
    dsimp only
    split
    · rfl
    · split
      · rfl
      · split
        · rfl
        · rw [hq]

/-- That `taken` has all that a group has taken since its opening delimiter, with the states of its
quotes on the way, and that it found no end before. -/
structure Follows (delimiters : Delimiters) (p : PendingGroup) (taken : List Taken) : Prop where
  text : p.source.text.toList = delimiters.opening.toList ++ taken.map (·.char.char)
  quoting : p.quoting = (taken.map (·.char.char)).foldl Quoting.next .outside
  places : taken.map Taken.quoted = Quoting.outside.steps (taken.map (·.char.char))
  noEnd : ∀ t ∈ taken, startsWith delimiters.closing.toList (t.char :: t.rest) →
    t.group.quote.isSome

namespace Follows

variable {delimiters : Delimiters} {p' : PendingGroup}

theorem opens (delimiter : List DecodedChar) (offset : Nat)
    (h : delimiter.map DecodedChar.char = delimiters.opening.toList) :
    Follows delimiters ⟨gather run .empty delimiter, offset, none, false, []⟩ [] := by
  refine ⟨?_, rfl, rfl, nofun⟩
  rw [toList_gather, h]
  simp [LocatedText.empty]

theorem takes (h : Follows delimiters p taken)
    (hn : ¬ (p.quote = none ∧ startsWith delimiters.closing.toList (c :: cs) = true)) :
    Follows delimiters { PendingGroup.track p c.char with source := gather run p.source [c] }
      (taken ++ [⟨p, c, cs⟩]) := by
  have hnext : p.quoting.next c.char =
      ((taken.map (·.char.char)) ++ [c.char]).foldl Quoting.next .outside := by
    rw [List.foldl_append, ← h.quoting]
    rfl
  refine ⟨?_, ?_, ?_, fun t ht hs => ?_⟩
  · rw [toList_gather, h.text]
    simp
  · rw [List.map_append, List.map_singleton, ← hnext, ← quoting_track]
    rfl
  · rw [List.map_append, List.map_append, h.places, Quoting.steps_append, ← h.quoting,
      List.map_singleton, List.map_singleton, Quoting.steps, ← quoting_track]
    rfl
  · rcases List.mem_append.mp ht with ht | ht
    · exact h.noEnd t ht hs
    · obtain rfl := List.mem_singleton.mp ht
      exact Option.isSome_iff_ne_none.mpr fun hq => hn ⟨hq, hs⟩

theorem congr (h : Follows delimiters p taken) (hs : p'.source = p.source)
    (hq : p'.quoting = p.quoting) : Follows delimiters p' taken :=
  ⟨hs ▸ h.text, hq.trans h.quoting, h.places, h.noEnd⟩

end Follows

def Followed (delimiters : Delimiters) (x : Extraction) (taken : List Taken) : Prop :=
  ∀ p, x.pending = some p → Follows delimiters p taken

theorem Followed.none {delimiters : Delimiters} (h : x.pending = none) :
    Followed delimiters x taken := fun p hp => by
  rw [h] at hp
  cases hp

end Extraction

/-- That a group ends outside of quotes, where it meets its closing delimiter for the first time. -/
structure Closing.Sound (delimiters : Delimiters) (k : Closing) : Prop where
  follows : Extraction.Follows delimiters k.group k.taken
  outside : k.group.quote = none
  delimiter : k.delimiter.map DecodedChar.char = delimiters.closing.toList

namespace Extraction

/-- That these are the groups that get closed from `x` on: each is sound, and they are read one
after the other until one of them cannot be read. -/
structure Closes (delimiters : Delimiters) (nicknames : Nicknames) (x : Extraction)
    (closings : List Closing) (result : Except GroupFault Extraction) : Prop where
  sound : ∀ k ∈ closings, k.Sound delimiters
  ok : ∀ x', result = .ok x' → ∃ new,
    closings.mapM (fun k => readGroup delimiters nicknames k.source) = .ok new ∧
      x'.groups.toList = x.groups.toList ++ new
  error : ∀ fault, result = .error fault →
    closings.mapM (fun k => readGroup delimiters nicknames k.source) = .error fault

namespace Closes

variable {delimiters : Delimiters} {nicknames : Nicknames} {x x' y : Extraction}
  {closings : List Closing} {result : Except GroupFault Extraction}
  {more : Extraction → List Closing} {next : Extraction → Except GroupFault Extraction}

theorem nil (x : Extraction) : Closes delimiters nicknames x [] (.ok x) := by
  refine ⟨nofun, fun x' hx => ?_, nofun⟩
  obtain rfl := Except.ok.inj hx
  exact ⟨[], rfl, (List.append_nil _).symm⟩

theorem congr (h : Closes delimiters nicknames y closings result) (hg : y.groups = x.groups) :
    Closes delimiters nicknames x closings result :=
  ⟨h.sound, hg ▸ h.ok, h.error⟩

theorem map (h : Closes delimiters nicknames x closings result) {f : Extraction → Extraction}
    (hf : ∀ x', (f x').groups = x'.groups) :
    Closes delimiters nicknames x closings (result.map f) := by
  refine ⟨h.sound, fun x' hx => ?_, fun fault hx => h.error fault (map_eq_error.mp hx)⟩
  obtain ⟨y, hy, rfl⟩ := map_eq_ok.mp hx
  rw [hf]
  exact h.ok y hy

theorem fails {k : Closing} {fault : GroupFault} (hk : k.Sound delimiters)
    (hr : readGroup delimiters nicknames k.source = .error fault) :
    Closes delimiters nicknames x [k] (.error fault) := by
  refine ⟨by simpa using hk, nofun, fun fault' hf => ?_⟩
  obtain rfl := Except.error.inj hf
  rw [List.mapM_cons, hr]
  rfl

theorem cons {k : Closing} {g : Group} (h : Closes delimiters nicknames y closings result)
    (hk : k.Sound delimiters) (hr : readGroup delimiters nicknames k.source = .ok g)
    (hg : y.groups = x.groups.push g) :
    Closes delimiters nicknames x (k :: closings) result := by
  refine ⟨List.forall_mem_cons.mpr ⟨hk, h.sound⟩, fun x' hx => ?_, fun fault hx => ?_⟩
  · obtain ⟨new, hnew, hgroups⟩ := h.ok x' hx
    refine ⟨g :: new, ?_, ?_⟩
    · rw [List.mapM_cons, hr, hnew]
      rfl
    · rw [hgroups, hg, Array.toList_push, List.append_assoc, List.singleton_append]
  · rw [List.mapM_cons, hr, h.error fault hx]
    rfl

theorem bind (h : Closes delimiters nicknames x closings result)
    (hn : ∀ x', result = .ok x' → Closes delimiters nicknames x' (more x') (next x')) :
    Closes delimiters nicknames x
      (closings ++ ifOk more result) (result >>= next) := by
  cases result with
  | error fault =>
    rw [ifOk, List.append_nil]
    exact ⟨h.sound, nofun, fun fault' hf => h.error fault' hf⟩
  | ok x' =>
    have hn := hn x' rfl
    obtain ⟨new, hnew, hgroups⟩ := h.ok x' rfl
    refine ⟨List.forall_mem_append.mpr ⟨h.sound, hn.sound⟩, fun y hy => ?_, fun fault hf => ?_⟩
    · obtain ⟨new', hnew', hgroups'⟩ := hn.ok y hy
      refine ⟨new ++ new', ?_, by rw [hgroups', hgroups, List.append_assoc]⟩
      rw [ifOk, List.mapM_append, hnew, hnew']
      rfl
    · rw [ifOk, List.mapM_append, hnew, hn.error fault hf]
      rfl

end Closes

section

variable {x : Extraction} {taken : List Taken}

/-- Watching a run step by step: at each character a group starts, goes on or ends, or there is
none. -/
theorem watch_closes (run : TextRun) (cs : List DecodedChar) (skip : Nat)
    (h : Followed run.delimiters x taken) :
    let watched := x.watch run run.delimiters.opening.toList run.delimiters.closing.toList taken
      skip cs
    let result := read run run.delimiters.opening.toList run.delimiters.closing.toList x skip cs
    Closes run.delimiters run.nicknames x watched.1 result ∧
      ∀ x', result = .ok x' → Followed run.delimiters x' watched.2 := by
  induction cs generalizing x taken skip with
  | nil =>
    refine ⟨by cases skip <;> exact .nil x, fun x' hx => ?_⟩
    obtain rfl : x = x' := by cases skip <;> exact Except.ok.inj hx
    cases skip <;> exact h
  | cons c cs ih =>
    cases skip with
    -- the character belongs to a delimiter that has been read
    | succ skip => exact ih skip h
    | zero =>
      rw [watch, read]
      cases hp : x.pending with
      | none =>
        dsimp only
        split
        next hopen =>
          have hopened : Followed run.delimiters
              (x.openGroup run c ((c :: cs).take run.delimiters.opening.toList.length)) [] := by
            intro p hp'
            obtain rfl := Option.some.inj hp'
            exact .opens _ _ (startsWith_take hopen)
          obtain ⟨hcloses, hfollowed⟩ := ih (run.delimiters.opening.toList.length - 1) hopened
          exact ⟨hcloses.congr (by simp [openGroup]), hfollowed⟩
        next =>
          have hkept : Followed run.delimiters (x.keep c) taken := .none hp
          obtain ⟨hcloses, hfollowed⟩ := ih 0 hkept
          exact ⟨hcloses.congr rfl, hfollowed⟩
      | some p =>
        have hfollows := h p hp
        dsimp only
        split
        next hclose =>
          have hk : Closing.Sound run.delimiters
              ⟨run, p, taken, (c :: cs).take run.delimiters.closing.toList.length⟩ :=
            ⟨hfollows, hclose.1, startsWith_take hclose.2⟩
          rw [closeGroup_eq]
          cases hr : readGroup run.delimiters run.nicknames (p.finished run _) with
          | error fault => exact ⟨.fails hk hr, fun x' hx => by cases hx⟩
          | ok g =>
            dsimp only [Except.map]
            have hclosed : Followed run.delimiters { x with
                items := p.held ++ .group x.groups.size :: x.items
                groups := x.groups.push g
                pending := none } [] := .none rfl
            obtain ⟨hcloses, hfollowed⟩ := ih (run.delimiters.closing.toList.length - 1) hclosed
            exact ⟨hcloses.cons hk hr rfl, hfollowed⟩
        next hn =>
          have htaken : Followed run.delimiters { x with
              pending := some { PendingGroup.track p c.char with
                source := gather run p.source [c] } } (taken ++ [⟨p, c, cs⟩]) := by
            intro p' hp'
            obtain rfl := Option.some.inj hp'
            exact hfollows.takes hn
          obtain ⟨hcloses, hfollowed⟩ := ih 0 htaken
          exact ⟨hcloses.congr rfl, hfollowed⟩

theorem push_followed {delimiters : Delimiters} (h : Followed delimiters x taken)
    (item : StreamItem) : Followed delimiters (x.push item) taken := by
  unfold push
  cases hp : x.pending with
  | none => exact .none rfl
  | some p =>
    intro p' hp'
    obtain rfl := Option.some.inj hp'
    exact (h p hp).congr rfl rfl

end

end Extraction

section

variable {delimiters : Delimiters} {nicknames : Nicknames} {x x' : Extraction} {depth : Nat}
  {taken : List Taken} {token : RawToken} {tokens : List RawToken}

theorem closingsFrom_text {text : String} {offset : Nat} {insideText : Bool}
    (h : (RawToken.content text offset insideText).isEligible depth = true) :
    closingsFrom delimiters nicknames x taken depth (.content text offset insideText :: tokens) =
      let run : TextRun := ⟨delimiters, nicknames, offset, insideText⟩
      let watched := x.watch run delimiters.opening.toList delimiters.closing.toList taken 0
        (decodeFrom 0 0 text.toList)
      watched.1 ++ ifOk (fun x => closingsFrom delimiters nicknames x watched.2 depth tokens)
        (x.content run text) := by
  rw [RawToken.isEligible] at h
  rw [closingsFrom, if_pos h]

theorem closingsFrom_whole (h : token.isEligible depth = false) :
    closingsFrom delimiters nicknames x taken depth (token :: tokens) =
      closingsFrom delimiters nicknames (x.push (.raw token)) taken
        (elementDepthAfter depth token) tokens := by
  cases token with
  | content text offset insideText =>
    rw [closingsFrom, if_neg (by simpa [RawToken.isEligible] using h)]
    rfl
  | _ =>
    rw [closingsFrom]
    rintro _ _ _ ⟨⟩

theorem closingsFrom_closes (hx : Extraction.Followed delimiters x taken) :
    Extraction.Closes delimiters nicknames x
      (closingsFrom delimiters nicknames x taken depth tokens)
      (extractFrom delimiters nicknames x depth tokens) := by
  induction tokens generalizing x taken depth with
  | nil => exact .nil x
  | cons token tokens ih =>
    cases he : token.isEligible depth with
    | false =>
      rw [closingsFrom_whole he, extractFrom_whole he]
      refine (ih (Extraction.push_followed hx _)).congr ?_
      unfold Extraction.push
      split <;> rfl
    | true =>
      cases token with
      | content text offset insideText =>
        rw [closingsFrom_text he, extractFrom_text he]
        obtain ⟨hcloses, hfollowed⟩ := Extraction.watch_closes
          ⟨delimiters, nicknames, offset, insideText⟩ (decodeFrom 0 0 text.toList) 0 hx
        refine .bind (hcloses.map fun _ => Extraction.flush_groups) fun x' hx' => ?_
        obtain ⟨x₂, hread, rfl⟩ := map_eq_ok.mp hx'
        refine ih fun p hp => hfollowed x₂ hread p ?_
        rwa [Extraction.flush_pending] at hp
      | _ => cases he

end

namespace Closing.Sound

variable {delimiters : Delimiters} {k : Closing}

theorem toList_source (h : k.Sound delimiters) : k.source.text.toList =
    delimiters.opening.toList ++ k.text ++ delimiters.closing.toList := by
  rw [Closing.source, PendingGroup.finished, LocatedText.finish, Extraction.toList_gather,
    h.follows.text, h.delimiter]
  rfl

theorem quote_eq (h : k.Sound delimiters) :
    (k.text.foldl Quoting.next .outside).quote = none := by
  rw [Closing.text, ← h.follows.quoting]
  exact h.outside

theorem scan_error (h : k.Sound delimiters) {fault : ScanFault}
    (hs : scanGroup k.source delimiters = .error fault) : ¬ fault.cause.isPartial := by
  intro hp
  rw [scanGroup_eq h.toList_source, map_eq_error, mapError_eq_error] at hs
  obtain ⟨f, hf, rfl⟩ := hs
  have hopen := lexemesFrom_fault hf hp
  rw [h.quote_eq] at hopen
  cases hopen

theorem scan_ok (h : k.Sound delimiters) {tokens : List Token}
    (hs : scanGroup k.source delimiters = .ok tokens) :
    ∃ ls, lexemes k.text = .ok ls ∧ tokens = groupTokens k.source delimiters k.text ls ∧
      (ls.filter (·.kind = .string)).map Lexeme.range =
        openRanges 0 0 (k.taken.map Taken.quoted) ∧
      ∀ i t, k.taken[i]? = some t →
        Extraction.startsWith delimiters.closing.toList (t.char :: t.rest) →
        ∃ l ∈ ls, l.kind = .string ∧ l.start < i ∧ i < l.stop := by
  rw [scanGroup_eq h.toList_source, map_eq_ok] at hs
  obtain ⟨ls, hls, rfl⟩ := hs
  rw [mapError_eq_ok] at hls
  have hranges := lexemesFrom_strings 0 hls
  refine ⟨ls, hls, rfl, ?_, fun i t ht hstarts => ?_⟩
  · rw [h.follows.places]
    exact hranges
  · have hplace : (Quoting.outside.steps k.text)[i]? = some (true, t.quoted.2) := by
      rw [Closing.text, ← h.follows.places, List.getElem?_map, ht]
      have hopen := h.follows.noEnd t (List.mem_of_getElem? ht) hstarts
      simp [Taken.quoted, hopen]
    obtain ⟨r, hr, hlt, hgt⟩ := Quoting.exists_range 0 (i := 0) h.quote_eq nofun hplace
    rw [← hranges] at hr
    obtain ⟨l, hl, rfl⟩ := List.mem_map.mp hr
    obtain ⟨hl, hkind⟩ := List.mem_filter.mp hl
    rw [Nat.zero_add] at hlt hgt
    exact ⟨l, hl, by simpa using hkind, hlt, hgt⟩

end Closing.Sound

/-- Extraction and scanning agree on the strings of a group. A group that extraction closes is no
partial one for the scanner; what extraction takes for quoted is what the string lexemes cover; and
the closing delimiter does not occur earlier within a run of text, unless it meets a string. All
groups of the stream, and the one that fails to be read, are such groups. -/
theorem closings_sound (delimiters : Delimiters) (nicknames : Nicknames)
    (tokens : List RawToken) :
    (∀ stream, extractGroups delimiters nicknames tokens = .ok stream →
      (closings delimiters nicknames tokens).mapM
        (fun k => readGroup delimiters nicknames k.source) = .ok stream.groups.toList) ∧
    (∀ fault, extractGroups delimiters nicknames tokens = .error fault →
      fault.cause = .unclosed delimiters.closing ∨
        (closings delimiters nicknames tokens).mapM
          (fun k => readGroup delimiters nicknames k.source) = .error fault) ∧
    ∀ k ∈ closings delimiters nicknames tokens,
      k.source.text.toList = delimiters.opening.toList ++ k.text ++ delimiters.closing.toList ∧
      (∀ fault, scanGroup k.source delimiters = .error fault → ¬ fault.cause.isPartial) ∧
      ∀ found, scanGroup k.source delimiters = .ok found →
        ∃ ls, lexemes k.text = .ok ls ∧ found = groupTokens k.source delimiters k.text ls ∧
          (ls.filter (·.kind = .string)).map Lexeme.range =
            openRanges 0 0 (k.taken.map Taken.quoted) ∧
          k.delimiter.map DecodedChar.char = delimiters.closing.toList ∧
          ∀ i t, k.taken[i]? = some t →
            Extraction.startsWith delimiters.closing.toList (t.char :: t.rest) →
            ∃ l ∈ ls, l.kind = .string ∧ l.start < i ∧ i < l.stop := by
  have hstart : Extraction.Followed delimiters .start [] := .none rfl
  have hcloses : Extraction.Closes delimiters nicknames .start
      (closings delimiters nicknames tokens) (extractFrom delimiters nicknames .start 0 tokens) :=
    closingsFrom_closes hstart
  refine ⟨fun stream h => ?_, fun fault h => ?_, fun k hk => ?_⟩
  · obtain ⟨x, hx, h⟩ := bind_eq_ok.mp h
    obtain ⟨new, hnew, hgroups⟩ := hcloses.ok x hx
    split at h
    next => cases h
    next =>
      obtain rfl := Except.ok.inj h
      rw [hnew, hgroups]
      rfl
  · rcases bind_eq_error.mp h with h | ⟨x, hx, h⟩
    · exact .inr (hcloses.error fault h)
    · split at h
      next =>
        obtain rfl := Except.error.inj h
        exact .inl rfl
      next => cases h
  · have hsound := hcloses.sound k hk
    refine ⟨hsound.toList_source, fun fault hs => hsound.scan_error hs, fun found hs => ?_⟩
    obtain ⟨ls, hls, hfound, hranges, hearlier⟩ := hsound.scan_ok hs
    exact ⟨ls, hls, hfound, hranges, hsound.delimiter, hearlier⟩

def braceInString : List RawToken :=
  [.content "a \x7bx '\x7d" 0 true, .tag "t" .closing "</t>" 7 true,
    .tag "t" .opening "<t>" 11 true, .content "'\x7d b\x7d" 14 true]

theorem closings_sound_braceInString :
    ∃ stream k found ls, extractGroups .standard [] braceInString = .ok stream ∧
      (closings .standard [] braceInString).mapM
        (fun k => readGroup .standard [] k.source) = .ok stream.groups.toList ∧
      k ∈ closings .standard [] braceInString ∧ k.text = ['x', ' ', '\x27', '\x7d', '\x27'] ∧
      scanGroup k.source .standard = .ok found ∧ lexemes k.text = .ok ls ∧
      (ls.filter (·.kind = .string)).map Lexeme.range = [(2, 5)] ∧
      ∃ l ∈ ls, l.kind = .string ∧ l.start < 3 ∧ 3 < l.stop := by
  have hextract : (extractGroups .standard [] braceInString).isOk = true := by decide +kernel
  have hclosings : (closings .standard [] braceInString).map (fun k =>
      (k.text, openRanges 0 0 (k.taken.map Taken.quoted), (scanGroup k.source .standard).isOk,
        k.taken[3]?.map fun t => Extraction.startsWith ['\x7d'] (t.char :: t.rest))) =
      [(['x', ' ', '\x27', '\x7d', '\x27'], [(2, 5)], true, some true)] := by
    decide +kernel
  obtain ⟨stream, hstream⟩ := exists_ok_of_isOk hextract
  obtain ⟨k, rest, hk, hdata, -⟩ := List.map_eq_cons_iff.mp hclosings
  obtain ⟨htext, hranges, hscan, hstarts⟩ := by simpa using hdata
  obtain ⟨found, hfound⟩ := exists_ok_of_isOk hscan
  obtain ⟨t, ht, hstarts⟩ := hstarts
  have hmem : k ∈ closings .standard [] braceInString := by simp [hk]
  obtain ⟨hread, -, hsound⟩ := closings_sound .standard [] braceInString
  obtain ⟨-, -, hall⟩ := hsound k hmem
  obtain ⟨ls, hls, -, hstrings, -, hearlier⟩ := hall found hfound
  exact ⟨stream, k, found, ls, hstream, hread stream hstream, hmem, htext, hfound, hls,
    hstrings.trans hranges, hearlier 3 t ht hstarts⟩

end DocTemplate
