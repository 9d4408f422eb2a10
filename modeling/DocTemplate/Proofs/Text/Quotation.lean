import DocTemplate.Builtin.Format

namespace DocTemplate

def doubleQuotes (cs : List Char) : List Char :=
  cs.flatMap fun c => if c = '\x27' then [c, c] else [c]

def quoteText (t : String) : String :=
  String.ofList ('\x27' :: doubleQuotes t.toList ++ ['\x27'])

/-- A text without the first quote of each run of quotes; `inRun` says that a quote came before. -/
def thinQuotes (inRun : Bool) : List Char → List Char
  | [] => []
  | c :: cs =>
    if c = '\x27' then if inRun then c :: thinQuotes true cs else thinQuotes true cs
    else c :: thinQuotes false cs

section

variable {c : Char} {cs : List Char}

@[simp] theorem doubleQuotes_nil : doubleQuotes [] = [] := rfl

@[simp] theorem doubleQuotes_quote (cs : List Char) :
    doubleQuotes ('\x27' :: cs) = '\x27' :: '\x27' :: doubleQuotes cs := by
  simp [doubleQuotes]

@[simp] theorem doubleQuotes_cons (h : c ≠ '\x27') (cs : List Char) :
    doubleQuotes (c :: cs) = c :: doubleQuotes cs := by
  simp [doubleQuotes, h]

@[simp] theorem thinQuotes_quote (cs : List Char) :
    thinQuotes true ('\x27' :: cs) = '\x27' :: thinQuotes true cs := by
  simp [thinQuotes]

@[simp] theorem thinQuotes_first (cs : List Char) :
    thinQuotes false ('\x27' :: cs) = thinQuotes true cs := by
  simp [thinQuotes]

@[simp] theorem thinQuotes_cons (inRun : Bool) (h : c ≠ '\x27') (cs : List Char) :
    thinQuotes inRun (c :: cs) = c :: thinQuotes false cs := by
  simp [thinQuotes, h]

theorem length_thinQuotes_le (inRun : Bool) (cs : List Char) :
    (thinQuotes inRun cs).length ≤ cs.length := by
  induction cs generalizing inRun with
  | nil => exact Nat.le_refl 0
  | cons c cs ih =>
    by_cases hc : c = '\x27'
    · subst hc
      cases inRun with
      | false => exact Nat.le_succ_of_le (ih true)
      | true => exact Nat.succ_le_succ (ih true)
    · rw [thinQuotes_cons inRun hc]
      exact Nat.succ_le_succ (ih false)

theorem thinQuotes_eq_self_iff : thinQuotes false cs = cs ↔ '\x27' ∉ cs := by
  induction cs with
  | nil => exact iff_of_true rfl List.not_mem_nil
  | cons c cs ih =>
    by_cases hc : c = '\x27'
    · subst hc
      refine iff_of_false (fun heq => ?_) fun hn => hn List.mem_cons_self
      have hle := length_thinQuotes_le true cs
      rw [← thinQuotes_first, heq, List.length_cons] at hle
      omega
    · rw [thinQuotes_cons false hc, List.cons.injEq, List.mem_cons, not_or, ih]
      exact and_congr_left' (iff_of_true rfl (Ne.symm hc))

theorem exists_cons_of_head? (hne : cs ≠ []) (hfirst : cs.head? ≠ some '\x27') :
    ∃ c rest, cs = c :: rest ∧ c ≠ '\x27' := by
  obtain ⟨c, rest, rfl⟩ := List.exists_cons_of_ne_nil hne
  exact ⟨c, rest, rfl, fun hc => hfirst (congrArg some hc)⟩

end

namespace NumberPattern.Reading

theorem read_doubleQuotes (cs rest before places after : List Char) (multiplier : Nat) :
    read ⟨before, places, after, multiplier, .before, true⟩ (doubleQuotes cs ++ rest) =
      read ⟨before ++ cs, places, after, multiplier, .before, true⟩ rest := by
  induction cs generalizing before with
  | nil => rw [doubleQuotes_nil, List.nil_append, List.append_nil]
  | cons c cs ih =>
    have happend : before ++ c :: cs = before ++ [c] ++ cs := by simp
    rw [happend, ← ih]
    by_cases hc : c = '\x27'
    · rw [hc, doubleQuotes_quote, List.cons_append, List.cons_append, read]
      rfl
    · rw [doubleQuotes_cons hc, List.cons_append, read]
      · rfl
      · exact fun _ h => absurd h hc
      · exact hc

end NumberPattern.Reading

def NumberPattern.oneDigit (before : List Char) : NumberPattern where
  before := before
  after := []
  minInteger := 1
  minFraction := 0
  maxFraction := 0
  grouping := none
  multiplier := 1

theorem NumberPattern.parse_quoteText {t : String} (hne : t.toList ≠ [])
    (hfirst : t.toList.head? ≠ some '\x27') :
    parse (quoteText t ++ "0") = .ok (.oneDigit t.toList) := by
  have hopen : Reading.start.read ('\x27' :: (doubleQuotes t.toList ++ ['\x27', '0'])) =
      Reading.read ⟨[], [], [], 1, .before, true⟩ (doubleQuotes t.toList ++ ['\x27', '0']) := by
    obtain ⟨c, cs, hcs, hc⟩ := exists_cons_of_head? hne hfirst
    rw [hcs, doubleQuotes_cons hc, List.cons_append, Reading.read]
    · rfl
    · exact fun _ h => hc (List.cons.inj h).1
  have hread : Reading.start.read (quoteText t ++ "0").toList =
      ⟨t.toList, ['0'], [], 1, .number, false⟩ := by
    have hchars : (quoteText t ++ "0").toList =
        '\x27' :: (doubleQuotes t.toList ++ ['\x27', '0']) := by
      simp [quoteText]
    rw [hchars, hopen, Reading.read_doubleQuotes]
    rfl
  rw [parse, hread]
  rfl

namespace DatePattern

section

variable {c : Char} {cs : List Char}

theorem pieces_opening (hc : c ≠ '\x27') (cs : List Char) :
    pieces ('\x27' :: c :: cs) = quoted (c :: cs) := by
  rw [pieces]
  exact fun _ h => hc (List.cons.inj h).1

theorem quoted_cons (hc : c ≠ '\x27') (cs : List Char) :
    quoted (c :: cs) = .literal c :: quoted cs := by
  rw [quoted]
  exact hc

/-- From inside a quoted text on, and from the second of two quotes on: the first of the two has
ended the quoted text, and what follows opens another one. -/
theorem pieces_doubleQuotes (hlast : cs.getLast? ≠ some '\x27') :
    quoted (doubleQuotes cs ++ ['\x27']) = (thinQuotes false cs).map .literal ∧
      (cs ≠ [] → pieces ('\x27' :: (doubleQuotes cs ++ ['\x27'])) =
        (thinQuotes true cs).map .literal) := by
  induction cs with
  | nil => exact ⟨rfl, fun h => absurd rfl h⟩
  | cons c cs ih =>
    have hcs : cs.getLast? ≠ some '\x27' := by
      cases cs with
      | nil => simp
      | cons d ds => rwa [List.getLast?_cons_cons] at hlast
    obtain ⟨hquoted, hpieces⟩ := ih hcs
    by_cases hc : c = '\x27'
    · subst hc
      have hne : cs ≠ [] := by
        rintro rfl
        simp at hlast
      rw [doubleQuotes_quote, thinQuotes_first, thinQuotes_quote]
      refine ⟨?_, fun _ => ?_⟩
      · exact hpieces hne
      · rw [List.cons_append, List.cons_append, pieces, hpieces hne]
        rfl
    · rw [doubleQuotes_cons hc, List.cons_append, pieces_opening hc, quoted_cons hc, hquoted,
        thinQuotes_cons _ hc, thinQuotes_cons _ hc]
      exact ⟨rfl, fun _ => rfl⟩

theorem mapM_literals (pattern : String) (fields : DateFields) (cs : List Char) :
    (cs.map Piece.literal).mapM (pieceText pattern fields) = .ok (cs.map fun c => [c]) := by
  induction cs with
  | nil => rfl
  | cons c cs ih =>
    rw [List.map_cons, List.mapM_cons, ih]
    rfl

theorem format_quoteText {t : String} (hne : t.toList ≠ [])
    (hlast : t.toList.getLast? ≠ some '\x27') (fields : DateFields) :
    format fields (quoteText t) = .ok (String.ofList (thinQuotes true t.toList)) := by
  have hpieces : pieces (quoteText t).toList = (thinQuotes true t.toList).map .literal := by
    rw [quoteText, String.toList_ofList]
    exact (pieces_doubleQuotes hlast).2 hne
  have hflatten : ((thinQuotes true t.toList).map fun c => [c]).flatten =
      thinQuotes true t.toList := by
    rw [← List.flatMap_def, List.flatMap_singleton']
  rw [format, hpieces, mapM_literals, Except.map, hflatten]

end

end DatePattern

/-- A number pattern gives back a text that stands in quotes with its own quotes doubled. A date
pattern gives back what is left without the first quote of each run, for any date; that is the text
only when it has no quotes. -/
theorem quoteText_in_patterns {t : String} (hne : t ≠ "") (hfirst : t.toList.head? ≠ some '\x27')
    (hlast : t.toList.getLast? ≠ some '\x27') :
    NumberPattern.parse (quoteText t ++ "0") = .ok (.oneDigit t.toList) ∧
      ∀ v fields, Value.dateFields? v = some fields →
        v.formatDate? (quoteText t) = .ok (some (String.ofList (thinQuotes false t.toList))) ∧
        (v.formatDate? (quoteText t) = .ok (some t) ↔ '\x27' ∉ t.toList) := by
  have hchars : t.toList ≠ [] := fun h => hne (String.toList_inj.mp h)
  refine ⟨NumberPattern.parse_quoteText hchars hfirst, fun v fields hv => ?_⟩
  have hthin : thinQuotes true t.toList = thinQuotes false t.toList := by
    obtain ⟨c, cs, hcs, hc⟩ := exists_cons_of_head? hchars hfirst
    rw [hcs, thinQuotes_cons _ hc, thinQuotes_cons _ hc]
  have hformat : v.formatDate? (quoteText t) =
      .ok (some (String.ofList (thinQuotes false t.toList))) := by
    have htext := DatePattern.format_quoteText hchars hlast fields
    rw [hthin] at htext
    simp only [Value.formatDate?, hv, htext]
    rfl
  refine ⟨hformat, ?_⟩
  rw [hformat, ← thinQuotes_eq_self_iff, Except.ok.injEq, Option.some.injEq, ← String.toList_inj,
    String.toList_ofList]

theorem quoteText_in_patterns_doubled :
    quoteText "it's" = "'it''s'" ∧
      NumberPattern.parse "'it''s'0" = .ok (.oneDigit ['i', 't', '\x27', 's']) ∧
      ∀ d : Date, Value.formatDate? "'it''s'" (.atom (.date d)) = .ok (some "its") := by
  obtain ⟨hnumber, hdate⟩ := quoteText_in_patterns (t := "it's") (by decide) (by decide) (by decide)
  exact ⟨rfl, hnumber, fun d => (hdate _ _ rfl).1⟩

end DocTemplate
