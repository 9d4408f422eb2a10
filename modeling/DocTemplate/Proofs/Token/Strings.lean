import DocTemplate.Proofs.Token.Lexemes
import Mathlib.Data.List.TakeWhile

namespace DocTemplate

namespace Quote

def marks : List Char := ['"', '\u201C', '\u201D', '\x27', '\u2018', '\u2019']

theorem mem_marks {c : Char} {q : Quote} (h : of? c = some q) : c ∈ marks := by
  by_contra hc
  simp only [marks, List.mem_cons, List.not_mem_nil, or_false, not_or] at hc
  simp [of?, includes, hc] at h

theorem of?_eq_none {c : Char} {p : Char → Bool} (hp : marks.any p = false) (h : p c) :
    of? c = none := by
  cases hq : of? c with
  | none => rfl
  | some q =>
    rw [List.any_eq_true.mpr ⟨c, mem_marks hq, h⟩] at hp
    cases hp

theorem of?_blank {c : Char} (h : isBlank c) : of? c = none := of?_eq_none (by decide) h

theorem of?_digit {c : Char} (h : c.isDigit) : of? c = none := of?_eq_none (by decide) h

theorem of?_namePart {c : Char} (h : Lexed.isNamePart c) : of? c = none :=
  of?_eq_none (by decide +kernel) h

theorem of?_tagPart {c : Char} (h : Lexed.isTagPart c) : of? c = none :=
  of?_eq_none (by decide +kernel) h

end Quote

def Unquoted (cs : List Char) : Prop := ∀ c ∈ cs, Quote.of? c = none

namespace Unquoted

variable {p : Char → Bool} {c : Char} {cs ds : List Char}

theorem nil : Unquoted [] := nofun

theorem cons (h : Quote.of? c = none) (hc : Unquoted cs) : Unquoted (c :: cs) :=
  List.forall_mem_cons.mpr ⟨h, hc⟩

theorem append (hc : Unquoted cs) (hd : Unquoted ds) : Unquoted (cs ++ ds) :=
  List.forall_mem_append.mpr ⟨hc, hd⟩

theorem takeWhile (hp : ∀ {c}, p c → Quote.of? c = none) (cs : List Char) :
    Unquoted (cs.takeWhile p) := fun _ hc => hp (List.mem_takeWhile_imp hc)

theorem take_takeWhile (hp : ∀ {c}, p c → Quote.of? c = none) (cs : List Char) :
    Unquoted (cs.take (cs.takeWhile p).length) := by
  rw [← List.prefix_iff_eq_take.mp (List.takeWhile_prefix p)]
  exact takeWhile hp cs

end Unquoted

namespace Lexed

variable {c : Char} {cs : List Char} {kind : TokenKind} {literal : Option Literal} {more : Nat}

def suffixes : List Char := ['f', 'F', 'd', 'D', 'm', 'M', 'l', 'L']

theorem mem_suffixes {whole fraction : List Char} {suffix : Option Char}
    (h : (numberLiteral whole fraction suffix).2 = true) : ∃ d ∈ suffixes, suffix = some d := by
  unfold numberLiteral at h
  extract_lets at h
  split at h
  case h_9 => split at h <;> cases h
  all_goals exact ⟨_, by decide, rfl⟩

theorem suffix_unquoted (whole fraction cs : List Char) :
    ∃ read rest, cs = read ++ rest ∧ Unquoted read ∧
      (if (numberLiteral whole fraction cs.head?).2 then cs.drop 1 else cs) = rest := by
  split
  next h =>
    obtain ⟨d, hd, hhead⟩ := mem_suffixes h
    obtain ⟨rest, rfl⟩ := List.head?_eq_some_iff.mp hhead
    have hall : suffixes.all fun d => Quote.of? d == none := by decide
    exact ⟨[d], rest, rfl, .cons (by simpa using List.all_eq_true.mp hall d hd) .nil, rfl⟩
  next => exact ⟨[], cs, rfl, .nil, rfl⟩

theorem point_fractionDigits {cs : List Char} (h : fractionDigits cs ≠ []) :
    cs = '.' :: fractionDigits cs ++ cs.drop ((fractionDigits cs).length + 1) ∧
      ∀ d ∈ fractionDigits cs, d.isDigit := by
  cases cs with
  | nil => exact absurd rfl h
  | cons c cs =>
    have hc : c = '.' := by
      by_contra hc
      exact h (by simp [fractionDigits, hc])
    subst hc
    have hprefix : cs.takeWhile Char.isDigit <+: cs := List.takeWhile_prefix _
    exact ⟨congrArg ('.' :: ·) (List.prefix_iff_eq_append.mp hprefix).symm,
      fun d hd => List.mem_takeWhile_imp hd⟩

theorem fractionDigits_unquoted (cs : List Char) :
    ∃ read rest, cs = read ++ rest ∧ Unquoted read ∧
      (if fractionDigits cs = [] then cs else cs.drop ((fractionDigits cs).length + 1)) = rest := by
  split
  next => exact ⟨[], cs, rfl, .nil, rfl⟩
  next h =>
    obtain ⟨hcs, hdigits⟩ := point_fractionDigits h
    exact ⟨_, _, hcs, .cons rfl fun d hd => Quote.of?_digit (hdigits d hd), rfl⟩

theorem number_eq (c : Char) (cs : List Char) :
    ∃ read last found, cs = read ++ last ∧ Unquoted read ∧
      number c cs =
        if 0 < (last.takeWhile isNamePart).length then
          .fault .invalidNumber 0 (read.length + (last.takeWhile isNamePart).length + 1)
        else
          match found with
          | some literal => .token .number (some literal) read.length
          | none => .fault .numberRange 0 (read.length + 1) := by
  have hdigits : cs = cs.takeWhile Char.isDigit ++ cs.dropWhile Char.isDigit :=
    List.takeWhile_append_dropWhile.symm
  obtain ⟨point, rest, hpoint, hupoint, hrest⟩ :=
    fractionDigits_unquoted (cs.dropWhile Char.isDigit)
  obtain ⟨suffix, last, hsuffix, husuffix, hlast⟩ := suffix_unquoted
    (c :: cs.takeWhile Char.isDigit) (fractionDigits (cs.dropWhile Char.isDigit)) rest
  have hcs : cs = cs.takeWhile Char.isDigit ++ (point ++ suffix) ++ last := by
    rw [List.append_assoc, List.append_assoc, ← hsuffix, ← hpoint, ← hdigits]
  have hlength : cs.length - last.length =
      (cs.takeWhile Char.isDigit ++ (point ++ suffix)).length := by
    have := congrArg List.length hcs
    rw [List.length_append] at this
    omega
  refine ⟨_, last, (numberLiteral (c :: cs.takeWhile Char.isDigit)
    (fractionDigits (cs.dropWhile Char.isDigit)) rest.head?).1, hcs,
    .append (.takeWhile Quote.of?_digit cs) (.append hupoint husuffix), ?_⟩
  unfold number
  simp only [hrest, hlast, hlength]
  split
  next => rfl
  next htail =>
    rw [Nat.eq_zero_of_not_pos htail, Nat.add_zero]
    rfl

theorem number_unquoted (h : number c cs = .token kind literal more) :
    kind ≠ .string ∧ Unquoted (cs.take more) := by
  obtain ⟨read, last, found, hcs, hread, hnumber⟩ := number_eq c cs
  rw [hnumber] at h
  split at h
  next => cases h
  next =>
    split at h
    next =>
      obtain ⟨rfl, -, rfl⟩ := Lexed.token.inj h
      rw [hcs, List.take_left]
      exact ⟨nofun, hread⟩
    next => cases h

theorem either_unquoted {second : Char} {both one : TokenKind}
    (h : either second both one cs = .token kind literal more) (hs : Quote.of? second = none)
    (hb : both ≠ .string) (ho : one ≠ .string) :
    kind ≠ .string ∧ Unquoted (cs.take more) := by
  unfold either at h
  split at h
  next hhead =>
    obtain ⟨rfl, -, rfl⟩ := Lexed.token.inj h
    obtain ⟨rest, rfl⟩ := List.head?_eq_some_iff.mp hhead
    exact ⟨hb, .cons hs .nil⟩
  next =>
    obtain ⟨rfl, -, rfl⟩ := Lexed.token.inj h
    exact ⟨ho, .nil⟩

theorem targetMark_unquoted (h : targetMark cs = .token kind literal more) :
    kind ≠ .string ∧ Unquoted (cs.take more) := by
  unfold targetMark at h
  split at h
  next => cases h
  next =>
    obtain ⟨rfl, -, rfl⟩ := Lexed.token.inj h
    exact ⟨nofun, .take_takeWhile Quote.of?_tagPart cs⟩

theorem name_unquoted (h : name c cs = .token kind literal more) :
    kind ≠ .string ∧ Unquoted (cs.take more) := by
  unfold name at h
  obtain ⟨rfl, -, rfl⟩ := Lexed.token.inj h
  refine ⟨?_, .take_takeWhile Quote.of?_namePart cs⟩
  split <;> exact nofun

theorem lex_token (h : lex c cs = .token kind literal more) :
    kind ≠ .string ∧ Unquoted (c :: cs.take more) ∨
      ∃ q, Quote.of? c = some q ∧ stringBody q [] 0 cs = .token kind literal more := by
  have hplain (hc : Quote.of? c = none) (hrest : kind ≠ .string ∧ Unquoted (cs.take more)) :
      kind ≠ .string ∧ Unquoted (c :: cs.take more) := ⟨hrest.1, .cons hc hrest.2⟩
  have hsingle {one : TokenKind} (h : Lexed.token one none 0 = .token kind literal more)
      (ho : one ≠ .string) :
      kind ≠ .string ∧ Unquoted (cs.take more) := by
    obtain ⟨rfl, -, rfl⟩ := Lexed.token.inj h
    exact ⟨ho, .nil⟩
  unfold lex at h
  split at h
  iterate 10 exact .inl (hplain rfl (hsingle h nofun))
  iterate 6 exact .inl (hplain rfl (either_unquoted h rfl nofun nofun))
  · split at h
    next hhead =>
      obtain ⟨rfl, -, rfl⟩ := Lexed.token.inj h
      obtain ⟨rest, rfl⟩ := List.head?_eq_some_iff.mp hhead
      exact .inl (hplain rfl ⟨nofun, .cons rfl .nil⟩)
    next => cases h
  · exact .inl (hplain rfl (targetMark_unquoted h))
  · split at h
    next q hq => exact .inr ⟨q, hq, h⟩
    next hq =>
      split at h
      next => exact .inl (hplain hq (number_unquoted h))
      next =>
        split at h
        next => exact .inl (hplain hq (name_unquoted h))
        next => cases h

end Lexed

/-- Which quote is open, and whether a backslash stands before the next character. -/
structure Quoting where
  quote : Option Quote
  escaped : Bool
  deriving DecidableEq, Repr

namespace Quoting

def outside : Quoting := ⟨none, false⟩

def inside (q : Quote) : Quoting := ⟨some q, false⟩

def next (s : Quoting) (c : Char) : Quoting :=
  match s.quote with
  | none => { s with quote := Quote.of? c }
  | some q =>
    if s.escaped then { s with escaped := false }
    else if c = '\\' then { s with escaped := true }
    else if q.includes c then { s with quote := none }
    else s

def steps (s : Quoting) : List Char → List (Bool × Bool)
  | [] => []
  | c :: cs => (s.quote.isSome, (s.next c).quote.isSome) :: (s.next c).steps cs

end Quoting

/-- The ranges of places from one that opens something to the one that closes it. Each place says
whether it is open before and after it, and `start` is where it was opened. -/
def openRanges (start i : Nat) : List (Bool × Bool) → List (Nat × Nat)
  | [] => []
  | (false, _) :: places => openRanges i (i + 1) places
  | (true, true) :: places => openRanges start (i + 1) places
  | (true, false) :: places => (start, i + 1) :: openRanges i (i + 1) places

namespace Quoting

variable {s : Quoting} {q : Quote} {c : Char} {cs ds : List Char} {start i : Nat}

theorem next_plain (h : Quote.of? c = none) : outside.next c = outside := by
  simp [next, outside, h]

theorem openRanges_outside (start start' i : Nat) (cs : List Char) :
    openRanges start i (outside.steps cs) = openRanges start' i (outside.steps cs) := by
  cases cs <;> rfl

theorem steps_append (s : Quoting) (cs ds : List Char) :
    s.steps (cs ++ ds) = s.steps cs ++ (cs.foldl next s).steps ds := by
  induction cs generalizing s with
  | nil => rfl
  | cons c cs ih => rw [List.cons_append, steps, ih, steps, List.cons_append, List.foldl_cons]

theorem openRanges_unquoted (h : Unquoted ds) :
    openRanges start i (outside.steps (ds ++ cs)) =
      openRanges start (i + ds.length) (outside.steps cs) := by
  induction ds generalizing start i with
  | nil => rfl
  | cons d ds ih =>
    obtain ⟨hd, hds⟩ := List.forall_mem_cons.mp h
    rw [List.cons_append, steps, next_plain hd]
    change openRanges i (i + 1) (outside.steps (ds ++ cs)) = _
    rw [ih hds, openRanges_outside i start, List.length_cons, Nat.add_assoc, Nat.add_comm 1]

theorem foldl_unquoted (h : Unquoted ds) :
    (ds ++ cs).foldl next outside = cs.foldl next outside := by
  induction ds with
  | nil => rfl
  | cons d ds ih =>
    obtain ⟨hd, hds⟩ := List.forall_mem_cons.mp h
    rw [List.cons_append, List.foldl_cons, next_plain hd, ih hds]

theorem next_open (h : Quote.of? c = some q) : outside.next c = inside q := by
  simp [next, outside, inside, h]

theorem next_close (hc : c ≠ '\\') (h : q.includes c) : (inside q).next c = outside := by
  simp [next, inside, outside, hc, h]

theorem next_other (hc : c ≠ '\\') (h : ¬ q.includes c) : (inside q).next c = inside q := by
  simp [next, inside, hc, h]

theorem exists_stop (start i : Nat) (h : (cs.foldl next s).quote = none) (hs : s.quote.isSome) :
    ∃ stop, i < stop ∧ (start, stop) ∈ openRanges start i (s.steps cs) := by
  induction cs generalizing s i with
  | nil =>
    rw [List.foldl_nil] at h
    simp [h] at hs
  | cons c cs ih =>
    rw [steps, hs]
    cases hc : (s.next c).quote.isSome with
    | false => exact ⟨i + 1, Nat.lt_succ_self i, List.mem_cons_self⟩
    | true =>
      obtain ⟨stop, hlt, hmem⟩ := ih (i + 1) h hc
      exact ⟨stop, by omega, hmem⟩

theorem exists_range (start : Nat) {k : Nat} {after : Bool} (h : (cs.foldl next s).quote = none)
    (hs : s.quote.isSome → start < i) (hk : (s.steps cs)[k]? = some (true, after)) :
    ∃ r ∈ openRanges start i (s.steps cs), r.1 < i + k ∧ i + k < r.2 := by
  induction cs generalizing s start i k with
  | nil => cases hk
  | cons c cs ih =>
    cases k with
    | zero =>
      have hopen : s.quote.isSome = true := (Prod.mk.inj (Option.some.inj hk)).1
      obtain ⟨stop, hlt, hmem⟩ := exists_stop start i h hopen
      exact ⟨(start, stop), hmem, hs hopen, hlt⟩
    | succ k =>
      have hplace : i + (k + 1) = i + 1 + k := by omega
      rw [hplace]
      cases hopen : s.quote.isSome with
      | false =>
        rw [steps, hopen]
        exact ih i h (fun _ => Nat.lt_succ_self i) hk
      | true =>
        have hlt := hs hopen
        rw [steps, hopen]
        cases hnext : (s.next c).quote.isSome with
        | true => exact ih start h (fun _ => by omega) hk
        | false =>
          obtain ⟨r, hr, hin⟩ := ih i h (fun _ => Nat.lt_succ_self i) hk
          exact ⟨r, List.mem_cons_of_mem _ hr, hin⟩

end Quoting

def ScanCause.isPartial : ScanCause → Bool
  | groupStart _ | groupEnd _ | unterminatedString => true
  | _ => false

namespace Lexed

variable {q : Quote} {c : Char} {cs value : List Char} {seen i start : Nat} {kind : TokenKind}
  {literal : Option Literal} {more skip length : Nat} {cause : ScanCause}

theorem stringBody_token (h : stringBody q value seen cs = .token kind literal more) :
    kind = .string ∧ ∃ n, more = seen + n ∧ n ≤ cs.length ∧
      (∀ start i, openRanges start i ((Quoting.inside q).steps cs) =
        (start, i + n) :: openRanges start (i + n) (Quoting.outside.steps (cs.drop n))) ∧
      cs.foldl Quoting.next (.inside q) = (cs.drop n).foldl Quoting.next .outside := by
  fun_induction stringBody q value seen cs
  case case1 | case2 | case4 => cases h
  case case3 value seen c rest d hd ih =>
    obtain ⟨hkind, n, rfl, hn, hranges, hfold⟩ := ih h
    refine ⟨hkind, n + 2, by omega, by simpa using hn, fun start i => ?_, hfold⟩
    have hi : i + 1 + 1 + n = i + (n + 2) := by omega
    rw [List.drop_succ_cons, List.drop_succ_cons, ← hi, ← hranges]
    rfl
  case case5 value seen c rest hc hq =>
    obtain ⟨rfl, -, rfl⟩ := Lexed.token.inj h
    refine ⟨rfl, 1, rfl, by simp, fun start i => ?_, ?_⟩
    · rw [Quoting.steps, Quoting.next_close hc hq]
      exact congrArg _ (Quoting.openRanges_outside ..)
    · rw [List.foldl_cons, Quoting.next_close hc hq]
      rfl
  case case6 value seen c rest hc hq ih =>
    obtain ⟨hkind, n, rfl, hn, hranges, hfold⟩ := ih h
    refine ⟨hkind, n + 1, by omega, by simpa using hn, fun start i => ?_, ?_⟩
    · have hi : i + 1 + n = i + (n + 1) := by omega
      rw [List.drop_succ_cons, ← hi, ← hranges, Quoting.steps, Quoting.next_other hc hq]
      rfl
    · rw [List.foldl_cons, Quoting.next_other hc hq, hfold, List.drop_succ_cons]

theorem stringBody_fault (h : stringBody q value seen cs = .fault cause skip length)
    (hp : cause.isPartial) : (cs.foldl Quoting.next (.inside q)).quote.isSome := by
  fun_induction stringBody q value seen cs
  case case1 => rfl
  case case2 | case4 =>
    obtain ⟨rfl, -, -⟩ := Lexed.fault.inj h
    cases hp
  case case3 value seen c rest d hd ih => exact ih h
  case case5 => cases h
  case case6 value seen c rest hc hq ih =>
    rw [List.foldl_cons, Quoting.next_other hc hq]
    exact ih h

theorem either_ne_fault {second : Char} {both one : TokenKind} :
    either second both one cs ≠ .fault cause skip length := by
  unfold either
  split <;> exact nofun

theorem number_fault (h : number c cs = .fault cause skip length) : ¬ cause.isPartial := by
  obtain ⟨read, last, found, -, -, hnumber⟩ := number_eq c cs
  rw [hnumber] at h
  split at h
  next =>
    obtain ⟨rfl, -, -⟩ := Lexed.fault.inj h
    exact nofun
  next =>
    split at h
    next => cases h
    next =>
      obtain ⟨rfl, -, -⟩ := Lexed.fault.inj h
      exact nofun

theorem lex_fault (h : lex c cs = .fault cause skip length) (hp : cause.isPartial) :
    ∃ q, Quote.of? c = some q ∧ stringBody q [] 0 cs = .fault cause skip length := by
  unfold lex at h
  split at h
  iterate 10 cases h
  iterate 6 exact absurd h either_ne_fault
  · split at h <;> cases h
    cases hp
  · unfold targetMark at h
    split at h <;> cases h
    cases hp
  · split at h
    next q hq => exact ⟨q, hq, h⟩
    next =>
      split at h
      next => exact absurd hp (number_fault h)
      next =>
        split at h <;> cases h
        cases hp

end Lexed

section

variable {c : Char} {cs : List Char} {i start : Nat} {ls : List Lexeme} {f : LexemeFault}

theorem lexemesFrom_token {kind : TokenKind} {literal : Option Literal} {more : Nat}
    (hb : ¬ isBlank c) (h : Lexed.lex c cs = .token kind literal more) :
    lexemesFrom i 0 (c :: cs) =
      (lexemesFrom (i + (c :: cs.take more).length) 0 (cs.drop more)).map
        (⟨kind, literal, i, c :: cs.take more⟩ :: ·) := by
  rw [lexemesFrom, if_neg hb, h]
  dsimp only
  rw [lexemesFrom_skip, List.length_cons, List.length_take, Nat.add_assoc, Nat.add_comm 1]

/-- The string lexemes of a text are the ranges where a quote is open. -/
theorem lexemesFrom_strings (start : Nat) (h : lexemesFrom i 0 cs = .ok ls) :
    (ls.filter (·.kind = .string)).map Lexeme.range =
      openRanges start i (Quoting.outside.steps cs) := by
  -- A lexeme takes several characters, so the induction is on how much text is left.
  induction hl : cs.length using Nat.strongRecOn generalizing i start cs ls with
  | _ n ih =>
    subst hl
    cases cs with
    | nil =>
      obtain rfl := Except.ok.inj h
      rfl
    | cons c cs =>
      by_cases hb : isBlank c
      · rw [lexemesFrom, if_pos hb] at h
        rw [ih cs.length (by simp) start h rfl]
        exact (Quoting.openRanges_unquoted (.cons (Quote.of?_blank hb) .nil)).symm
      · cases hlex : Lexed.lex c cs with
        | fault =>
          rw [lexemesFrom, if_neg hb, hlex] at h
          cases h
        | token kind literal more =>
          rw [lexemesFrom_token hb hlex] at h
          obtain ⟨rest, hrest, rfl⟩ := map_eq_ok.mp h
          have hshorter : (cs.drop more).length < (c :: cs).length := by
            simp only [List.length_drop, List.length_cons]
            omega
          have ih (start : Nat) := ih (cs.drop more).length hshorter start hrest rfl
          rcases Lexed.lex_token hlex with ⟨hkind, hplain⟩ | ⟨q, hq, hbody⟩
          · rw [List.filter_cons_of_neg (by simpa using hkind), ih start,
              ← Quoting.openRanges_unquoted hplain, List.cons_append, List.take_append_drop]
          · obtain ⟨rfl, n, hn, hle, hranges, -⟩ := Lexed.stringBody_token hbody
            obtain rfl : more = n := by omega
            have hlength : i + (c :: cs.take more).length = i + 1 + more := by
              rw [List.length_cons, List.length_take, Nat.min_eq_left hle]
              omega
            rw [List.filter_cons_of_pos (by simp), List.map_cons, ih i, Lexeme.range, Lexeme.stop,
              hlength, ← hranges, Quoting.steps, Quoting.next_open hq]
            rfl

theorem lexemesFrom_fault (h : lexemesFrom i 0 cs = .error f) (hp : f.cause.isPartial) :
    (cs.foldl Quoting.next .outside).quote.isSome := by
  induction hl : cs.length using Nat.strongRecOn generalizing i cs with
  | _ n ih =>
    subst hl
    cases cs with
    | nil => cases h
    | cons c cs =>
      by_cases hb : isBlank c
      · rw [lexemesFrom, if_pos hb] at h
        rw [← List.singleton_append, Quoting.foldl_unquoted (.cons (Quote.of?_blank hb) .nil)]
        exact ih cs.length (by simp) h rfl
      · cases hlex : Lexed.lex c cs with
        | fault cause skip length =>
          rw [lexemesFrom, if_neg hb, hlex] at h
          obtain rfl := Except.error.inj h
          obtain ⟨q, hq, hbody⟩ := Lexed.lex_fault hlex hp
          rw [List.foldl_cons, Quoting.next_open hq]
          exact Lexed.stringBody_fault hbody hp
        | token kind literal more =>
          rw [lexemesFrom_token hb hlex] at h
          have hshorter : (cs.drop more).length < (c :: cs).length := by
            simp only [List.length_drop, List.length_cons]
            omega
          have ih := ih (cs.drop more).length hshorter (map_eq_error.mp h) rfl
          rcases Lexed.lex_token hlex with ⟨-, hplain⟩ | ⟨q, hq, hbody⟩
          · rwa [← Quoting.foldl_unquoted hplain, List.cons_append, List.take_append_drop] at ih
          · obtain ⟨-, n, hn, -, -, hfold⟩ := Lexed.stringBody_token hbody
            obtain rfl : more = n := by omega
            rwa [List.foldl_cons, Quoting.next_open hq, hfold]

end

end DocTemplate
