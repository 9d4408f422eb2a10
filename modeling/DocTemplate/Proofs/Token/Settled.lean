import DocTemplate.Proofs.Token.Strings

namespace DocTemplate

def AtSpace (cs : List Char) : Prop := ∀ c ∈ cs.head?, c = ' '

namespace AtSpace

variable {p : Char → Bool} {next : List Char}

theorem nil : AtSpace [] := nofun

theorem space (cs : List Char) : AtSpace (' ' :: cs) := by simp [AtSpace]

theorem takeWhile (h : AtSpace next) (hp : p ' ' = false) : next.takeWhile p = [] := by
  cases next with
  | nil => rfl
  | cons c cs =>
    obtain rfl := h c rfl
    rw [List.takeWhile_cons, hp]
    rfl

theorem takeWhile_append (h : AtSpace next) (hp : p ' ' = false) (cs : List Char) :
    (cs.takeWhile p ++ next).takeWhile p = cs.takeWhile p := by
  rw [List.takeWhile_append_of_pos fun _ hc => List.mem_takeWhile_imp hc, h.takeWhile hp,
    List.append_nil]

end AtSpace

namespace Lexed

variable {c : Char} {cs : List Char} {kind : TokenKind} {literal : Option Literal} {more : Nat}

/-- What is read from the front of the text, with `more` characters, is read from it also at the end
of a text or before a space. -/
def Settles (read : List Char → Lexed) (cs : List Char) (kind : TokenKind)
    (literal : Option Literal) (more : Nat) : Prop :=
  ∃ front back, cs = front ++ back ∧ front.length = more ∧
    ∀ next, AtSpace next → read (front ++ next) = .token kind literal more

theorem single_settles {one : TokenKind} (h : Lexed.token one none 0 = .token kind literal more) :
    Settles (fun _ => .token one none 0) cs kind literal more := by
  obtain ⟨rfl, rfl, rfl⟩ := Lexed.token.inj h
  exact ⟨[], cs, rfl, rfl, fun _ _ => rfl⟩

theorem either_settles {second : Char} {both one : TokenKind} (hs : second ≠ ' ')
    (h : either second both one cs = .token kind literal more) :
    Settles (either second both one) cs kind literal more := by
  unfold either at h
  split at h
  next hhead =>
    obtain ⟨rfl, rfl, rfl⟩ := Lexed.token.inj h
    obtain ⟨back, rfl⟩ := List.head?_eq_some_iff.mp hhead
    exact ⟨[second], back, rfl, rfl, fun next _ => if_pos rfl⟩
  next =>
    obtain ⟨rfl, rfl, rfl⟩ := Lexed.token.inj h
    exact ⟨[], cs, rfl, rfl, fun next hn => if_neg fun hhead => hs (hn second hhead)⟩

theorem targetMark_settles (h : targetMark cs = .token kind literal more) :
    Settles targetMark cs kind literal more := by
  refine ⟨cs.takeWhile isTagPart, cs.dropWhile isTagPart, List.takeWhile_append_dropWhile.symm, ?_,
    fun next hn => ?_⟩
  · unfold targetMark at h
    split at h
    next => cases h
    next => exact (Lexed.token.inj h).2.2
  · rw [← h, targetMark, targetMark, hn.takeWhile_append (by decide +kernel)]

theorem name_settles (h : name c cs = .token kind literal more) :
    Settles (name c) cs kind literal more := by
  refine ⟨cs.takeWhile isNamePart, cs.dropWhile isNamePart, List.takeWhile_append_dropWhile.symm,
    (Lexed.token.inj h).2.2, fun next hn => ?_⟩
  rw [← h, name, name, hn.takeWhile_append (by decide +kernel)]

theorem stringBody_front {q : Quote} {value : List Char} {seen : Nat}
    (h : stringBody q value seen cs = .token kind literal more) :
    ∃ front back, cs = front ++ back ∧ more = seen + front.length ∧
      ∀ next, stringBody q value seen (front ++ next) = .token kind literal more := by
  fun_induction stringBody q value seen cs
  case case1 | case2 | case4 => cases h
  case case3 value seen c rest d hd ih =>
    obtain ⟨front, back, rfl, rfl, hnext⟩ := ih h
    refine ⟨'\\' :: c :: front, back, rfl, by simp only [List.length_cons]; omega, fun next => ?_⟩
    rw [List.cons_append, List.cons_append, stringBody, hd]
    exact hnext next
  case case5 value seen c rest hc hq =>
    refine ⟨[c], rest, rfl, ?_, fun next => ?_⟩
    · exact (Lexed.token.inj h).2.2.symm
    · rw [List.singleton_append, stringBody, if_pos hq, h]
      exact hc
  case case6 value seen c rest hc hq ih =>
    obtain ⟨front, back, rfl, rfl, hnext⟩ := ih h
    refine ⟨c :: front, back, rfl, by simp only [List.length_cons]; omega, fun next => ?_⟩
    rw [List.cons_append, stringBody, if_neg hq]
    · exact hnext next
    · exact hc

theorem stringBody_settles {q : Quote} (h : stringBody q [] 0 cs = .token kind literal more) :
    Settles (stringBody q [] 0) cs kind literal more := by
  obtain ⟨front, back, hcs, hmore, hnext⟩ := stringBody_front h
  exact ⟨front, back, hcs, by omega, fun next _ => hnext next⟩

def pointed (fraction : List Char) : List Char := if fraction = [] then [] else '.' :: fraction

section

variable {whole digits fraction next : List Char} {suffix : Option Char}

theorem numberLiteral_plain (h : (numberLiteral whole fraction suffix).2 = false) :
    numberLiteral whole fraction suffix = numberLiteral whole fraction none := by
  unfold numberLiteral at h ⊢
  extract_lets at h ⊢
  split at h
  case h_7 | h_8 =>
    split at h
    next => cases h
    next hf => rw [if_neg hf, if_neg hf]
  case h_9 => rfl
  all_goals cases h

/-- The characters that digits, a fraction and a suffix are followed by, so that the number is as
long as they are. -/
theorem head_not_digit (hs : (numberLiteral whole fraction suffix).2 = suffix.isSome)
    (hn : AtSpace next) : ∀ d ∈ (suffix.toList ++ next).head?, d.isDigit = false ∧ d ≠ '.' := by
  intro d hd
  cases suffix with
  | none =>
    obtain rfl := hn d hd
    decide
  | some s =>
    obtain ⟨s', hmem, heq⟩ := mem_suffixes hs
    obtain rfl := Option.some.inj heq
    obtain rfl := Option.some.inj hd
    have hall : suffixes.all (fun d => !d.isDigit && d != '.') := by decide
    simpa using List.all_eq_true.mp hall s hmem

theorem takeWhile_digits {rest : List Char} (hd : ∀ d ∈ digits, d.isDigit)
    (hr : ∀ d ∈ rest.head?, d.isDigit = false) :
    (digits ++ rest).takeWhile Char.isDigit = digits ∧
      (digits ++ rest).dropWhile Char.isDigit = rest := by
  rw [List.takeWhile_append_of_pos hd, List.dropWhile_append_of_pos hd]
  cases rest with
  | nil => simp
  | cons r rest =>
    have hr := hr r rfl
    simp [hr]

theorem head_pointed (hr : ∀ d ∈ next.head?, d.isDigit = false) :
    ∀ d ∈ (pointed fraction ++ next).head?, d.isDigit = false := by
  unfold pointed
  split
  next => exact hr
  next =>
    intro d hd
    obtain rfl := Option.some.inj hd
    rfl

theorem fractionDigits_pointed (hf : ∀ d ∈ fraction, d.isDigit)
    (hr : ∀ d ∈ next.head?, d.isDigit = false ∧ d ≠ '.') :
    fractionDigits (pointed fraction ++ next) = fraction ∧
      (if fraction = [] then pointed fraction ++ next
        else (pointed fraction ++ next).drop (fraction.length + 1)) = next := by
  unfold pointed
  split
  next h =>
    subst h
    refine ⟨?_, rfl⟩
    cases next with
    | nil => rfl
    | cons c rest =>
      have hc := (hr c rfl).2
      simp [fractionDigits, hc]
  next => exact ⟨(takeWhile_digits hf fun d hd => (hr d hd).1).1, by simp⟩

theorem number_parts {c : Char} {value : Literal} (hd : ∀ d ∈ digits, d.isDigit)
    (hf : ∀ d ∈ fraction, d.isDigit)
    (hl : numberLiteral (c :: digits) fraction suffix = (some value, suffix.isSome))
    (hn : AtSpace next) :
    number c (digits ++ pointed fraction ++ suffix.toList ++ next) =
      .token .number (some value) (digits ++ pointed fraction ++ suffix.toList).length := by
  have hhead := head_not_digit (congrArg Prod.snd hl) hn
  have hpointed : ∀ d ∈ (pointed fraction ++ (suffix.toList ++ next)).head?, d.isDigit = false :=
    head_pointed fun d h => (hhead d h).1
  obtain ⟨htake, hdrop⟩ := takeWhile_digits hd hpointed
  obtain ⟨hfraction, hrest⟩ := fractionDigits_pointed hf hhead
  have hvalue : numberLiteral (c :: digits) fraction (suffix.toList ++ next).head? =
      (some value, suffix.isSome) := by
    rw [← hl]
    cases suffix with
    | some s => rfl
    | none =>
      cases next with
      | nil => rfl
      | cons d rest =>
        obtain rfl := hn d rfl
        rfl
  have hlast : (if suffix.isSome then (suffix.toList ++ next).drop 1 else suffix.toList ++ next) =
      next := by
    cases suffix <;> rfl
  have htail : next.takeWhile isNamePart = [] := hn.takeWhile (by decide +kernel)
  unfold number
  simp only [List.append_assoc, htake, hdrop, hfraction, hrest, hvalue, hlast, htail]
  simp [List.length_append]
  omega

theorem pointed_fractionDigits (cs : List Char) :
    cs = pointed (fractionDigits cs) ++
        (if fractionDigits cs = [] then cs else cs.drop ((fractionDigits cs).length + 1)) ∧
      ∀ d ∈ fractionDigits cs, d.isDigit := by
  unfold pointed
  split
  next h => exact ⟨rfl, by simp [h]⟩
  next h => exact point_fractionDigits h

theorem exists_suffix (whole fraction cs : List Char) :
    ∃ suffix back, cs = suffix.toList ++ back ∧
      numberLiteral whole fraction cs.head? = numberLiteral whole fraction suffix ∧
      (numberLiteral whole fraction suffix).2 = suffix.isSome ∧
      (if suffix.isSome then cs.drop 1 else cs) = back := by
  cases h : (numberLiteral whole fraction cs.head?).2 with
  | true =>
    obtain ⟨d, -, hd⟩ := mem_suffixes h
    obtain ⟨back, rfl⟩ := List.head?_eq_some_iff.mp hd
    exact ⟨some d, back, rfl, rfl, h, rfl⟩
  | false =>
    have hplain := numberLiteral_plain h
    exact ⟨none, cs, rfl, hplain, hplain ▸ h, rfl⟩

theorem exists_number_parts {c : Char} (h : number c cs = .token kind literal more) :
    ∃ digits fraction suffix back value, cs = digits ++ pointed fraction ++ suffix.toList ++ back ∧
      (∀ d ∈ digits, d.isDigit) ∧ (∀ d ∈ fraction, d.isDigit) ∧
      numberLiteral (c :: digits) fraction suffix = (some value, suffix.isSome) ∧
      kind = .number ∧ literal = some value ∧
      more = (digits ++ pointed fraction ++ suffix.toList).length := by
  have hcs : cs = cs.takeWhile Char.isDigit ++ cs.dropWhile Char.isDigit :=
    List.takeWhile_append_dropWhile.symm
  obtain ⟨hpoint, hfraction⟩ := pointed_fractionDigits (cs.dropWhile Char.isDigit)
  unfold number at h
  dsimp only at h
  generalize fractionDigits (cs.dropWhile Char.isDigit) = fraction at h hpoint hfraction
  generalize (if fraction = [] then cs.dropWhile Char.isDigit
    else (cs.dropWhile Char.isDigit).drop (fraction.length + 1)) = rest at h hpoint
  obtain ⟨suffix, back, hrest, hvalue, hsuffix, hback⟩ :=
    exists_suffix (c :: cs.takeWhile Char.isDigit) fraction rest
  rw [hvalue, hsuffix, hback] at h
  split at h
  next => cases h
  next htail =>
    split at h
    next value hfound =>
      obtain ⟨rfl, rfl, rfl⟩ := Lexed.token.inj h
      have hparts : cs =
          cs.takeWhile Char.isDigit ++ pointed fraction ++ suffix.toList ++ back := by
        rw [List.append_assoc, List.append_assoc, ← hrest, ← hpoint, ← hcs]
      have hlength := congrArg List.length hparts
      rw [List.length_append] at hlength
      refine ⟨cs.takeWhile Char.isDigit, fraction, suffix, back, value, hparts,
        fun d hd => List.mem_takeWhile_imp hd, hfraction, Prod.ext hfound hsuffix, rfl, rfl, ?_⟩
      omega
    next => cases h

theorem number_settles {c : Char} (h : number c cs = .token kind literal more) :
    Settles (number c) cs kind literal more := by
  obtain ⟨digits, fraction, suffix, back, value, rfl, hd, hf, hl, rfl, rfl, rfl⟩ :=
    exists_number_parts h
  exact ⟨_, back, rfl, rfl, fun next hn => number_parts hd hf hl hn⟩

end

def signs : List Char :=
  ['(', ')', '[', ']', ',', '+', '*', '/', '%', '|', '-', '.', '!', '=', '>', '<', '?', '@']

theorem lex_of_not_mem_signs (hc : c ∉ signs) (cs : List Char) :
    lex c cs =
      match Quote.of? c with
      | some q => stringBody q [] 0 cs
      | none =>
        if c.isDigit then number c cs
        else if isNameStart c then name c cs
        else .fault (.unexpected c) 0 1 := by
  unfold lex
  split
  case h_19 => rfl
  all_goals exact absurd (by decide) hc

theorem lex_settles (h : lex c cs = .token kind literal more) :
    Settles (lex c) cs kind literal more := by
  by_cases hc : c ∈ signs
  · unfold lex at h
    split at h
    iterate 10 exact single_settles h
    iterate 6 exact either_settles (by decide) h
    · split at h
      next hhead =>
        obtain ⟨rfl, rfl, rfl⟩ := Lexed.token.inj h
        obtain ⟨back, rfl⟩ := List.head?_eq_some_iff.mp hhead
        exact ⟨['?'], back, rfl, rfl, fun next _ => rfl⟩
      next => cases h
    · exact targetMark_settles h
    · simp_all [signs]
  · cases hq : Quote.of? c with
    | some q =>
      have hread : lex c = stringBody q [] 0 := funext fun cs => by
        rw [lex_of_not_mem_signs hc, hq]
      rw [hread] at h ⊢
      exact stringBody_settles h
    | none =>
      by_cases hd : c.isDigit
      · have hread : lex c = number c := funext fun cs => by
          rw [lex_of_not_mem_signs hc, hq]
          exact if_pos hd
        rw [hread] at h ⊢
        exact number_settles h
      · by_cases hn : isNameStart c
        · have hread : lex c = name c := funext fun cs => by
            rw [lex_of_not_mem_signs hc, hq]
            exact (if_neg hd).trans (if_pos hn)
          rw [hread] at h ⊢
          exact name_settles h
        · rw [lex_of_not_mem_signs hc, hq] at h
          simp [hd, hn] at h

end Lexed

/-- The lexeme is read from its own text, at the end of a text or before a space. -/
def Lexeme.Settled (l : Lexeme) : Prop :=
  ∃ c tail, l.text = c :: tail ∧ ¬ isBlank c ∧ ∀ next, AtSpace next →
    Lexed.lex c (tail ++ next) = .token l.kind l.literal tail.length

inductive Spaced : Nat → List Char → List Lexeme → Prop
  | nil {i : Nat} {gap : List Char} (blank : ∀ c ∈ gap, isBlank c) : Spaced i gap []
  | cons {i : Nat} {gap cs : List Char} {l : Lexeme} {ls : List Lexeme}
    (blank : ∀ c ∈ gap, isBlank c) (start : l.start = i + gap.length) (settled : l.Settled)
    (rest : Spaced l.stop cs ls) : Spaced i (gap ++ (l.text ++ cs)) (l :: ls)

section

variable {c : Char} {cs : List Char} {i : Nat} {l : Lexeme} {ls : List Lexeme}

theorem Spaced.blank_cons (hc : isBlank c) (h : Spaced (i + 1) cs ls) : Spaced i (c :: cs) ls := by
  cases h with
  | nil blank => exact .nil (List.forall_mem_cons.mpr ⟨hc, blank⟩)
  | @cons _ gap cs l ls blank start settled rest =>
    have hstart : l.start = i + (c :: gap).length := by
      rw [start, List.length_cons]
      omega
    have hblank : ∀ d ∈ c :: gap, isBlank d := List.forall_mem_cons.mpr ⟨hc, blank⟩
    exact Spaced.cons hblank hstart settled rest

theorem lexemesFrom_spaced (h : lexemesFrom i 0 cs = .ok ls) : Spaced i cs ls := by
  -- A lexeme takes several characters, so the induction is on how much text is left.
  induction hl : cs.length using Nat.strongRecOn generalizing i cs ls with
  | _ n ih =>
    subst hl
    cases cs with
    | nil =>
      obtain rfl := Except.ok.inj h
      exact .nil nofun
    | cons c cs =>
      by_cases hb : isBlank c
      · rw [lexemesFrom, if_pos hb] at h
        exact (ih cs.length (by simp) h rfl).blank_cons hb
      · cases hlex : Lexed.lex c cs with
        | fault =>
          rw [lexemesFrom, if_neg hb, hlex] at h
          cases h
        | token kind literal more =>
          rw [lexemesFrom_token hb hlex] at h
          obtain ⟨rest, hrest, rfl⟩ := map_eq_ok.mp h
          obtain ⟨front, back, rfl, rfl, hnext⟩ := Lexed.lex_settles hlex
          rw [List.take_left, List.drop_left] at hrest
          rw [List.take_left]
          have hshorter : back.length < (c :: (front ++ back)).length := by
            simp only [List.length_cons, List.length_append]
            omega
          have hsettled : (⟨kind, literal, i, c :: front⟩ : Lexeme).Settled :=
            ⟨c, front, rfl, hb, hnext⟩
          have hblank : ∀ d ∈ ([] : List Char), isBlank d := nofun
          exact Spaced.cons hblank rfl hsettled (ih back.length hshorter hrest rfl)

theorem Spaced.settled (h : Spaced i cs ls) : ∀ l ∈ ls, l.Settled := by
  induction h with
  | nil => exact nofun
  | cons _ _ settled _ ih => exact List.forall_mem_cons.mpr ⟨settled, ih⟩

def Lexeme.unplaced (l : Lexeme) : Lexeme := { l with start := 0 }

def joined (ls : List Lexeme) : List Char := [' '].intercalate (ls.map Lexeme.text)

theorem Lexeme.Settled.lexemesFrom (h : l.Settled) {next : List Char} (hn : AtSpace next) :
    lexemesFrom i 0 (l.text ++ next) =
      (DocTemplate.lexemesFrom (i + l.text.length) 0 next).map ({ l with start := i } :: ·) := by
  obtain ⟨c, tail, htext, hb, hlex⟩ := h
  rw [htext, List.cons_append, lexemesFrom_token hb (hlex next hn), List.take_left, List.drop_left]

/-- Lexemes are read again from their texts. -/
theorem lexemesFrom_joined (h : ∀ l ∈ ls, l.Settled) (i : Nat) :
    ∃ found, lexemesFrom i 0 (joined ls) = .ok found ∧
      found.map Lexeme.unplaced = ls.map Lexeme.unplaced := by
  induction ls generalizing i with
  | nil => exact ⟨[], rfl, rfl⟩
  | cons l ls ih =>
    obtain ⟨hl, hls⟩ := List.forall_mem_cons.mp h
    cases ls with
    | nil =>
      refine ⟨[{ l with start := i }], ?_, rfl⟩
      rw [joined, List.map_singleton, List.intercalate_singleton]
      have hread := hl.lexemesFrom (i := i) .nil
      rwa [List.append_nil] at hread
    | cons l' ls =>
      obtain ⟨found, hfound, hsame⟩ := ih hls (i + l.text.length + 1)
      refine ⟨{ l with start := i } :: found, ?_, by rw [List.map_cons, hsame]; rfl⟩
      have hjoin : joined (l :: l' :: ls) = l.text ++ ' ' :: joined (l' :: ls) := by
        simp [joined, List.intercalate_cons_cons]
      have hblank : isBlank ' ' := rfl
      rw [hjoin, hl.lexemesFrom (.space _), DocTemplate.lexemesFrom, if_pos hblank, hfound]
      rfl

end

end DocTemplate
