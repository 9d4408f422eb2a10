import DocTemplate.Proofs.Token.Strings

namespace DocTemplate

namespace Quote

def mark : Quote → Char
  | double => '"'
  | single => '\x27'

def typographic : List Char := ['\u2018', '\u2019', '\u201C', '\u201D']

def spell (q : Quote) (cs : List Char) : List Char :=
  cs.flatMap fun c => if c = '\\' ∨ c = q.mark then ['\\', c] else [c]

def literal (q : Quote) (cs : List Char) : List Char := q.mark :: q.spell cs ++ [q.mark]

variable {q : Quote} {c : Char} {cs : List Char}

theorem of?_mark (q : Quote) : of? q.mark = some q := by cases q <;> rfl

theorem includes_mark (q : Quote) : q.includes q.mark := by cases q <;> rfl

theorem mark_ne_backslash (q : Quote) : q.mark ≠ '\\' := by cases q <;> decide

theorem unescape?_of_special (h : c = '\\' ∨ c = q.mark) : Lexed.unescape? c = some c := by
  rcases h with rfl | rfl
  · rfl
  · cases q <;> rfl

theorem not_includes (hm : c ≠ q.mark) (ht : c ∉ typographic) : ¬ q.includes c := by
  cases q <;> simp_all [includes, mark, typographic]

theorem spell_special (h : c = '\\' ∨ c = q.mark) :
    q.spell (c :: cs) = '\\' :: c :: q.spell cs := by
  rw [spell, List.flatMap_cons, if_pos h]
  rfl

theorem spell_plain (h : ¬ (c = '\\' ∨ c = q.mark)) : q.spell (c :: cs) = c :: q.spell cs := by
  rw [spell, List.flatMap_cons, if_neg h]
  rfl

end Quote

section

variable {q : Quote} {cs value : List Char} {seen : Nat}

theorem Lexed.lex_mark (q : Quote) (cs : List Char) : lex q.mark cs = stringBody q [] 0 cs := by
  cases q <;> rfl

theorem Lexed.stringBody_spell (hcs : ∀ c ∈ cs, c ∉ Quote.typographic) :
    stringBody q value seen (q.spell cs ++ [q.mark]) =
      .token .string (some (.str (String.ofList (value.reverse ++ cs))))
        (seen + (q.spell cs).length + 1) := by
  induction cs generalizing value seen with
  | nil =>
    rw [Quote.spell, List.flatMap_nil, List.nil_append, stringBody, if_pos q.includes_mark]
    · simp
    · exact fun h => absurd h q.mark_ne_backslash
  | cons c cs ih =>
    obtain ⟨hc, hcs⟩ := List.forall_mem_cons.mp hcs
    by_cases hs : c = '\\' ∨ c = q.mark
    · have hvalue : (c :: value).reverse ++ cs = value.reverse ++ c :: cs := by simp
      have hseen : seen + 2 + (q.spell cs).length = seen + (q.spell (c :: cs)).length := by
        rw [Quote.spell_special hs, List.length_cons, List.length_cons]
        omega
      rw [← hvalue, ← hseen, ← ih hcs, Quote.spell_special hs, List.cons_append, List.cons_append,
        stringBody, Quote.unescape?_of_special hs]
    · obtain ⟨hb, hm⟩ := not_or.mp hs
      have hvalue : (c :: value).reverse ++ cs = value.reverse ++ c :: cs := by simp
      have hseen : seen + 1 + (q.spell cs).length = seen + (q.spell (c :: cs)).length := by
        rw [Quote.spell_plain hs, List.length_cons]
        omega
      rw [← hvalue, ← hseen, ← ih hcs, Quote.spell_plain hs, List.cons_append, stringBody,
        if_neg (Quote.not_includes hm hc)]
      exact fun h => absurd h hb

theorem lexemes_literal (hcs : ∀ c ∈ cs, c ∉ Quote.typographic) :
    lexemes (q.literal cs) = .ok [⟨.string, some (.str (String.ofList cs)), 0, q.literal cs⟩] := by
  have hlex : Lexed.lex q.mark (q.spell cs ++ [q.mark]) =
      .token .string (some (.str (String.ofList cs))) (q.spell cs ++ [q.mark]).length := by
    rw [Lexed.lex_mark, Lexed.stringBody_spell hcs, Nat.zero_add, List.length_append]
    rfl
  have hblank : ¬ isBlank q.mark := by cases q <;> decide
  rw [lexemes, Quote.literal, List.cons_append, lexemesFrom_token hblank hlex, List.take_length,
    List.drop_length]
  rfl

namespace Quoting

theorem next_escape (q : Quote) : (inside q).next '\\' = ⟨some q, true⟩ := rfl

theorem next_escaped (q : Quote) (c : Char) : (⟨some q, true⟩ : Quoting).next c = inside q := rfl

theorem steps_spell (hcs : ∀ c ∈ cs, c ∉ Quote.typographic) :
    (∀ place ∈ (inside q).steps (q.spell cs), place.1 = true) ∧
      (q.spell cs).foldl next (inside q) = inside q := by
  induction cs with
  | nil => exact ⟨nofun, rfl⟩
  | cons c cs ih =>
    obtain ⟨hc, hcs⟩ := List.forall_mem_cons.mp hcs
    obtain ⟨hopen, hfold⟩ := ih hcs
    by_cases hs : c = '\\' ∨ c = q.mark
    · rw [Quote.spell_special hs, steps, steps, List.foldl_cons, List.foldl_cons, next_escape,
        next_escaped]
      exact ⟨List.forall_mem_cons.mpr ⟨rfl, List.forall_mem_cons.mpr ⟨rfl, hopen⟩⟩, hfold⟩
    · obtain ⟨hb, hm⟩ := not_or.mp hs
      rw [Quote.spell_plain hs, steps, List.foldl_cons, next_other hb (Quote.not_includes hm hc)]
      exact ⟨List.forall_mem_cons.mpr ⟨rfl, hopen⟩, hfold⟩

end Quoting

end

end DocTemplate
