import DocTemplate.Output.LineBreaks
import Mathlib.Data.List.Forall2

namespace DocTemplate

/-- A text without the carriage returns that stand right before a newline. -/
def joinReturns : List Char → List Char
  | [] => []
  | '\r' :: '\n' :: cs => '\n' :: joinReturns cs
  | c :: cs => c :: joinReturns cs

section

variable {c : Char} {cs : List Char}

theorem joinReturns_newline (cs : List Char) :
    joinReturns ('\n' :: cs) = '\n' :: joinReturns cs := by
  simp [joinReturns]

theorem joinReturns_return (cs : List Char) :
    joinReturns ('\r' :: '\n' :: cs) = '\n' :: joinReturns cs := by
  simp [joinReturns]

theorem joinReturns_cons (h : ¬(c = '\r' ∧ cs.head? = some '\n')) :
    joinReturns (c :: cs) = c :: joinReturns cs := by
  rw [joinReturns]
  rintro ds rfl rfl
  exact h ⟨rfl, rfl⟩

theorem joinReturns_of_not_mem (h : '\n' ∉ cs) : joinReturns cs = cs := by
  induction cs with
  | nil => rfl
  | cons c cs ih =>
    have hcs : '\n' ∉ cs := fun hn => h (List.mem_cons_of_mem c hn)
    rw [joinReturns_cons fun hc => hcs (List.mem_of_mem_head? hc.2), ih hcs]

theorem joinReturns_append_return (cs : List Char) :
    joinReturns (cs ++ ['\r']) = joinReturns cs ++ ['\r'] := by
  fun_induction joinReturns cs with
  | case1 => rfl
  | case2 cs ih => rw [List.cons_append, List.cons_append, joinReturns_return, ih, List.cons_append]
  | case3 c cs hc ih =>
    have hhead : ¬(c = '\r' ∧ (cs ++ ['\r']).head? = some '\n') := by
      rintro ⟨rfl, hn⟩
      cases cs with
      | nil => simp at hn
      | cons d ds =>
        obtain rfl : d = '\n' := by simpa using hn
        exact hc ds rfl rfl
    rw [List.cons_append, joinReturns_cons hhead, ih, List.cons_append]

end

namespace LineBreaks

variable {b : LineBreaks} {c : Char} {cs ds : List Char} {xs ys : List OutputToken}

/-- Tokens that write a text: parts of it without newlines, and a break for each newline. -/
inductive Spells (b : LineBreaks) : List OutputToken → List Char → Prop
  | nil : Spells b [] []
  | text {s : String} {rest : List OutputToken} {cs : List Char} :
      '\n' ∉ s.toList → Spells b rest cs → Spells b (.text s :: rest) (s.toList ++ cs)
  | newline {rest : List OutputToken} {cs : List Char} :
      Spells b rest cs → Spells b (.markup b.markup :: rest) ('\n' :: cs)

theorem Spells.append (hx : b.Spells xs cs) (hy : b.Spells ys ds) :
    b.Spells (xs ++ ys) (cs ++ ds) := by
  induction hx with
  | nil => exact hy
  | text hs _ ih =>
    rw [List.append_assoc]
    exact .text hs ih
  | newline _ ih => exact .newline ih

theorem Spells.unique (h : b.Spells xs cs) (h' : b.Spells xs ds) : cs = ds := by
  induction h generalizing ds with
  | nil =>
    cases h'
    rfl
  | text _ _ ih =>
    cases h' with
    | text _ h' => rw [ih h']
  | newline _ ih =>
    cases h' with
    | newline h' => rw [ih h']

/-- Texts from their last line backwards. -/
theorem lines_induction {motive : List Char → Prop}
    (last : ∀ line, '\n' ∉ line → motive line)
    (more : ∀ line cs, '\n' ∉ line → motive cs → motive (line ++ '\n' :: cs)) (cs : List Char) :
    motive cs := by
  by_cases h : '\n' ∈ cs
  · obtain ⟨line, rest, hcs, hline⟩ := List.eq_append_cons_of_mem h
    rw [hcs]
    exact more line rest hline (lines_induction last more rest)
  · exact last cs h
termination_by cs.length
decreasing_by
  rw [hcs, List.length_append, List.length_cons]
  omega

theorem splitLines_ne_nil (cs : List Char) : splitLines cs ≠ [] := by
  fun_cases splitLines cs <;> exact nofun

theorem splitLines_last {line : List Char} (h : '\n' ∉ line) : splitLines line = [line] := by
  induction line with
  | nil => rfl
  | cons c line ih =>
    rw [splitLines, ih fun hn => h (List.mem_cons_of_mem c hn)]
    rintro rfl
    exact h List.mem_cons_self

theorem splitLines_more {line : List Char} (h : '\n' ∉ line) (cs : List Char) :
    splitLines (line ++ '\n' :: cs) = line :: splitLines cs := by
  induction line with
  | nil => simp [splitLines]
  | cons c line ih =>
    rw [List.cons_append, splitLines, ih fun hn => h (List.mem_cons_of_mem c hn)]
    rintro rfl
    exact h List.mem_cons_self

theorem splitText_last {line : List Char} (h : '\n' ∉ line) :
    b.splitText line = lineTokens line := by
  rw [splitText, splitLines_last h, List.map_singleton]
  exact List.intercalate_singleton

theorem splitText_more {line : List Char} (h : '\n' ∉ line) (cs : List Char) :
    b.splitText (line ++ '\n' :: cs) =
      lineTokens line ++ .markup b.markup :: b.splitText cs := by
  obtain ⟨first, others, hs⟩ := List.exists_cons_of_ne_nil (splitLines_ne_nil cs)
  rw [splitText, splitLines_more h, splitText, hs]
  simp [List.intercalate]

theorem dropReturn_append (cs : List Char) {ds : List Char} (h : ds ≠ []) :
    dropReturn (cs ++ ds) = cs ++ dropReturn ds := by
  rw [dropReturn, dropReturn, List.getLast?_append_of_ne_nil cs h,
    List.dropLast_append_of_ne_nil h]
  split <;> rfl

theorem dropReturn_of_ne (h : cs.getLast? ≠ some '\r') : dropReturn cs = cs := if_neg h

theorem joinReturns_more {line : List Char} (h : '\n' ∉ line) (cs : List Char) :
    joinReturns (line ++ '\n' :: cs) = dropReturn line ++ '\n' :: joinReturns cs := by
  induction line with
  | nil => exact joinReturns_newline cs
  | cons c line ih =>
    have hline : '\n' ∉ line := fun hn => h (List.mem_cons_of_mem c hn)
    cases line with
    | nil =>
      by_cases hc : c = '\r'
      · rw [hc]
        exact joinReturns_return cs
      · rw [dropReturn_of_ne (by simpa using hc), List.cons_append, List.nil_append,
          joinReturns_cons (fun hn => hc hn.1), joinReturns_newline]
        rfl
    | cons d line =>
      have hd : d ≠ '\n' := fun hd => hline (hd ▸ List.mem_cons_self)
      have hhead : ¬(c = '\r' ∧ (d :: line ++ '\n' :: cs).head? = some '\n') := by
        rintro ⟨-, hn⟩
        exact hd (Option.some.inj hn)
      have hdrop : dropReturn (c :: d :: line) = c :: dropReturn (d :: line) :=
        dropReturn_append [c] (List.cons_ne_nil d line)
      rw [List.cons_append, joinReturns_cons hhead, ih hline, hdrop, List.cons_append]

theorem dropReturn_subset (cs : List Char) : dropReturn cs ⊆ cs := by
  rw [dropReturn]
  split
  · exact cs.dropLast_subset
  · exact List.Subset.refl cs

theorem spells_lineTokens {line : List Char} (h : '\n' ∉ line) :
    b.Spells (lineTokens line) (dropReturn line) := by
  rw [lineTokens]
  split
  next hnil =>
    rw [hnil]
    exact .nil
  next =>
    have hn : '\n' ∉ (String.ofList (dropReturn line)).toList := by
      rw [String.toList_ofList]
      exact fun hn => h (dropReturn_subset line hn)
    have := Spells.text (b := b) hn .nil
    rwa [String.toList_ofList, List.append_nil] at this

theorem spells_splitText (cs : List Char) :
    b.Spells (b.splitText cs) (joinReturns (dropReturn cs)) := by
  induction cs using lines_induction with
  | last line h =>
    rw [splitText_last h,
      joinReturns_of_not_mem fun hn => h (dropReturn_subset line hn)]
    exact spells_lineTokens h
  | more line cs h ih =>
    have hlast : dropReturn (line ++ '\n' :: cs) = line ++ '\n' :: dropReturn cs := by
      cases cs with
      | nil => exact dropReturn_of_ne (by simp)
      | cons c cs =>
        rw [← List.singleton_append, ← List.append_assoc,
          dropReturn_append _ (List.cons_ne_nil c cs), List.append_assoc]
        rfl
    rw [splitText_more h, hlast, joinReturns_more h]
    exact (spells_lineTokens h).append (.newline ih)

theorem joinReturns_dropReturn_iff :
    joinReturns (dropReturn cs) = joinReturns cs ↔ cs.getLast? ≠ some '\r' := by
  constructor
  · intro heq hlast
    obtain ⟨xs, rfl⟩ := List.getLast?_eq_some_iff.mp hlast
    have hdrop : dropReturn (xs ++ ['\r']) = xs := by
      rw [dropReturn, if_pos hlast, List.dropLast_concat]
    rw [hdrop, joinReturns_append_return] at heq
    simp at heq
  · intro h
    rw [dropReturn_of_ne h]

/-- What stands in place of a token: the token itself, and for a text what spells it. Only a
carriage return at the end of a text that has a newline is not spelled. -/
structure Renders (b : LineBreaks) (token : OutputToken) (part : List OutputToken) : Prop where
  kept : (∀ s, token ≠ .text s) → part = [token]
  spelled : ∀ s, token = .text s →
    b.Spells part (if '\n' ∈ s.toList then joinReturns (dropReturn s.toList) else s.toList)
  whole_iff : ∀ s, token = .text s →
    (b.Spells part (joinReturns s.toList) ↔ ¬('\n' ∈ s.toList ∧ s.toList.getLast? = some '\r'))

theorem renders_text (b : LineBreaks) (s : String) :
    b.Renders (.text s) (b.rewriteToken (.text s)) := by
  by_cases h : '\n' ∈ s.toList
  · have hspells : b.Spells (b.rewriteToken (.text s)) (joinReturns (dropReturn s.toList)) := by
      rw [rewriteToken, if_pos h]
      exact spells_splitText s.toList
    refine ⟨fun hne => absurd rfl (hne s), fun t ht => ?_, fun t ht => ?_⟩
    all_goals obtain rfl := OutputToken.text.inj ht
    · rwa [if_pos h]
    · rw [not_and, ← ne_eq, ← joinReturns_dropReturn_iff]
      refine ⟨fun hs _ => hspells.unique hs, fun heq => ?_⟩
      rwa [heq h] at hspells
  · have hspells : b.Spells (b.rewriteToken (.text s)) s.toList := by
      rw [rewriteToken, if_neg h]
      have hs := Spells.text (b := b) h .nil
      rwa [List.append_nil] at hs
    refine ⟨fun hne => absurd rfl (hne s), fun t ht => ?_, fun t ht => ?_⟩
    all_goals obtain rfl := OutputToken.text.inj ht
    · rwa [if_neg h]
    · rw [joinReturns_of_not_mem h]
      exact iff_of_true hspells fun hn => h hn.1

theorem renders_rewriteToken (b : LineBreaks) (token : OutputToken) :
    b.Renders token (b.rewriteToken token) := by
  cases token with
  | text s => exact renders_text b s
  | _ => exact ⟨fun _ => rfl, nofun, nofun⟩

/-- All tokens but texts are kept, in their order, and between them each text is spelled by lines
and breaks. -/
theorem rewrite_spells (b : LineBreaks) (tokens : List OutputToken) :
    ∃ parts, b.rewrite tokens = parts.flatten ∧ List.Forall₂ b.Renders tokens parts := by
  refine ⟨tokens.map b.rewriteToken, List.flatMap_def, ?_⟩
  rw [List.forall₂_map_right_iff, List.forall₂_same]
  exact fun token _ => renders_rewriteToken b token

example : LineBreaks.rewrite ⟨"br", []⟩ [.text "\r\na\r\r\n", .text "b\r", .text "\nc\r"] =
    [.markup "<br/>", .text "a\r", .markup "<br/>", .text "b\r", .markup "<br/>", .text "c"] := by
  decide +kernel

end LineBreaks

end DocTemplate
