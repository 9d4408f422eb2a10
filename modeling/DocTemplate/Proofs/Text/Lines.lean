import Mathlib.Algebra.Ring.Nat
import Mathlib.Data.List.DropRight
import Mathlib.Data.Prod.Lex
import Mathlib.Order.Monotone.Basic
import DocTemplate.Diagnostic
import DocTemplate.Proofs.Text.Slices

namespace DocTemplate

section

variable {starts : Array Nat} {offset lo hi count : Nat}

/-- The first `count` entries are those that do not lie behind the offset, and they rise. -/
structure Splits (starts : Array Nat) (offset count : Nat) : Prop where
  rising : ∀ i j, i < j → j < count → starts.getD i 0 < starts.getD j 0
  le_offset : ∀ i < count, starts.getD i 0 ≤ offset
  offset_lt : ∀ i, count ≤ i → i < starts.size → offset < starts.getD i 0

/-- The window of the search always has the end of the first entries in it or at one of its
ends. -/
theorem bisect_eq (h : Splits starts offset count) (hlo : lo ≤ count) (hhi : count ≤ hi)
    (hsize : hi ≤ starts.size) :
    bisect starts offset lo hi = .found (count - 1) ∧ 0 < count ∨
      bisect starts offset lo hi = .missing count := by
  fun_induction bisect starts offset lo hi with
  | case1 lo hi hlt mid hcmp ih =>
    have hmid : mid < count := by
      by_contra hge
      have := h.offset_lt mid (by omega) (by omega)
      rw [Nat.compare_eq_lt] at hcmp
      omega
    exact ih hmid hhi hsize
  | case2 lo hi hlt mid hcmp =>
    rw [Nat.compare_eq_eq] at hcmp
    have hmid : mid < count := by
      by_contra hge
      have := h.offset_lt mid (by omega) (by omega)
      omega
    have hlast : mid = count - 1 := by
      by_contra hne
      have hless := h.rising mid (count - 1) (by omega) (by omega)
      have hle := h.le_offset (count - 1) (by omega)
      omega
    exact .inl ⟨congrArg _ hlast, by omega⟩
  | case3 lo hi hlt mid hcmp ih =>
    have hmid : count ≤ mid := by
      by_contra hless
      have := h.le_offset mid (by omega)
      rw [Nat.compare_eq_gt] at hcmp
      omega
    exact ih hlo hmid (by omega)
  | case4 lo hi hge => exact .inr (congrArg _ (by omega))

end

theorem ordinal_eq_iff {index : Nat} (h : index ≤ Span.limit) :
    ordinal index = index + 1 ↔ index < Span.limit := by
  rw [ordinal, if_pos h, Span.wrap]
  unfold Span.limit at *
  omega

theorem indexOf_ordinal {index : Nat} (h : index ≤ Span.limit) :
    indexOf (ordinal index) = index := by
  rw [indexOf, ordinal, if_pos h, Span.wrap, Span.wrap]
  unfold Span.limit at *
  omega

theorem lineOf_append {before after : List Nat} {offset : Nat}
    (hsorted : before.Pairwise (· < ·)) (hbefore : ∀ start ∈ before, start ≤ offset)
    (hafter : ∀ start ∈ after, offset < start) :
    lineOf (before ++ after) offset = ordinal (before.length - 1) := by
  have hsplits : Splits (before ++ after).toArray offset before.length := by
    refine ⟨fun i j hij hj => ?_, fun i hi => ?_, fun i hi hsize => ?_⟩
    · have hlt := List.pairwise_iff_getElem.mp hsorted i j (by omega) hj hij
      simpa [List.getElem?_append_left, hj, hij.trans hj] using hlt
    · simpa [List.getElem?_append_left, hi] using hbefore _ (List.getElem_mem hi)
    · have hi' : i - before.length < after.length := by simp at hsize; omega
      simpa [List.getElem?_append_right hi, hi'] using hafter _ (List.getElem_mem hi')
  have hfits : before.length ≤ (before ++ after).length := by simp
  rw [lineOf]
  rcases bisect_eq hsplits (Nat.zero_le _) hfits le_rfl with ⟨h, -⟩ | h
  all_goals rw [h]

def startsFrom (offset : Nat) : List Char → List Nat
  | [] => []
  | c :: cs =>
    let next := offset + c.utf8Size
    if c = '\n' then next :: startsFrom next cs else startsFrom next cs

section

variable {offset start : Nat} {cs ds before after : List Char} {c : Char}

theorem startsFrom_append (offset : Nat) (cs ds : List Char) :
    startsFrom offset (cs ++ ds) =
      startsFrom offset cs ++ startsFrom (offset + byteLength cs) ds := by
  induction cs generalizing offset with
  | nil => rfl
  | cons c cs ih =>
    rw [List.cons_append, startsFrom, startsFrom, ih, byteLength, Nat.add_assoc]
    split <;> rfl

theorem length_startsFrom (offset : Nat) (cs : List Char) :
    (startsFrom offset cs).length = cs.count '\n' := by
  induction cs generalizing offset with
  | nil => rfl
  | cons c cs ih =>
    rw [startsFrom]
    split
    next h => rw [h, List.length_cons, ih, List.count_cons_self]
    next h => rw [ih, List.count_cons_of_ne h]

theorem bounds_of_mem_startsFrom (h : start ∈ startsFrom offset cs) :
    offset < start ∧ start ≤ offset + byteLength cs := by
  induction cs generalizing offset with
  | nil => cases h
  | cons c cs ih =>
    have hpos := c.utf8Size_pos
    have hrest (hmem : start ∈ startsFrom (offset + c.utf8Size) cs) :
        offset < start ∧ start ≤ offset + byteLength (c :: cs) := by
      have hbounds := ih hmem
      rw [byteLength]
      omega
    rw [startsFrom] at h
    split at h
    · rcases List.mem_cons.mp h with rfl | h
      · rw [byteLength]
        omega
      · exact hrest h
    · exact hrest h

theorem startsFrom_rising (offset : Nat) (cs : List Char) :
    (startsFrom offset cs).Pairwise (· < ·) := by
  induction cs generalizing offset with
  | nil => exact .nil
  | cons c cs ih =>
    rw [startsFrom]
    split
    · exact .cons (fun start h => (bounds_of_mem_startsFrom h).1) (ih _)
    · exact ih _

/-- No start of a line is cut off in a text whose offsets are all in reach. -/
theorem lineStarts_go (offset : Nat) (cs : List Char) (starts : List Nat)
    (h : offset + byteLength cs ≤ Span.limit) :
    lineStarts.go offset cs starts = starts.reverse ++ startsFrom offset cs := by
  induction cs generalizing offset starts with
  | nil => rw [lineStarts.go, startsFrom, List.append_nil]
  | cons c cs ih =>
    rw [byteLength, ← Nat.add_assoc] at h
    have hclamp : Span.clamp (offset + c.utf8Size) = offset + c.utf8Size :=
      Span.clamp_of_le (by omega)
    rw [lineStarts.go, startsFrom, hclamp, ih _ _ h]
    split
    · rw [List.reverse_cons, List.append_assoc, List.singleton_append]
    · rfl

def linesUpTo (before : List Char) : List Nat := 0 :: startsFrom 0 before

theorem linesUpTo_rising (before : List Char) : (linesUpTo before).Pairwise (· < ·) :=
  .cons (fun _ h => (bounds_of_mem_startsFrom h).1) (startsFrom_rising 0 before)

theorem length_linesUpTo (before : List Char) :
    (linesUpTo before).length = before.count '\n' + 1 := by
  rw [linesUpTo, List.length_cons, length_startsFrom]

theorem le_of_mem_linesUpTo (h : start ∈ linesUpTo before) : start ≤ byteLength before := by
  rcases List.mem_cons.mp h with rfl | h
  · exact Nat.zero_le _
  · have := (bounds_of_mem_startsFrom h).2
    omega

theorem lineStarts_eq {text : String} (hsplit : text.toList = before ++ after)
    (h : text.utf8ByteSize ≤ Span.limit) :
    lineStarts text = linesUpTo before ++ startsFrom (byteLength before) after := by
  have hlimit : 0 + byteLength text.toList ≤ Span.limit := by
    rwa [Nat.zero_add, byteLength_eq_utf8ByteSize, String.ofList_toList]
  rw [lineStarts, lineStarts_go _ _ _ hlimit, hsplit, startsFrom_append, Nat.zero_add]
  rfl

theorem byteLength_le_of_split {text : String} (hsplit : text.toList = before ++ after) :
    byteLength before ≤ text.utf8ByteSize := by
  rw [← String.ofList_toList (s := text), ← byteLength_eq_utf8ByteSize, hsplit, byteLength_append]
  exact Nat.le_add_right _ _

theorem length_le_of_split {text : String} (hsplit : text.toList = before ++ after) :
    before.length ≤ text.utf8ByteSize :=
  (length_le_byteLength before).trans (byteLength_le_of_split hsplit)

theorem lineOf_lineStarts {text : String} (hsplit : text.toList = before ++ after)
    (h : text.utf8ByteSize ≤ Span.limit) :
    lineOf (lineStarts text) (byteLength before) = ordinal (before.count '\n') := by
  have hline := lineOf_append (linesUpTo_rising before) (fun _ => le_of_mem_linesUpTo)
    fun start (hmem : start ∈ startsFrom (byteLength before) after) =>
      (bounds_of_mem_startsFrom hmem).1
  rw [lineStarts_eq hsplit h, hline, length_linesUpTo, Nat.add_sub_cancel]

theorem eq_newline_iff : c = '\n' ↔ c.val.toNat = 10 := by
  rw [← Char.val_inj, ← UInt32.toNat_inj]
  rfl

theorem count_encodeChar (c : Char) :
    (String.utf8EncodeChar c).count 10 = if c = '\n' then 1 else 0 := by
  have hc := eq_newline_iff (c := c)
  have hten {n : Nat} (h : n < 256) : 10 = UInt8.ofNat n ↔ n = 10 := by
    rw [eq_comm, ← UInt8.toNat_inj, UInt8.toNat_ofNat_of_lt' h]
    rfl
  have hmore {n : Nat} (hn : 128 ≤ n) (h : n < 256) : 10 ≠ UInt8.ofNat n := by
    rw [ne_eq, hten h]
    omega
  rw [String.utf8EncodeChar]
  generalize c.val.toNat = v at hc
  split
  next h =>
    rw [List.count_singleton]
    exact if_congr (by rw [beq_iff_eq, eq_comm, hten (by omega), hc]) rfl rfl
  next h =>
    have hne : ¬c = '\n' := by
      rw [hc]
      omega
    rw [if_neg hne, List.count_eq_zero]
    split
    · simp only [List.mem_cons, List.not_mem_nil, or_false, not_or]
      exact ⟨hmore (by omega) (by omega), hmore (by omega) (by omega)⟩
    split
    · simp only [List.mem_cons, List.not_mem_nil, or_false, not_or]
      exact ⟨hmore (by omega) (by omega), hmore (by omega) (by omega), hmore (by omega) (by omega)⟩
    · simp only [List.mem_cons, List.not_mem_nil, or_false, not_or]
      exact ⟨hmore (by omega) (by omega), hmore (by omega) (by omega), hmore (by omega) (by omega),
        hmore (by omega) (by omega)⟩

def bytes (text : String) : List UInt8 := text.toByteArray.data.toList

theorem length_encoded (cs : List Char) :
    (cs.flatMap String.utf8EncodeChar).length = byteLength cs := by
  induction cs with
  | nil => rfl
  | cons c cs ih =>
    rw [List.flatMap_cons, List.length_append, String.length_utf8EncodeChar, byteLength, ih]

theorem take_bytes {text : String} (hsplit : text.toList = before ++ after) :
    (bytes text).take (byteLength before) = before.flatMap String.utf8EncodeChar := by
  rw [bytes, ← String.ofList_toList (s := text), hsplit, String.toByteArray_ofList,
    List.utf8Encode, List.data_toByteArray, List.flatMap_append, ← length_encoded]
  exact List.take_left

theorem count_bytes {text : String} (hsplit : text.toList = before ++ after) :
    ((bytes text).take (byteLength before)).count 10 = before.count '\n' := by
  rw [take_bytes hsplit]
  clear hsplit
  induction before with
  | nil => rfl
  | cons c cs ih =>
    rw [List.flatMap_cons, List.count_append, ih, count_encodeChar, List.count_cons,
      Nat.add_comm]
    simp only [beq_iff_eq]

/-- What stands on the last line of a text. -/
def lastLine (cs : List Char) : List Char := cs.rtakeWhile (· ≠ '\n')

theorem lastLine_append_newline (cs : List Char) : lastLine (cs ++ ['\n']) = [] := by
  rw [lastLine, List.rtakeWhile_concat_neg _ _ _ (by simp)]

theorem lastLine_append_of_ne (h : c ≠ '\n') : lastLine (cs ++ [c]) = lastLine cs ++ [c] := by
  rw [lastLine, List.rtakeWhile_concat_pos _ _ _ (by simpa using h), lastLine]

theorem exists_lastStart (before : List Char) :
    ∃ head, before = head ++ lastLine before ∧
      (linesUpTo before)[before.count '\n']? = some (byteLength head) := by
  induction before using List.reverseRecOn with
  | nil => exact ⟨[], rfl, rfl⟩
  | append_singleton cs c ih =>
    have hstarts : linesUpTo (cs ++ [c]) = linesUpTo cs ++ startsFrom (byteLength cs) [c] := by
      rw [linesUpTo, startsFrom_append, Nat.zero_add]
      rfl
    by_cases hc : c = '\n'
    · subst hc
      refine ⟨cs ++ ['\n'], by rw [lastLine_append_newline, List.append_nil], ?_⟩
      rw [hstarts, List.count_append, List.count_singleton_self,
        List.getElem?_append_right (by rw [length_linesUpTo]), length_linesUpTo, Nat.sub_self,
        byteLength_append]
      rfl
    · obtain ⟨head, hhead, hstart⟩ := ih
      refine ⟨head, ?_, ?_⟩
      · rw [lastLine_append_of_ne hc, ← List.append_assoc, ← hhead]
      · rw [hstarts, startsFrom, if_neg hc, startsFrom, List.append_nil, List.count_append,
          List.count_cons_of_ne hc, List.count_nil, Nat.add_zero]
        exact hstart

/-- The line of an offset is told by the line feeds before it, and the column by the characters
since the last of them. -/
theorem linePosition_eq {text : String} (hsplit : text.toList = before ++ after)
    (h : text.utf8ByteSize ≤ Span.limit) :
    linePosition text (byteLength before) =
      (ordinal (before.count '\n'), ordinal (lastLine before).length) := by
  obtain ⟨head, hhead, hstart⟩ := exists_lastStart before
  have hcount : before.count '\n' ≤ Span.limit :=
    List.count_le_length.trans ((length_le_of_split hsplit).trans h)
  have hin : before.count '\n' < (linesUpTo before).length := by
    rw [length_linesUpTo]
    exact Nat.lt_succ_self _
  have hget : (lineStarts text)[before.count '\n']? = some (byteLength head) := by
    rw [lineStarts_eq hsplit h, List.getElem?_append_left hin, hstart]
  have hstop : min (byteLength before) text.utf8ByteSize = byteLength before :=
    Nat.min_eq_left (byteLength_le_of_split hsplit)
  have hslice : sliceBytes? text.toList (byteLength head) (byteLength before) =
      some (lastLine before) := by
    have hcut : sliceBytes? (head ++ lastLine before ++ after) (byteLength head)
        (byteLength head + byteLength (lastLine before)) = some (lastLine before) :=
      sliceBytes?_eq_some_iff.mpr rfl
    rwa [← byteLength_append, ← hhead, ← hsplit] at hcut
  rw [linePosition, lineOf_lineStarts hsplit h, indexOf_ordinal hcount, hget, Option.getD_some,
    hstop, hslice, Option.map_some, Option.getD_some]

/-- The numbers of the line and the column behind these characters can be told. -/
structure Countable (before : List Char) : Prop where
  line : before.count '\n' < Span.limit
  column : (lastLine before).length < Span.limit

theorem countable_of_lt (h : byteLength before < Span.limit) : Countable before := by
  have hlength : before.length < Span.limit := (length_le_byteLength before).trans_lt h
  exact ⟨List.count_le_length.trans_lt hlength,
    (List.rtakeWhile_suffix _ before).length_le.trans_lt hlength⟩

theorem linePosition_eq_iff {text : String} (hsplit : text.toList = before ++ after)
    (h : text.utf8ByteSize ≤ Span.limit) :
    linePosition text (byteLength before) =
      (before.count '\n' + 1, (lastLine before).length + 1) ↔ Countable before := by
  have hlength : before.length ≤ Span.limit := (length_le_of_split hsplit).trans h
  have hcolumn : (lastLine before).length ≤ Span.limit :=
    (List.rtakeWhile_suffix _ before).length_le.trans hlength
  rw [linePosition_eq hsplit h, Prod.mk.injEq, ordinal_eq_iff (List.count_le_length.trans hlength),
    ordinal_eq_iff hcolumn]
  exact ⟨fun ⟨hl, hc⟩ => ⟨hl, hc⟩, fun ⟨hl, hc⟩ => ⟨hl, hc⟩⟩

theorem lastLine_append {more : List Char} (h : '\n' ∉ more) :
    lastLine (before ++ more) = lastLine before ++ more := by
  have hmore : ∀ c ∈ more.reverse, decide (c ≠ '\n') = true := fun c hc =>
    decide_eq_true (ne_of_mem_of_not_mem (List.mem_reverse.mp hc) h)
  rw [lastLine, List.rtakeWhile, List.reverse_append, List.takeWhile_append_of_pos hmore,
    List.reverse_append, List.reverse_reverse]
  rfl

/-- Characters behind an offset move it to a later line or to a later column. -/
theorem position_lt {more : List Char} (before : List Char) (hne : more ≠ []) :
    toLex (before.count '\n' + 1, (lastLine before).length + 1) <
      toLex ((before ++ more).count '\n' + 1, (lastLine (before ++ more)).length + 1) := by
  rw [Prod.Lex.toLex_lt_toLex, List.count_append]
  by_cases h : '\n' ∈ more
  · have hcount := List.count_pos_iff.mpr h
    exact .inl (by dsimp only; omega)
  · have hlength := List.length_pos_iff.mpr hne
    rw [lastLine_append h, List.length_append, List.count_eq_zero.mpr h]
    exact .inr ⟨rfl, by dsimp only; omega⟩

/-- The offsets between two characters of a text, and at its ends, as far as lines and columns can
be counted up to them. -/
def boundaries (text : String) : Set Nat :=
  {offset | ∃ before, before <+: text.toList ∧ byteLength before = offset ∧ Countable before}

theorem strictMonoOn_linePosition {text : String} (h : text.utf8ByteSize ≤ Span.limit) :
    StrictMonoOn (fun offset => toLex (linePosition text offset)) (boundaries text) := by
  rintro _ ⟨before, hbefore, rfl, hc⟩ _ ⟨later, hlater, rfl, hc'⟩ hlt
  obtain ⟨more, hne, rfl⟩ := exists_append_of_byteLength_lt hbefore hlater hlt
  obtain ⟨after, hsplit⟩ := hbefore
  obtain ⟨after', hsplit'⟩ := hlater
  dsimp only
  rw [(linePosition_eq_iff hsplit.symm h).mpr hc, (linePosition_eq_iff hsplit'.symm h).mpr hc']
  exact position_lt before hne

/-- In a text of less than `2 ^ 32` bytes an offset between characters has the line after the line
feeds before it, and the column after the characters since the last of them, just when these
numbers are below `2 ^ 32`. They are so at all offsets but the last one that can be named. As far
as they are, positions rise with the offsets, and no two offsets share one. -/
theorem linePosition_exact {text : String} (h : text.utf8ByteSize < 2 ^ 32) :
    (∀ before, before <+: text.toList →
      (linePosition text (byteLength before) =
        (1 + ((bytes text).take (byteLength before)).count 10, 1 + (lastLine before).length) ↔
          Countable before) ∧
        (byteLength before < 2 ^ 32 - 1 → Countable before)) ∧
      StrictMonoOn (fun offset => toLex (linePosition text offset)) (boundaries text) ∧
      Set.InjOn (linePosition text) (boundaries text) := by
  have hlimit : text.utf8ByteSize ≤ Span.limit := Nat.le_of_lt_succ h
  have hmono := strictMonoOn_linePosition hlimit
  refine ⟨fun before hbefore => ⟨?_, countable_of_lt⟩, hmono, ?_⟩
  · obtain ⟨after, hsplit⟩ := hbefore
    rw [count_bytes hsplit.symm, Nat.add_comm, Nat.add_comm 1]
    exact linePosition_eq_iff hsplit.symm hlimit
  · intro o ho o' ho' heq
    exact hmono.injOn ho ho' (congrArg toLex heq)

/-- Two lines are empty, and a character of the first one takes two bytes. -/
theorem linePosition_exact_emptyLine :
    "é\n\nab".utf8ByteSize < 2 ^ 32 ∧ linePosition "é\n\nab" 5 = (3, 2) ∧
      toLex (linePosition "é\n\nab" 3) < toLex (linePosition "é\n\nab" 4) := by
  have hsize : "é\n\nab".utf8ByteSize < 2 ^ 32 := by decide
  obtain ⟨hexact, hmono, -⟩ := linePosition_exact hsize
  have hcount : ((bytes "é\n\nab").take 5).count 10 = 2 := by decide +kernel
  obtain ⟨hiff, hcountable⟩ := hexact ['é', '\n', '\n', 'a'] ⟨['b'], rfl⟩
  have hposition := hiff.mpr (hcountable (by decide))
  refine ⟨hsize, hposition.trans (Prod.ext (congrArg (1 + ·) hcount) rfl), ?_⟩
  exact hmono ⟨['é', '\n'], ⟨['\n', 'a', 'b'], rfl⟩, rfl, countable_of_lt (by decide)⟩
    ⟨['é', '\n', '\n'], ⟨['a', 'b'], rfl⟩, rfl, countable_of_lt (by decide)⟩ (by decide)

theorem byteLength_lineFeeds (n : Nat) : byteLength (List.replicate n '\n') = n := by
  induction n with
  | zero => rfl
  | succ n ih =>
    rw [List.replicate_succ, byteLength, ih, Nat.add_comm]
    rfl

theorem linePosition_lineFeeds {n : Nat} (h : n ≤ Span.limit) :
    (String.ofList (List.replicate n '\n')).utf8ByteSize = n ∧
      linePosition (String.ofList (List.replicate n '\n')) n = (ordinal n, 1) := by
  have hsize : (String.ofList (List.replicate n '\n')).utf8ByteSize = n := by
    rw [← byteLength_eq_utf8ByteSize, byteLength_lineFeeds]
  have hlast : lastLine (List.replicate n '\n') = [] := by
    cases n with
    | zero => rfl
    | succ n => rw [List.replicate_succ', lastLine_append_newline]
  have hposition := linePosition_eq (String.toList_ofList.trans (List.append_nil _).symm)
    (hsize.trans_le h)
  rw [byteLength_lineFeeds, List.count_replicate_self, hlast] at hposition
  exact ⟨hsize, hposition⟩

/-- The line behind `2 ^ 32 - 1` line feeds has no number below `2 ^ 32`. And an offset inside a
character has the position of another one. -/
theorem linePosition_inexact :
    (String.ofList (List.replicate (2 ^ 32 - 1) '\n')).utf8ByteSize = 2 ^ 32 - 1 ∧
      linePosition (String.ofList (List.replicate (2 ^ 32 - 1) '\n')) (2 ^ 32 - 1) = (0, 1) ∧
      linePosition "é" 1 = linePosition "é" 0 := by
  have hlimit : 2 ^ 32 - 1 ≤ Span.limit := Nat.le_refl _
  obtain ⟨hsize, hposition⟩ := linePosition_lineFeeds hlimit
  exact ⟨hsize, hposition, by decide +kernel⟩

end

end DocTemplate
