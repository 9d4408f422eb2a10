import DocTemplate.Group.Extraction
import DocTemplate.Text.Escape

namespace DocTemplate

def decode (cs : List Char) : List Char := (decodeFrom 0 0 cs).map DecodedChar.char

def hasBareAmpersand : List Char → Bool
  | [] => false
  | c :: cs => (c == '&' && (entity? cs).isNone) || hasBareAmpersand cs

section

variable {pos : Nat} {c d : Char} {cs xs rest : List Char}

theorem entity?_eq_some {more : Nat} (h : entity? cs = some (d, more)) :
    ∃ xs after, cs = xs ++ after ∧ more = xs.length ∧
      ∀ rest, entity? (xs ++ rest) = some (d, xs.length) := by
  unfold entity? at h
  extract_lets name at h
  split at h
  next => cases h
  next hname =>
    obtain ⟨hlen, hlimit⟩ := not_or.mp hname
    obtain ⟨e, he, hd⟩ := Option.map_eq_some_iff.mp h
    obtain ⟨rfl, rfl⟩ := Prod.mk.inj hd
    have hcs : cs = name ++ cs.dropWhile (· ≠ ';') := List.takeWhile_append_dropWhile.symm
    cases hafter : cs.dropWhile (· ≠ ';') with
    | nil =>
      rw [hafter, List.append_nil] at hcs
      exact absurd (congrArg List.length hcs.symm) hlen
    | cons c after =>
      have hc := List.head?_dropWhile_not (· ≠ ';') cs
      rw [hafter] at hc
      obtain rfl : c = ';' := by simpa using hc
      rw [hafter] at hcs
      refine ⟨name ++ [';'], after, by simpa using hcs, by simp, fun rest => ?_⟩
      have htake : (name ++ ';' :: rest).takeWhile (· ≠ ';') = name := by
        rw [List.takeWhile_append_of_pos fun a ha => List.all_eq_true.mp List.all_takeWhile a ha,
          List.takeWhile_cons_of_neg (by simp), List.append_nil]
      rw [List.append_assoc, List.singleton_append]
      simp only [entity?, htake, he]
      simp [hlimit]

theorem entity?_append (h : entity? xs = some (d, xs.length)) (rest : List Char) :
    entity? (xs ++ rest) = some (d, xs.length) := by
  obtain ⟨ys, after, hys, hlen, hrest⟩ := entity?_eq_some h
  obtain rfl : after = [] := by
    have hl := congrArg List.length hys
    rw [List.length_append] at hl
    exact List.length_eq_zero_iff.mp (by omega)
  rw [List.append_nil] at hys
  rw [hys, hrest]

theorem entity?_eq_none_of_append (h : entity? (xs ++ rest) = none) : entity? xs = none := by
  rw [Option.eq_none_iff_forall_ne_some]
  intro found hf
  obtain ⟨ys, after, rfl, -, hrest⟩ := entity?_eq_some hf
  rw [List.append_assoc, hrest] at h
  cases h

theorem decodeFrom_skip (xs : List Char) :
    decodeFrom pos xs.length (xs ++ rest) = decodeFrom (pos + byteLength xs) 0 rest := by
  induction xs generalizing pos with
  | nil => rfl
  | cons x xs ih =>
    rw [List.cons_append, List.length_cons, decodeFrom, ih, byteLength, Nat.add_assoc]

theorem decodeFrom_char (h : c = '&' → entity? cs = none) :
    decodeFrom pos 0 (c :: cs) = ⟨c, [c], pos⟩ :: decodeFrom (pos + byteLength [c]) 0 cs := by
  rw [decodeFrom]
  split
  next d more he =>
    split at he
    next hc =>
      rw [h hc] at he
      cases he
    next => cases he
  next => rfl

theorem decodeFrom_entity (h : ∀ after, entity? (xs ++ after) = some (d, xs.length)) :
    decodeFrom pos 0 ('&' :: xs ++ rest) =
      ⟨d, '&' :: xs, pos⟩ :: decodeFrom (pos + byteLength ('&' :: xs)) 0 rest := by
  rw [List.cons_append, decodeFrom, if_pos rfl, h]
  simp only [decodeFrom_skip, List.take_left, byteLength, Nat.add_assoc]

/-- Induction along a text as the decoder reads it: a character at a time, or an entity. -/
@[elab_as_elim]
theorem decode_induction {motive : List Char → Prop} (nil : motive [])
    (char : ∀ c cs, (c = '&' → entity? cs = none) → motive cs → motive (c :: cs))
    (entity : ∀ d xs rest, (∀ after, entity? (xs ++ after) = some (d, xs.length)) →
      motive rest → motive ('&' :: xs ++ rest)) (cs : List Char) : motive cs := by
  induction hl : cs.length using Nat.strongRecOn generalizing cs with
  | _ n ih =>
    subst hl
    cases cs with
    | nil => exact nil
    | cons c cs =>
      by_cases hc : c = '&'
      · subst hc
        cases he : entity? cs with
        | none => exact char _ cs (fun _ => he) (ih cs.length (by simp) cs rfl)
        | some found =>
          obtain ⟨xs, after, rfl, -, hrest⟩ := entity?_eq_some he
          exact entity found.1 xs after hrest (ih after.length (by grind) after rfl)
      · exact char c cs (fun h => absurd h hc) (ih cs.length (by simp) cs rfl)

theorem map_char_decodeFrom (pos origin : Nat) : (decodeFrom pos 0 cs).map DecodedChar.char =
    (decodeFrom origin 0 cs).map DecodedChar.char := by
  induction cs using decode_induction generalizing pos origin with
  | nil => rfl
  | char c cs h ih =>
    rw [decodeFrom_char h, decodeFrom_char h, List.map_cons, List.map_cons, ih _ (origin + _)]
  | entity d xs rest h ih =>
    rw [decodeFrom_entity h, decodeFrom_entity h, List.map_cons, List.map_cons, ih _ (origin + _)]

theorem decode_char (h : c = '&' → entity? cs = none) : decode (c :: cs) = c :: decode cs := by
  rw [decode, decodeFrom_char h, List.map_cons, map_char_decodeFrom _ 0, decode]

theorem decode_entity (h : ∀ after, entity? (xs ++ after) = some (d, xs.length)) :
    decode ('&' :: xs ++ rest) = d :: decode rest := by
  rw [decode, decodeFrom_entity h, List.map_cons, map_char_decodeFrom _ 0, decode]

theorem decodeFrom_source (pos : Nat) (cs : List Char) :
    (decodeFrom pos 0 cs).flatMap DecodedChar.source = cs := by
  induction cs using decode_induction generalizing pos with
  | nil => rfl
  | char c cs h ih => rw [decodeFrom_char h, List.flatMap_cons, ih, List.singleton_append]
  | entity d xs rest h ih => rw [decodeFrom_entity h, List.flatMap_cons, ih]

theorem stop_decodeFrom_cons (d : DecodedChar) (h : d.start + byteLength d.source = pos) :
    (d :: decodeFrom pos 0 cs).getLast?.map (fun c => c.start + byteLength c.source) =
      some (pos + byteLength cs) := by
  induction cs using decode_induction generalizing pos d with
  | nil => simp [decodeFrom, byteLength, h]
  | char c cs hc ih =>
    rw [decodeFrom_char hc, List.getLast?_cons_cons, ih _ rfl]
    simp [byteLength, Nat.add_assoc]
  | entity e xs rest hx ih =>
    rw [decodeFrom_entity hx, List.getLast?_cons_cons, ih _ rfl, byteLength_append, Nat.add_assoc]

theorem stop_decodeFrom (h : cs ≠ []) :
    ((decodeFrom pos 0 cs).getLast?.map fun c => c.start + byteLength c.source).getD 0 =
      pos + byteLength cs := by
  cases cs using decode_induction with
  | nil => exact absurd rfl h
  | char c cs hc =>
    rw [decodeFrom_char hc, stop_decodeFrom_cons _ rfl]
    simp [byteLength, Nat.add_assoc]
  | entity d xs rest hx =>
    rw [decodeFrom_entity hx, stop_decodeFrom_cons _ rfl, byteLength_append, ← Nat.add_assoc]
    rfl

theorem ne_nil_of_decodeFrom {d : DecodedChar} {ds : List DecodedChar}
    (h : d :: ds = decodeFrom pos 0 cs) : cs ≠ [] := by
  rintro rfl
  cases h

theorem length_lt_of_decodeFrom {d : DecodedChar} {ds : List DecodedChar}
    (h : d :: ds = decodeFrom pos 0 cs) : rest.length < (cs ++ rest).length := by
  simpa [List.length_pos_iff] using ne_nil_of_decodeFrom h

theorem decodeFrom_eq_singleton {d : DecodedChar} (h : [d] = decodeFrom pos 0 cs) :
    d.source = cs ∧ d.start = pos := by
  constructor
  · rw [← decodeFrom_source pos cs, ← h]
    simp
  · cases cs using decode_induction with
    | nil => cases h
    | char c cs hc =>
      rw [decodeFrom_char hc] at h
      rw [(List.cons.inj h).1]
    | entity e xs rest hx =>
      rw [decodeFrom_entity hx] at h
      rw [(List.cons.inj h).1]

theorem decodeFrom_eq_append {before after : List DecodedChar}
    (h : decodeFrom pos 0 cs = before ++ after) :
    ∃ xs ys, cs = xs ++ ys ∧ before = decodeFrom pos 0 xs ∧
      after = decodeFrom (pos + byteLength xs) 0 ys := by
  induction cs using decode_induction generalizing pos before with
  | nil =>
    obtain ⟨rfl, rfl⟩ := List.append_eq_nil_iff.mp h.symm
    exact ⟨[], [], rfl, rfl, rfl⟩
  | char c cs hc ih =>
    cases before with
    | nil => exact ⟨[], c :: cs, rfl, rfl, h.symm⟩
    | cons first before =>
      rw [decodeFrom_char hc] at h
      obtain ⟨rfl, htail⟩ := List.cons.inj h
      obtain ⟨xs, ys, rfl, rfl, rfl⟩ := ih htail
      refine ⟨c :: xs, ys, rfl, ?_, ?_⟩
      · rw [decodeFrom_char fun he => entity?_eq_none_of_append (hc he)]
      · rw [byteLength, byteLength, byteLength, Nat.add_zero, Nat.add_assoc]
  | entity d xs rest hx ih =>
    cases before with
    | nil => exact ⟨[], '&' :: xs ++ rest, rfl, rfl, h.symm⟩
    | cons first before =>
      rw [decodeFrom_entity hx] at h
      obtain ⟨rfl, htail⟩ := List.cons.inj h
      obtain ⟨ys, zs, rfl, rfl, rfl⟩ := ih htail
      refine ⟨'&' :: xs ++ ys, zs, by simp, ?_, ?_⟩
      · rw [decodeFrom_entity hx]
      · rw [byteLength_append, Nat.add_assoc]

theorem decodeFrom_eq_cons {first : DecodedChar} {after : List DecodedChar}
    (h : decodeFrom pos 0 cs = first :: after) :
    ∃ xs ys, cs = xs ++ ys ∧ [first] = decodeFrom pos 0 xs ∧
      after = decodeFrom (pos + byteLength xs) 0 ys :=
  decodeFrom_eq_append h

end

section

variable {c : Char} {cs ds : List Char}

theorem hasBareAmpersand_cons : hasBareAmpersand (c :: cs) = false ↔
    (c = '&' → entity? cs ≠ none) ∧ hasBareAmpersand cs = false := by
  simp only [hasBareAmpersand, Bool.or_eq_false_iff, Bool.and_eq_false_iff, beq_eq_false_iff_ne,
    Option.isNone_eq_false_iff, Option.isSome_iff_ne_none, ne_eq, ← Decidable.imp_iff_not_or]

theorem hasBareAmpersand_of_append (h : hasBareAmpersand (cs ++ ds) = false) :
    hasBareAmpersand ds = false := by
  induction cs with
  | nil => exact h
  | cons c cs ih => exact ih (hasBareAmpersand_cons.mp h).2

theorem hasBareAmpersand_append (hc : hasBareAmpersand cs = false)
    (hd : hasBareAmpersand ds = false) : hasBareAmpersand (cs ++ ds) = false := by
  induction cs with
  | nil => exact hd
  | cons c cs ih =>
    obtain ⟨he, hc⟩ := hasBareAmpersand_cons.mp hc
    refine hasBareAmpersand_cons.mpr ⟨fun h => ?_, ih hc⟩
    obtain ⟨found, hf⟩ := Option.ne_none_iff_exists'.mp (he h)
    obtain ⟨xs, after, rfl, -, hrest⟩ := entity?_eq_some hf
    rw [List.append_eq, List.append_assoc, hrest]
    simp

/-- A text without bare ampersands stands for the same characters whatever follows it. -/
theorem decode_append (h : hasBareAmpersand cs = false) :
    decode (cs ++ ds) = decode cs ++ decode ds := by
  induction cs using decode_induction with
  | nil => rfl
  | char c cs hn ih =>
    obtain ⟨he, hcs⟩ := hasBareAmpersand_cons.mp h
    have hc : c ≠ '&' := fun hc => he hc (hn hc)
    rw [List.cons_append, decode_char fun h => absurd h hc, decode_char hn, ih hcs,
      List.cons_append]
  | entity d xs rest hx ih =>
    rw [List.append_assoc, decode_entity hx, decode_entity hx, ih (hasBareAmpersand_of_append h),
      List.cons_append]

theorem escapeChar_cases (c : Char) :
    (∃ xs, escapeChar c = '&' :: xs ∧ entity? xs = some (c, xs.length)) ∨
      escapeChar c = [c] ∧ c ≠ '&' := by
  unfold escapeChar
  split
  case h_6 hamp _ _ _ _ => exact .inr ⟨rfl, hamp⟩
  all_goals exact .inl ⟨_, rfl, by decide⟩

theorem decode_escapeChar (c : Char) (cs : List Char) :
    decode (escapeChar c ++ cs) = c :: decode cs := by
  rcases escapeChar_cases c with ⟨xs, hx, he⟩ | ⟨hx, hc⟩
  · rw [hx, decode_entity (entity?_append he)]
  · rw [hx, List.singleton_append, decode_char fun h => absurd h hc]

/-- Decoding takes escaping back. -/
theorem decode_escape (cs : List Char) : decode (escape cs) = cs := by
  induction cs with
  | nil => rfl
  | cons c cs ih => rw [escape, List.flatMap_cons, decode_escapeChar, ← escape, ih]

theorem hasBareAmpersand_escapeChar (c : Char) : hasBareAmpersand (escapeChar c) = false := by
  unfold escapeChar
  split
  case h_6 hamp _ _ _ _ => exact hasBareAmpersand_cons.mpr ⟨fun h => absurd h hamp, rfl⟩
  all_goals decide

theorem hasBareAmpersand_escape (cs : List Char) : hasBareAmpersand (escape cs) = false := by
  induction cs with
  | nil => rfl
  | cons c cs ih => exact hasBareAmpersand_append (hasBareAmpersand_escapeChar c) ih

theorem not_mem_escapeChar (c : Char) : '<' ∉ escapeChar c := by
  unfold escapeChar
  split
  case h_6 _ hlt _ _ _ => simpa using Ne.symm hlt
  all_goals decide

theorem not_mem_escape (cs : List Char) : '<' ∉ escape cs := by
  intro h
  obtain ⟨c, -, hc⟩ := List.mem_flatMap.mp h
  exact not_mem_escapeChar c hc

end

end DocTemplate
