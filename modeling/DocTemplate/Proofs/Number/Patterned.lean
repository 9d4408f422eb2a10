import Mathlib.Data.List.TakeWhile
import DocTemplate.Number.Pattern
import DocTemplate.Proofs.Number.Nearest

namespace DocTemplate

section Digits

variable {n width : Nat}

theorem digitsValue_eq (cs : List Char) : digitsValue cs = Nat.ofDigitChars 10 cs 0 := rfl

theorem digitsValue_append (a b : List Char) :
    digitsValue (a ++ b) = digitsValue a * 10 ^ b.length + digitsValue b := by
  rw [digitsValue_eq, digitsValue_eq, digitsValue_eq, Nat.ofDigitChars_append,
    Nat.ofDigitChars_eq_ofDigitChars_zero, Nat.mul_comm]

theorem digitsValue_zeros (n : Nat) : digitsValue (List.replicate n '0') = 0 := by
  rw [digitsValue_eq, Nat.ofDigitChars_replicate_zero, Nat.mul_zero]

theorem digitsValue_zeros_append (n : Nat) (cs : List Char) :
    digitsValue (List.replicate n '0' ++ cs) = digitsValue cs := by
  rw [digitsValue_append, digitsValue_zeros, Nat.zero_mul, Nat.zero_add]

theorem digitsValue_append_zeros (n : Nat) (cs : List Char) :
    digitsValue (cs ++ List.replicate n '0') = digitsValue cs * 10 ^ n := by
  rw [digitsValue_append, digitsValue_zeros, List.length_replicate, Nat.add_zero]

theorem digitsValue_natDigits (n : Nat) : digitsValue (natDigits n) = n :=
  Nat.ofDigitChars_ten_toDigits

theorem digitsValue_padDigits (width n : Nat) : digitsValue (padDigits width n) = n :=
  (digitsValue_zeros_append _ _).trans (digitsValue_natDigits n)

theorem isDigit_of_mem_zeros {c : Char} (h : c ∈ List.replicate n '0') : c.isDigit := by
  rw [List.eq_of_mem_replicate h]
  rfl

theorem isDigit_of_mem_padDigits {c : Char} (h : c ∈ padDigits width n) : c.isDigit := by
  rcases List.mem_append.mp h with h | h
  · exact isDigit_of_mem_zeros h
  · exact Nat.isDigit_of_mem_toDigits (by decide) (by decide) h

theorem le_length_padDigits (width n : Nat) : width ≤ (padDigits width n).length := by
  rw [padDigits, List.length_append, List.length_replicate]
  omega

theorem zeros_append_dropWhile (cs : List Char) :
    ∃ n, cs = List.replicate n '0' ++ cs.dropWhile (· == '0') := by
  refine ⟨(cs.takeWhile (· == '0')).length, ?_⟩
  conv_lhs => rw [← List.takeWhile_append_dropWhile (p := (· == '0')) (l := cs)]
  congr 1
  refine List.eq_replicate_of_mem fun c hc => ?_
  have := List.mem_takeWhile_imp hc
  simpa using this

theorem head?_dropWhile_ne (cs : List Char) : (cs.dropWhile (· == '0')).head? ≠ some '0' := by
  intro h
  have := List.head?_dropWhile_not (· == '0') cs
  rw [h] at this
  simp at this

end Digits

namespace NumberPattern

section Fitting

variable {least : Nat} {digits : List Char} {c : Char}

theorem digitsValue_fitInteger (least : Nat) (digits : List Char) :
    digitsValue (fitInteger least digits) = digitsValue digits := by
  obtain ⟨n, hn⟩ := zeros_append_dropWhile digits
  conv_rhs => rw [hn]
  rw [fitInteger, digitsValue_zeros_append, digitsValue_zeros_append]

theorem isDigit_of_mem_fitInteger (h : ∀ c ∈ digits, c.isDigit) (hc : c ∈ fitInteger least digits) :
    c.isDigit := by
  rcases List.mem_append.mp hc with hc | hc
  · exact isDigit_of_mem_zeros hc
  · exact h c ((List.dropWhile_sublist _).subset hc)

theorem le_length_fitInteger (least : Nat) (digits : List Char) :
    least ≤ (fitInteger least digits).length := by
  rw [fitInteger, List.length_append, List.length_replicate]
  omega

theorem head?_fitInteger_ne (h : least < (fitInteger least digits).length) :
    (fitInteger least digits).head? ≠ some '0' := by
  have hlong : least - (digits.dropWhile (· == '0')).length = 0 := by
    rw [fitInteger, List.length_append, List.length_replicate] at h
    omega
  rw [fitInteger, hlong]
  exact head?_dropWhile_ne digits

theorem exists_trimFraction_append (least : Nat) (digits : List Char) :
    ∃ n, digits = trimFraction least digits ++ List.replicate n '0' := by
  obtain ⟨n, hn⟩ := zeros_append_dropWhile (digits.drop least).reverse
  refine ⟨n, ?_⟩
  calc digits = digits.take least ++ (digits.drop least).reverse.reverse := by
        rw [List.reverse_reverse, List.take_append_drop]
    _ = trimFraction least digits ++ List.replicate n '0' := by
        conv_lhs => rw [hn]
        rw [List.reverse_append, List.reverse_replicate, ← List.append_assoc, trimFraction]

theorem le_length_trimFraction (h : least ≤ digits.length) :
    least ≤ (trimFraction least digits).length := by
  rw [trimFraction, List.length_append, List.length_take]
  omega

theorem getLast?_trimFraction_ne (h : least < (trimFraction least digits).length) :
    (trimFraction least digits).getLast? ≠ some '0' := by
  have hkept : ((digits.drop least).reverse.dropWhile (· == '0')).reverse ≠ [] := by
    intro hnil
    rw [trimFraction, hnil, List.append_nil, List.length_take] at h
    omega
  rw [trimFraction, List.getLast?_append_of_ne_nil _ hkept, List.getLast?_reverse]
  exact head?_dropWhile_ne _

end Fitting

/-- Digits as they are written with a separator in front of every full group, counted from the
right, that other digits precede. -/
inductive Grouped (size : Nat) (separator : Char) : List Char → List Char → Prop
  | first {digits : List Char} (h : digits.length ≤ size) : Grouped size separator digits digits
  | next {front written tail : List Char} (hfront : front ≠ []) (htail : tail.length = size)
      (h : Grouped size separator front written) :
      Grouped size separator (front ++ tail) (written ++ separator :: tail)

section Groups

variable {size total start : Nat} {separator : Char} {digits front tail : List Char}

def separate (size total : Nat) (separator : Char) (start : Nat) (digits : List Char) : List Char :=
  ((digits.zipIdx start).map fun (c, i) =>
    if 0 < i ∧ (total - i) % size = 0 then [separator, c] else [c]).flatten

theorem separate_cons (c : Char) (digits : List Char) :
    separate size total separator start (c :: digits) =
      (if 0 < start ∧ (total - start) % size = 0 then [separator, c] else [c]) ++
        separate size total separator (start + 1) digits := rfl

theorem separate_append (a b : List Char) :
    separate size total separator start (a ++ b) =
      separate size total separator start a ++
        separate size total separator (start + a.length) b := by
  rw [separate, List.zipIdx_append, List.map_append, List.flatten_append]
  rfl

theorem separate_eq_self
    (h : ∀ i, start ≤ i → i < start + digits.length → ¬(0 < i ∧ (total - i) % size = 0)) :
    separate size total separator start digits = digits := by
  induction digits generalizing start with
  | nil => rfl
  | cons c digits ih =>
    rw [List.length_cons] at h
    have hrest : separate size total separator (start + 1) digits = digits :=
      ih fun i hi hlt => h i (by omega) (by omega)
    rw [separate_cons, hrest, if_neg (h start le_rfl (by omega))]
    rfl

theorem separate_add (h : start + digits.length ≤ total) :
    separate size (total + size) separator start digits =
      separate size total separator start digits := by
  induction digits generalizing start with
  | nil => rfl
  | cons c digits ih =>
    rw [List.length_cons] at h
    have hmod : (total + size - start) % size = (total - start) % size := by
      rw [Nat.sub_add_comm (by omega), Nat.add_mod_right]
    rw [separate_cons, separate_cons, ih (by omega), hmod]

theorem separate_group (hsize : 0 < size) (hfront : front ≠ []) (htail : tail.length = size) :
    separate size (front.length + size) separator front.length tail = separator :: tail := by
  have hpos : 0 < front.length := List.length_pos_iff.mpr hfront
  obtain ⟨c, rest, rfl⟩ := List.exists_cons_of_length_pos (htail ▸ hsize : 0 < tail.length)
  rw [List.length_cons] at htail
  have hrest : separate size (front.length + size) separator (front.length + 1) rest = rest :=
    separate_eq_self fun i hi hlt hsep => by
      have := Nat.mod_eq_of_lt (by omega : front.length + size - i < size)
      omega
  rw [separate_cons, hrest, if_pos ⟨hpos, by rw [Nat.add_sub_cancel_left, Nat.mod_self]⟩]
  rfl

theorem group_grouped (hsize : 0 < size) (separator : Char) (digits : List Char) :
    Grouped size separator digits (group (some size) separator digits) := by
  have hgroup : ∀ ds, group (some size) separator ds = separate size ds.length separator 0 ds :=
    fun _ => rfl
  -- the last group is taken off, and the digits in front of it are grouped by themselves
  induction hn : digits.length using Nat.strong_induction_on generalizing digits with
  | _ n ih =>
    rcases le_or_gt digits.length size with hshort | hlong
    · rw [hgroup, separate_eq_self]
      · exact .first hshort
      · intro i _ hlt hsep
        have := Nat.mod_eq_of_lt (by omega : digits.length - i < size)
        omega
    · set front := digits.take (digits.length - size) with hfrontdef
      set tail := digits.drop (digits.length - size) with htaildef
      have hdigits : digits = front ++ tail := (List.take_append_drop _ _).symm
      have hfrontlen : front.length = digits.length - size := by
        rw [hfrontdef, List.length_take]
        omega
      have htail : tail.length = size := by
        rw [htaildef, List.length_drop]
        omega
      have hfront : front ≠ [] := List.ne_nil_of_length_pos (by omega)
      have hwritten : group (some size) separator digits =
          group (some size) separator front ++ separator :: tail := by
        have hlen : digits.length = front.length + size := by omega
        rw [hgroup, hgroup, hlen, hdigits, separate_append, Nat.zero_add,
          separate_add (by omega), separate_group hsize hfront htail]
      rw [hwritten]
      conv => arg 3; rw [hdigits]
      exact .next hfront htail (ih _ (by omega) front rfl)

end Groups

variable {p : NumberPattern} {pattern : String}

theorem groupSize?_pos {places : List Char} {size : Nat} (h : groupSize? places = some size) :
    0 < size := by
  rw [groupSize?] at h
  split at h
  · cases h
  · rename_i hn
    rw [← Option.some.inj h]
    exact List.length_pos_iff.mpr fun hnil => hn (.inr hnil)

structure WellFormed (p : NumberPattern) : Prop where
  fraction : p.minFraction ≤ p.maxFraction
  grouping : ∀ size, p.grouping = some size → 0 < size

theorem wellFormed_of_parse (h : parse pattern = .ok p) : p.WellFormed := by
  rw [parse] at h
  dsimp only at h
  split at h
  · cases h
  split at h
  · cases h
  split at h
  · cases h
  · cases h
    exact ⟨List.count_le_length, fun _ => groupSize?_pos⟩

/-- The digits before and behind the point that a pattern has for `n / 10 ^ p.maxFraction`. -/
structure Shows (p : NumberPattern) (n : Nat) (integer fraction : List Char) : Prop where
  isDigit : ∀ c ∈ integer ++ fraction, c.isDigit
  value : (digitsValue (integer ++ fraction) / 10 ^ fraction.length : ℚ) = n / 10 ^ p.maxFraction
  fraction_ge : p.minFraction ≤ fraction.length
  fraction_le : fraction.length ≤ p.maxFraction
  trailing : p.minFraction < fraction.length → fraction.getLast? ≠ some '0'
  integer_ge : p.minInteger ≤ integer.length
  leading : p.minInteger < integer.length →
    integer.head? ≠ some '0' ∨ integer = ['0'] ∧ fraction = []
  nonempty : integer ≠ [] ∨ fraction ≠ []

def Spaces (p : NumberPattern) (separator : Char) (integer written : List Char) : Prop :=
  match p.grouping with
  | none => written = integer
  | some size => Grouped size separator integer written

theorem WellFormed.spaces (hp : p.WellFormed) (separator : Char) (integer : List Char) :
    p.Spaces separator integer (group p.grouping separator integer) := by
  cases hsize : p.grouping with
  | none => rw [Spaces, hsize]; rfl
  | some size => rw [Spaces, hsize]; exact group_grouped (hp.grouping size hsize) separator integer

theorem value_rounded_mul (p : NumberPattern) {v : Decimal} (hv : Decimal.scaleFits v.scale) :
    TieRule.even.Nearest (v.value * p.multiplier * 10 ^ p.maxFraction) (p.rounded v).unscaled := by
  rw [rounded, ← zpow_natCast (10 : ℚ)]
  split
  · rename_i hone
    rw [hone, Nat.cast_one, mul_one]
    exact v.nearest_roundTo _ _
  · have hmul : (v.mul (.ofInt p.multiplier)).value = v.value * p.multiplier := by
      rw [Decimal.value_mul (by rwa [Decimal.ofInt, add_zero]), Decimal.value_ofInt,
        Int.cast_natCast]
    rw [← hmul]
    exact Decimal.nearest_roundTo _ _ _

theorem digitsValue_fit (integer fraction : List Char) (least least' : Nat) :
    (digitsValue (fitInteger least integer ++ trimFraction least' fraction) /
      10 ^ (trimFraction least' fraction).length : ℚ) =
      digitsValue (integer ++ fraction) / 10 ^ fraction.length := by
  obtain ⟨n, hn⟩ := exists_trimFraction_append least' fraction
  set trimmed := trimFraction least' fraction
  have hvalue : digitsValue (integer ++ fraction) =
      digitsValue (fitInteger least integer ++ trimmed) * 10 ^ n := by
    rw [← digitsValue_append_zeros, List.append_assoc, ← hn, digitsValue_append,
      digitsValue_append, digitsValue_fitInteger]
  have hlength : fraction.length = trimmed.length + n := by
    conv_lhs => rw [hn]
    rw [List.length_append, List.length_replicate]
  rw [hvalue, hlength, pow_add, Nat.cast_mul, Nat.cast_pow, Nat.cast_ofNat,
    mul_div_mul_right _ _ (by positivity)]

def wholePlaces (p : NumberPattern) (n : Nat) : List Char :=
  (padDigits (p.maxFraction + 1) n).take ((padDigits (p.maxFraction + 1) n).length - p.maxFraction)

def fractionPlaces (p : NumberPattern) (n : Nat) : List Char :=
  (padDigits (p.maxFraction + 1) n).drop ((padDigits (p.maxFraction + 1) n).length - p.maxFraction)

def fractionDigits (p : NumberPattern) (n : Nat) : List Char :=
  trimFraction p.minFraction (p.fractionPlaces n)

def integerDigits (p : NumberPattern) (n : Nat) : List Char :=
  let integer := fitInteger p.minInteger (p.wholePlaces n)
  if integer = [] ∧ p.fractionDigits n = [] then ['0'] else integer

theorem places_append (p : NumberPattern) (n : Nat) :
    p.wholePlaces n ++ p.fractionPlaces n = padDigits (p.maxFraction + 1) n :=
  List.take_append_drop _ _

theorem length_fractionPlaces (p : NumberPattern) (n : Nat) :
    (p.fractionPlaces n).length = p.maxFraction := by
  have := le_length_padDigits (p.maxFraction + 1) n
  rw [fractionPlaces, List.length_drop]
  omega

theorem isDigit_of_mem_wholePlaces {n : Nat} {c : Char} (hc : c ∈ p.wholePlaces n) : c.isDigit :=
  isDigit_of_mem_padDigits (p.places_append n ▸ List.mem_append_left _ hc)

theorem isDigit_of_mem_fractionDigits {n : Nat} {c : Char} (hc : c ∈ p.fractionDigits n) :
    c.isDigit := by
  obtain ⟨k, hk⟩ := exists_trimFraction_append p.minFraction (p.fractionPlaces n)
  have hplaces : c ∈ p.fractionPlaces n := hk ▸ List.mem_append_left _ hc
  exact isDigit_of_mem_padDigits (p.places_append n ▸ List.mem_append_right _ hplaces)

theorem WellFormed.shows (hp : p.WellFormed) (n : Nat) :
    p.Shows n (p.integerDigits n) (p.fractionDigits n) := by
  have hfraction := p.length_fractionPlaces n
  have hvalue : (digitsValue (fitInteger p.minInteger (p.wholePlaces n) ++ p.fractionDigits n) /
      10 ^ (p.fractionDigits n).length : ℚ) = n / 10 ^ p.maxFraction := by
    rw [fractionDigits, digitsValue_fit, places_append, digitsValue_padDigits, hfraction]
  have htrimmed : (p.fractionDigits n).length ≤ p.maxFraction := by
    obtain ⟨k, hk⟩ := exists_trimFraction_append p.minFraction (p.fractionPlaces n)
    rw [← hfraction, hk, List.length_append]
    exact Nat.le_add_right _ _
  have hleast : p.minFraction ≤ (p.fractionDigits n).length :=
    le_length_trimFraction (hfraction ▸ hp.fraction)
  rw [integerDigits]
  split
  case isTrue hempty =>
    -- nothing would be written, so the number is zero and a single digit stands for it
    obtain ⟨hinteger, hnone⟩ := hempty
    rw [hinteger, hnone] at hvalue
    have hwidth := le_length_fitInteger p.minInteger (p.wholePlaces n)
    rw [hinteger] at hwidth
    rw [hnone] at hleast ⊢
    exact
      { isDigit := fun c hc => by rw [List.mem_singleton.mp hc]; rfl
        value := hvalue
        fraction_ge := hleast
        fraction_le := Nat.zero_le _
        trailing := fun h => absurd h (by simp)
        integer_ge := hwidth.trans (Nat.zero_le _)
        leading := fun _ => .inr ⟨rfl, rfl⟩
        nonempty := .inl (List.cons_ne_nil _ _) }
  case isFalse hsome =>
    exact
      { isDigit := fun c hc => by
          rcases List.mem_append.mp hc with hc | hc
          · exact isDigit_of_mem_fitInteger (fun _ => isDigit_of_mem_wholePlaces) hc
          · exact isDigit_of_mem_fractionDigits hc
        value := hvalue
        fraction_ge := hleast
        fraction_le := htrimmed
        trailing := getLast?_trimFraction_ne
        integer_ge := le_length_fitInteger _ _
        leading := fun h => .inl (head?_fitInteger_ne h)
        nonempty := not_and_or.mp hsome }

/-- A pattern writes the scaled number rounded to its places, halves to the even neighbour: a sign
when that is negative, the prefix, the grouped integer part, the fraction, if any, behind the
point, and the suffix. -/
theorem format_rounded (h : parse pattern = .ok p) {v : Decimal} (hv : Decimal.scaleFits v.scale)
    (symbols : NumberSymbols) :
    ∃ (n : ℤ) (integer written fraction : List Char),
      TieRule.even.Nearest (v.value * p.multiplier * 10 ^ p.maxFraction) n ∧
      p.Shows n.natAbs integer fraction ∧
      p.Spaces symbols.grouping integer written ∧
      p.format v symbols = String.ofList ((if n < 0 then ['-'] else []) ++ p.before ++ written ++
        (if fraction = [] then [] else symbols.decimal :: fraction) ++ p.after) := by
  have hp := wellFormed_of_parse h
  let n := (p.rounded v).unscaled
  exact ⟨n, p.integerDigits n.natAbs, _, p.fractionDigits n.natAbs, p.value_rounded_mul hv,
    hp.shows _, hp.spaces symbols.grouping _, rfl⟩

/-- The pattern `#,##0.00 'EUR'`. -/
def euros : NumberPattern := ⟨[], " EUR".toList, 1, 2, 2, some 3, 1⟩

theorem format_rounded_euros :
    parse "#,##0.00 'EUR'" = .ok euros ∧ Decimal.scaleFits 3 ∧
      ∃ (n : ℤ) (integer written fraction : List Char),
        TieRule.even.Nearest
          ((⟨-1234567895, 3⟩ : Decimal).value * euros.multiplier * 10 ^ euros.maxFraction) n ∧
        euros.Shows n.natAbs integer fraction ∧
        euros.Spaces ',' integer written ∧
        euros.format ⟨-1234567895, 3⟩ .standard =
          String.ofList ((if n < 0 then ['-'] else []) ++ euros.before ++ written ++
            (if fraction = [] then [] else '.' :: fraction) ++ euros.after) :=
  have hparse : parse "#,##0.00 'EUR'" = .ok euros := by decide +kernel
  have hscale : Decimal.scaleFits 3 := by decide
  ⟨hparse, hscale, format_rounded hparse (v := ⟨-1234567895, 3⟩) hscale .standard⟩

example : euros.format ⟨-1234567895, 3⟩ .standard = "-1,234,567.90 EUR" := by decide +kernel

end NumberPattern

end DocTemplate
