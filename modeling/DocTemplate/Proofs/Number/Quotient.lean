import DocTemplate.Proofs.Number.Nearest
import DocTemplate.Run.Operator

namespace DocTemplate

namespace Decimal

variable {num den q rem room fuel : Nat}

theorem le_shiftToReach (h : den ≤ num * 10 ^ fuel) :
    den ≤ num * 10 ^ shiftToReach num den fuel := by
  induction fuel generalizing num with
  | zero => exact h
  | succ fuel ih =>
    rw [shiftToReach]
    split
    · rwa [pow_zero, Nat.mul_one]
    · rw [pow_succ', ← Nat.mul_assoc] at h ⊢
      exact ih h

theorem shiftToReach_le : shiftToReach num den fuel ≤ fuel := by
  induction fuel generalizing num with
  | zero => exact le_rfl
  | succ fuel ih =>
    rw [shiftToReach]
    split
    · exact Nat.zero_le _
    · exact Nat.succ_le_succ ih

/-- Digits appended to a quotient and the remainder left, which is not zero only when all the room
is used up. -/
structure Expands (den room q rem : Nat) (result : Nat × Nat × Nat) : Prop where
  value : result.1 * (10 * den) + result.2.1 = (q * (10 * den) + rem) * 10 ^ result.2.2
  remainder : result.2.1 < 10 * den
  added_le : result.2.2 ≤ room
  full : result.2.1 ≠ 0 → result.2.2 = room

theorem longDivision_step (den q rem : Nat) :
    (q * 10 + rem / den) * (10 * den) + rem % den * 10 = (q * (10 * den) + rem) * 10 :=
  calc (q * 10 + rem / den) * (10 * den) + rem % den * 10
      = (q * (10 * den) + (den * (rem / den) + rem % den)) * 10 := by ring
    _ = (q * (10 * den) + rem) * 10 := by rw [Nat.div_add_mod]

theorem longDivision_expands (hden : 0 < den) (h : rem < 10 * den) :
    Expands den room q rem (longDivision den room q rem) := by
  induction room generalizing q rem with
  | zero => exact ⟨by rw [longDivision, pow_zero, Nat.mul_one], h, le_rfl, fun _ => rfl⟩
  | succ room ih =>
    rw [longDivision]
    split
    case isTrue hzero =>
      exact ⟨by rw [pow_zero, Nat.mul_one], h, Nat.zero_le _, fun hne => absurd hzero hne⟩
    case isFalse =>
      have hmod := Nat.mod_lt rem hden
      have hstep : Expands den room (q * 10 + rem / den) (rem % den * 10) _ := ih (by omega)
      refine ⟨?_, hstep.remainder, Nat.succ_le_succ hstep.added_le, fun hne => ?_⟩
      · rw [hstep.value, longDivision_step, Nat.mul_assoc, ← pow_succ']
      · exact congrArg Nat.succ (hstep.full hne)

/-- The integer nearest to a quotient at some place behind the point, which is exact or has all the
significant digits. -/
structure Quotes (num den : Nat) (result : Nat × Nat) : Prop where
  nearest : TieRule.away.Nearest (num / den * 10 ^ result.2) result.1
  digits : (result.1 : ℚ) ≠ num / den * 10 ^ result.2 →
    10 ^ (quotientDigits - 1) ≤ (num / den * 10 ^ result.2 : ℚ)
  places_le : result.2 ≤ (natDigits den).length + quotientDigits

theorem nearest_nextDigit (hden : 0 < den) (q : Nat) (h : rem < 10 * den) :
    TieRule.away.Nearest (q + rem / (10 * den : Nat))
      (if 5 ≤ rem / den then q + 1 else q : Nat) := by
  have hpos : (0 : ℚ) < (10 * den : Nat) := mod_cast (by omega : 0 < 10 * den)
  have hhalf : 5 ≤ rem / den ↔ 1 / 2 ≤ (rem / (10 * den : Nat) : ℚ) := by
    rw [Nat.le_div_iff_mul_le hden, div_le_div_iff₀ two_pos hpos]
    norm_cast
    omega
  have hpart : (0 : ℚ) ≤ rem / (10 * den : Nat) := by positivity
  have hnearest := TieRule.nearest_add_part .away q hpart
    (by rw [div_lt_one hpos]; exact_mod_cast h)
  simpa only [hhalf, le_iff_lt_or_eq, true_or, and_true, eq_comm] using hnearest

theorem quotient_add_rest (num : Nat) (hden : 0 < den) :
    ((num / den : Nat) + (num % den * 10 : Nat) / (10 * den : Nat) : ℚ) = num / den := by
  rw [Nat.mul_comm 10 den, Nat.cast_mul, Nat.cast_mul, mul_div_mul_right _ _ (by norm_num),
    TieRule.quotient_add_part num hden]

theorem Expands.exact {added q' rem' : Nat} (hden : 0 < den)
    (h : Expands den room q rem (q', rem', added)) :
    (q + rem / (10 * den : Nat) : ℚ) * 10 ^ added = q' + rem' / (10 * den : Nat) := by
  have hpos : ((10 * den : Nat) : ℚ) ≠ 0 := mod_cast (by omega : 10 * den ≠ 0)
  have hvalue : (q' * (10 * den : Nat) + rem' : ℚ) = (q * (10 * den : Nat) + rem) * 10 ^ added :=
    mod_cast h.value
  rw [add_div' _ _ _ hpos, add_div' _ _ _ hpos, div_mul_eq_mul_div, hvalue]

theorem Expands.le_quotient {added q' rem' : Nat}
    (h : Expands den room q rem (q', rem', added)) : q * 10 ^ added ≤ q' := by
  have hvalue : q' * (10 * den) + rem' = (q * (10 * den) + rem) * 10 ^ added := h.value
  have hlt : rem' < 10 * den := h.remainder
  by_contra hgt
  have hsucc : (q' + 1) * (10 * den) ≤ q * 10 ^ added * (10 * den) :=
    Nat.mul_le_mul_right _ (not_le.mp hgt)
  have : q * 10 ^ added * (10 * den) ≤ (q * (10 * den) + rem) * 10 ^ added := by
    rw [Nat.mul_right_comm]
    exact Nat.mul_le_mul_right _ (Nat.le_add_right _ _)
  rw [Nat.add_mul] at hsucc
  omega

theorem Expands.digits {added q' rem' : Nat} (hq : 0 < q) (hrem : rem' ≠ 0)
    (h : Expands den (quotientDigits - (natDigits q).length) q rem (q', rem', added)) :
    10 ^ (quotientDigits - 1) ≤ q' := by
  have hadded : added = quotientDigits - (natDigits q).length := h.full hrem
  calc 10 ^ (quotientDigits - 1) ≤ 10 ^ ((natDigits q).length - 1 + added) :=
        Nat.pow_le_pow_right (by decide) (by omega)
    _ = 10 ^ ((natDigits q).length - 1) * 10 ^ added := pow_add _ _ _
    _ ≤ q * 10 ^ added := Nat.mul_le_mul_right _ (pow_le_of_natDigits hq)
    _ ≤ q' := h.le_quotient

theorem divideNat_quotes (hnum : 0 < num) (hden : 0 < den) :
    Quotes num den (divideNat num den) := by
  set shift := shiftToReach num den (natDigits den).length with hshift
  set shifted := num * Nat.pow 10 shift with hshifted
  set room := quotientDigits - (natDigits (shifted / den)).length with hroom
  have hreach : 0 < shifted / den := by
    have hlt := (lt_pow_natDigits den).le.trans (Nat.le_mul_of_pos_left _ hnum)
    exact Nat.div_pos (le_shiftToReach hlt) hden
  have hmod := Nat.mod_lt shifted hden
  have hloop : Expands den room (shifted / den) (shifted % den * 10) _ :=
    longDivision_expands hden (by omega)
  rcases hresult : longDivision den room (shifted / den) (shifted % den * 10) with ⟨q, rem, added⟩
  rw [hresult] at hloop
  have hdivide : divideNat num den = (if 5 ≤ rem / den then q + 1 else q, shift + added) := by
    simp only [divideNat, ← hshift, ← hshifted, ← hroom, hresult]
  have hexact : (num / den * 10 ^ (shift + added) : ℚ) = q + rem / (10 * den : Nat) :=
    calc (num / den * 10 ^ (shift + added) : ℚ)
        = (shifted : ℚ) / den * 10 ^ added := by
          rw [hshifted, Nat.pow_eq, pow_add]
          push_cast
          ring
      _ = ((shifted / den : Nat) + (shifted % den * 10 : Nat) / (10 * den : Nat)) * 10 ^ added := by
          rw [quotient_add_rest shifted hden]
      _ = q + rem / (10 * den : Nat) := hloop.exact hden
  rw [hdivide]
  refine ⟨hexact ▸ nearest_nextDigit hden q hloop.remainder, fun hne => ?_, ?_⟩
  · have hrem : rem ≠ 0 := by
      rintro rfl
      refine hne ?_
      rw [hexact, Nat.zero_div, if_neg (by decide)]
      simp
    have hdigits : (10 ^ (quotientDigits - 1) : ℚ) ≤ q := mod_cast hloop.digits hreach hrem
    have hrest : (0 : ℚ) ≤ rem / (10 * den : Nat) := by positivity
    rw [hexact]
    linarith
  · have hadded : added ≤ room := hloop.added_le
    have hshiftle : shift ≤ (natDigits den).length := shiftToReach_le
    dsimp only
    omega

variable {a b d : Decimal} {x : ℚ}

/-- A number rounded where its digits run out: it is exact or has all the significant digits. -/
structure Approximates (d : Decimal) (x : ℚ) : Prop where
  nearest : TieRule.away.Nearest (x * 10 ^ d.scale) d.unscaled
  digits : d.value ≠ x → 10 ^ (quotientDigits - 1) ≤ |x * 10 ^ d.scale|

theorem value_mul_scale (d : Decimal) : d.value * 10 ^ d.scale = d.unscaled := by
  rw [value, mul_assoc, ← zpow_add₀ (by norm_num), neg_add_cancel, zpow_zero, mul_one]

theorem approximates_of_eq (h : d.value = x) : d.Approximates x :=
  ⟨.of_eq (by rw [← h, value_mul_scale]), fun hne => absurd h hne⟩

structure QuotientFits (a b : Decimal) : Prop where
  least : scaleFits (a.scale - b.scale)
  greatest : scaleFits (a.scale - b.scale + ((b.digitCount + quotientDigits : Nat) : Int))

theorem QuotientFits.add {n : Nat} (h : QuotientFits a b) (hn : n ≤ b.digitCount + quotientDigits) :
    scaleFits (a.scale - b.scale + n) := by
  have hleast := h.least
  have hgreatest := h.greatest
  rw [scaleFits, Bool.and_eq_true, decide_eq_true_iff, decide_eq_true_iff] at *
  omega

theorem sign_eq_or {n : ℤ} (h : n ≠ 0) : n.sign = 1 ∨ n.sign = -1 := by
  rcases lt_or_gt_of_ne h with h | h
  · exact .inr (Int.sign_eq_neg_one_of_neg h)
  · exact .inl (Int.sign_eq_one_of_pos h)

theorem div_eq_sign_mul (m : ℤ) {n : ℤ} (hn : n ≠ 0) :
    (m / n : ℚ) = (m.sign * n.sign : ℤ) * (m.natAbs / n.natAbs) := by
  have hcast : ∀ k : ℤ, (k : ℚ) = k.sign * k.natAbs := fun k => by
    rw [← Int.cast_natCast k.natAbs, ← Int.cast_mul, Int.sign_mul_natAbs]
  rw [hcast m, hcast n]
  rcases sign_eq_or hn with h | h <;> rw [h] <;> push_cast <;> ring

theorem value_div (a b : Decimal) :
    a.value / b.value = a.unscaled / b.unscaled * 10 ^ (-(a.scale - b.scale)) := by
  rw [value, value, mul_div_mul_comm, ← zpow_sub₀ (by norm_num)]
  congr 2
  ring

theorem Quotes.approximates {shift : Nat} (ha : a.unscaled ≠ 0) (hb : b.unscaled ≠ 0)
    (h : Quotes a.unscaled.natAbs b.unscaled.natAbs (q, shift)) :
    Approximates ⟨a.unscaled.sign * b.unscaled.sign * q, a.scale - b.scale + shift⟩
      (a.value / b.value) := by
  set sign := a.unscaled.sign * b.unscaled.sign with hsign
  obtain ⟨hnearest, hdigits, -⟩ := h
  dsimp only at hnearest hdigits
  set magnitude := (a.unscaled.natAbs / b.unscaled.natAbs * 10 ^ shift : ℚ) with hmagnitude
  have hpositive : 0 ≤ magnitude := by positivity
  have hscaled : a.value / b.value * 10 ^ (a.scale - b.scale + shift) = sign * magnitude := by
    rw [value_div, mul_assoc, ← zpow_add₀ (by norm_num), neg_add_cancel_left, zpow_natCast,
      div_eq_sign_mul _ hb, mul_assoc]
  have hunit : sign = 1 ∨ sign = -1 := by
    rcases sign_eq_or ha with h | h <;> rcases sign_eq_or hb with h' | h' <;>
      rw [hsign, h, h'] <;> decide
  refine ⟨?_, fun hne => ?_⟩
  · rw [hscaled]
    rcases hunit with h | h <;> rw [h]
    · simpa using hnearest
    · simpa using hnearest.neg
  · have hinexact : (q : ℚ) ≠ magnitude := fun hq => hne <| by
      rw [value, ← mul_right_cancel_iff_of_pos
        (by positivity : (0 : ℚ) < 10 ^ (a.scale - b.scale + shift)), hscaled, ← hq,
        mul_assoc, ← zpow_add₀ (by norm_num), neg_add_cancel, zpow_zero, mul_one]
      push_cast
      rfl
    rw [hscaled]
    rcases hunit with h | h <;> rw [h] <;> simpa [abs_of_nonneg hpositive] using hdigits hinexact

theorem quotient_approximates (hb : b.unscaled ≠ 0) (hfits : QuotientFits a b) :
    (a.quotient b).Approximates (a.value / b.value) := by
  rw [quotient]
  split
  case isTrue h =>
    refine approximates_of_eq ?_
    rcases Bool.or_eq_true _ _ ▸ h with ha | hone
    · rw [value_eq_zero_iff.mpr (isZero_iff.mp ha), zero_div]
    · rw [value_of_isOne hone, div_one]
  split
  case isTrue h =>
    refine approximates_of_eq ?_
    have hb' : (b.unscaled : ℚ) ≠ 0 := mod_cast hb
    rw [value, wrapScale_eq hfits.least, value_div, h, div_self hb', Int.cast_one]
  case isFalse h _ =>
    have ha : a.unscaled ≠ 0 := fun ha => h (by rw [isZero_iff.mpr ha, Bool.true_or])
    have hquotes := divideNat_quotes (Int.natAbs_pos.mpr ha) (Int.natAbs_pos.mpr hb)
    rcases hresult : divideNat a.unscaled.natAbs b.unscaled.natAbs with ⟨q, shift⟩
    rw [hresult] at hquotes
    dsimp only
    rw [wrapScale_eq (hfits.add hquotes.places_le)]
    exact hquotes.approximates ha hb

theorem Approximates.eq_of_int (h : d.Approximates x) {z : ℤ} (hz : x * 10 ^ d.scale = z) :
    d.value = x := by
  have hn : d.unscaled = z := (hz ▸ h.nearest).eq_of_int
  rw [← mul_right_cancel_iff_of_pos (by positivity : (0 : ℚ) < 10 ^ d.scale), value_mul_scale, hn,
    hz]

theorem Approximates.abs_sub_le (h : d.Approximates x) (hne : d.value ≠ x) :
    |x - d.value| * (2 * 10 ^ (quotientDigits - 1)) ≤ |x| := by
  have hpos : (0 : ℚ) < 10 ^ d.scale := by positivity
  have hnear : |x - d.value| * 10 ^ d.scale ≤ 1 / 2 := by
    have hn := h.nearest.near
    rwa [← value_mul_scale, ← sub_mul, abs_mul, abs_of_pos hpos] at hn
  have hdigits := h.digits hne
  rw [abs_mul, abs_of_pos hpos] at hdigits
  rw [← mul_le_mul_iff_of_pos_right hpos]
  calc |x - d.value| * (2 * 10 ^ (quotientDigits - 1)) * 10 ^ d.scale
      = |x - d.value| * 10 ^ d.scale * (2 * 10 ^ (quotientDigits - 1)) := by ring
    _ ≤ 1 / 2 * (2 * 10 ^ (quotientDigits - 1)) :=
        mul_le_mul_of_nonneg_right hnear (by positivity)
    _ = 10 ^ (quotientDigits - 1) := by ring
    _ ≤ |x| * 10 ^ d.scale := hdigits

/-- Digits of the numerator of a quotient up to which the two roundings make one. -/
def sureDigits : Nat := quotientDigits - 1 - divisionScale.toNat

theorem Approximates.eq_of_tie (h : d.Approximates x) (hx : |x| < 10 ^ sureDigits) {m : ℤ}
    (htie : m + 1 / 2 = |x| * 10 ^ divisionScale) : d.value = x := by
  by_contra hne
  have hscale : divisionScale < d.scale := by
    have hdigits := h.digits hne
    rw [abs_mul, abs_of_pos (a := (10 : ℚ) ^ d.scale) (by positivity)] at hdigits
    have hlt : (10 : ℚ) ^ sureDigits * 10 ^ divisionScale < 10 ^ sureDigits * 10 ^ d.scale :=
      calc (10 : ℚ) ^ sureDigits * 10 ^ divisionScale = 10 ^ (quotientDigits - 1) := by
            rw [← zpow_natCast, ← zpow_natCast, ← zpow_add₀ (by norm_num)]
            rfl
        _ ≤ |x| * 10 ^ d.scale := hdigits
        _ < 10 ^ sureDigits * 10 ^ d.scale := mul_lt_mul_of_pos_right hx (by positivity)
    exact (zpow_lt_zpow_iff_right₀ (by norm_num)).mp (lt_of_mul_lt_mul_left hlt (by positivity))
  obtain ⟨k, hk⟩ := Int.eq_ofNat_of_zero_le (by omega : 0 ≤ d.scale - divisionScale - 1)
  have hgrid : |x| * 10 ^ d.scale = ((10 * m + 5) * 10 ^ k : ℤ) := by
    rw [show d.scale = divisionScale + 1 + k by omega, zpow_add₀ (by norm_num),
      zpow_add₀ (by norm_num), ← mul_assoc, ← mul_assoc, ← htie]
    push_cast
    rw [zpow_natCast]
    ring
  rcases abs_choice x with habs | habs <;> rw [habs] at hgrid
  · exact hne (h.eq_of_int hgrid)
  · refine hne (h.eq_of_int (z := -((10 * m + 5) * 10 ^ k)) ?_)
    rw [Int.cast_neg, ← hgrid]
    ring

theorem abs_mul_den (x : ℚ) : |x| * x.den = x.num.natAbs := by
  have hden : (0 : ℚ) ≤ x.den := Nat.cast_nonneg _
  rw [← abs_of_nonneg hden, ← abs_mul, Rat.mul_den_eq_num, Nat.cast_natAbs, Int.cast_abs]

def tieUnits (x : ℚ) : ℚ := 10 ^ divisionScale * (2 * x.den)

theorem tieUnits_pos (x : ℚ) : 0 < tieUnits x := by
  have : (0 : ℚ) < x.den := mod_cast x.den_pos
  rw [tieUnits]
  positivity

theorem abs_mul_tieUnits (x : ℚ) :
    |x| * tieUnits x = ((2 * 10 ^ divisionScale.toNat * x.num.natAbs : ℤ) : ℚ) :=
  calc |x| * tieUnits x = 2 * 10 ^ divisionScale * (|x| * x.den) := by rw [tieUnits]; ring
    _ = ((2 * 10 ^ divisionScale.toNat * x.num.natAbs : ℤ) : ℚ) := by
        rw [abs_mul_den, Int.cast_mul, Int.cast_natCast, Int.cast_mul, Int.cast_pow]
        rfl

theorem tie_le_iff (x y : ℚ) (m : ℤ) :
    m + 1 / 2 ≤ |y * 10 ^ divisionScale| ↔
      (((2 * m + 1) * x.den : ℤ) : ℚ) ≤ |y| * tieUnits x := by
  have hden : (0 : ℚ) < 2 * x.den := mod_cast (by have := x.den_pos; omega : 0 < 2 * x.den)
  rw [abs_mul, abs_of_pos (a := (10 : ℚ) ^ divisionScale) (by positivity),
    ← mul_le_mul_iff_of_pos_right hden, tieUnits, ← mul_assoc]
  push_cast
  ring_nf

theorem Approximates.abs_sub_lt (h : d.Approximates x) (hne : d.value ≠ x)
    (hnum : x.num.natAbs < 10 ^ sureDigits) : |x - d.value| * tieUnits x < 1 := by
  have hpos : (0 : ℚ) < 10 ^ sureDigits := by positivity
  rw [← mul_lt_mul_iff_of_pos_right hpos, one_mul]
  calc |x - d.value| * tieUnits x * 10 ^ sureDigits
      = |x - d.value| * (2 * (10 ^ divisionScale * 10 ^ sureDigits)) * x.den := by
        rw [tieUnits]
        ring
    _ = |x - d.value| * (2 * 10 ^ (quotientDigits - 1)) * x.den := by
        rw [← zpow_natCast, ← zpow_natCast, ← zpow_add₀ (by norm_num)]
        rfl
    _ ≤ |x| * x.den := mul_le_mul_of_nonneg_right (h.abs_sub_le hne) (Nat.cast_nonneg _)
    _ = x.num.natAbs := abs_mul_den x
    _ < 10 ^ sureDigits := mod_cast hnum

theorem int_le_iff_of_near {m n : ℤ} {y : ℚ} (hne : m ≠ n) (h : |n - y| < 1) : m ≤ n ↔ m ≤ y := by
  obtain ⟨hlow, hhigh⟩ := abs_lt.mp h
  constructor
  · intro hle
    have : (m : ℚ) ≤ n - 1 := by exact_mod_cast (by omega : m ≤ n - 1)
    linarith
  · intro hle
    have : (m : ℚ) < n + 1 := by linarith
    have : m < n + 1 := by exact_mod_cast this
    omega

/-- The two roundings of a quotient make one when its numerator, in lowest terms, is moderate. -/
theorem Approximates.noTieBetween (h : d.Approximates x) (hnum : x.num.natAbs < 10 ^ sureDigits) :
    TieRule.NoTieBetween (x * 10 ^ divisionScale) (d.value * 10 ^ divisionScale) := by
  by_cases hne : d.value = x
  · rw [hne]
    exact fun _ => Iff.rfl
  intro m
  have hunits := tieUnits_pos x
  have hnear :
      |((2 * 10 ^ divisionScale.toNat * x.num.natAbs : ℤ) : ℚ) - |d.value| * tieUnits x| < 1 :=
    calc |((2 * 10 ^ divisionScale.toNat * x.num.natAbs : ℤ) : ℚ) - |d.value| * tieUnits x|
        = |(|x| - |d.value|)| * tieUnits x := by
          rw [← abs_mul_tieUnits, ← sub_mul, abs_mul, abs_of_pos hunits]
      _ ≤ |x - d.value| * tieUnits x :=
          mul_le_mul_of_nonneg_right (abs_abs_sub_abs_le_abs_sub _ _) hunits.le
      _ < 1 := h.abs_sub_lt hne hnum
  have hnoTie : (2 * m + 1) * x.den ≠ (2 * 10 ^ divisionScale.toNat * x.num.natAbs : ℤ) := by
    intro htie
    have hsize : |x| < 10 ^ sureDigits :=
      calc |x| ≤ |x| * x.den := le_mul_of_one_le_right (abs_nonneg x) (mod_cast x.den_pos)
        _ = x.num.natAbs := abs_mul_den x
        _ < 10 ^ sureDigits := mod_cast hnum
    have hden : (2 * x.den : ℚ) ≠ 0 := mod_cast (by have := x.den_pos; omega : 2 * x.den ≠ 0)
    have hscaled : (m + 1 / 2 : ℚ) * (2 * x.den) = |x| * 10 ^ divisionScale * (2 * x.den) :=
      calc (m + 1 / 2 : ℚ) * (2 * x.den) = (((2 * m + 1) * x.den : ℤ) : ℚ) := by push_cast; ring
        _ = |x| * tieUnits x := by rw [htie, abs_mul_tieUnits]
        _ = |x| * 10 ^ divisionScale * (2 * x.den) := by rw [tieUnits, mul_assoc]
    exact hne (h.eq_of_tie hsize (mul_right_cancel₀ hden hscaled))
  rw [tie_le_iff x x, tie_le_iff x d.value, abs_mul_tieUnits, Int.cast_le]
  exact int_le_iff_of_near hnoTie hnear

theorem Approximates.same_sign (h : d.Approximates x) :
    0 ≤ x ∧ 0 ≤ d.value ∨ x ≤ 0 ∧ d.value ≤ 0 := by
  have hpos : (0 : ℚ) ≤ 10 ^ d.scale := by positivity
  rcases le_total 0 x with hx | hx
  · exact .inl ⟨hx, value_nonneg_iff.mpr (h.nearest.nonneg (mul_nonneg hx hpos))⟩
  · refine .inr ⟨hx, not_lt.mp fun hlt => ?_⟩
    have := h.nearest.nonpos (mul_nonpos_of_nonpos_of_nonneg hx hpos)
    exact absurd (value_pos_iff.mp hlt) this.not_gt

theorem Approximates.nearest_roundTo_iff (h : d.Approximates x) :
    TieRule.away.Nearest (x * 10 ^ divisionScale) (d.roundTo divisionScale .away).unscaled ↔
      TieRule.NoTieBetween (x * 10 ^ divisionScale) (d.value * 10 ^ divisionScale) := by
  have hpos : (0 : ℚ) ≤ 10 ^ divisionScale := by positivity
  refine TieRule.nearest_away_congr ?_ (d.nearest_roundTo _ _)
  refine h.same_sign.imp (fun hs => ?_) (fun hs => ?_)
  · exact ⟨mul_nonneg hs.1 hpos, mul_nonneg hs.2 hpos⟩
  · exact ⟨mul_nonpos_of_nonpos_of_nonneg hs.1 hpos, mul_nonpos_of_nonpos_of_nonneg hs.2 hpos⟩

/-- A number brought to the digits behind the point of a quotient, after it was rounded before.
That is one rounding of the number itself when no tie lies between it and what it was rounded to,
and always when its numerator, in lowest terms, is moderate. -/
structure RoundedTwice (x : ℚ) (cut d : Decimal) : Prop where
  scale : d.scale = divisionScale
  first : cut.Approximates x
  second : TieRule.away.Nearest (cut.value * 10 ^ divisionScale) d.unscaled
  once_iff : TieRule.away.Nearest (x * 10 ^ divisionScale) d.unscaled ↔
    TieRule.NoTieBetween (x * 10 ^ divisionScale) (cut.value * 10 ^ divisionScale)
  once : x.num.natAbs < 10 ^ sureDigits → TieRule.away.Nearest (x * 10 ^ divisionScale) d.unscaled

theorem div_roundedTwice (hb : b.value ≠ 0) (hfits : QuotientFits a b) :
    RoundedTwice (a.value / b.value) (a.quotient b) (a.div b) := by
  have hcut := quotient_approximates (mt value_eq_zero_iff.mpr hb) hfits
  exact
    { scale := roundTo_scale _ _ _
      first := hcut
      second := nearest_roundTo _ _ _
      once_iff := hcut.nearest_roundTo_iff
      once := fun hnum => hcut.nearest_roundTo_iff.mpr (hcut.noTieBetween hnum) }

end Decimal

theorem Number.arithmetic_decimal {m n : Number} {a b : Decimal} {op : ArithOp}
    (htier : m.tier.join n.tier = .decimal) (ha : m.toDecimal? = some a)
    (hb : n.toDecimal? = some b) (hzero : b.value ≠ 0) :
    m.arithmetic op n = .ok (.decimal (op.onDecimal a b)) := by
  have hz : b.isZero = false := by
    rw [Bool.eq_false_iff, ne_eq, Decimal.isZero_iff, ← Decimal.value_eq_zero_iff]
    exact hzero
  rw [Number.arithmetic, htier]
  dsimp only
  rw [ha, hb]
  dsimp only
  rw [hz, Bool.and_false, if_neg Bool.false_ne_true]

namespace Run

/-- Numbers of which one is a decimal, and the other any that has one, are divided as decimals. -/
theorem binary_div_decimal {m n : Number} {a b : Decimal}
    (htier : m.tier.join n.tier = .decimal) (ha : m.toDecimal? = some a)
    (hb : n.toDecimal? = some b) (hzero : b.value ≠ 0) (hfits : a.QuotientFits b) :
    binary (.arith .div) (.number m) (.number n) = pure (.number (.decimal (a.div b))) ∧
      Decimal.RoundedTwice (a.value / b.value) (a.quotient b) (a.div b) := by
  refine ⟨?_, Decimal.div_roundedTwice hzero hfits⟩
  have hvalue : Value.arithmetic .div m n = .ok (.number (.decimal (a.div b))) := by
    rw [Value.arithmetic, Number.arithmetic_decimal htier ha hb hzero]
    rfl
  calc binary (.arith .div) (.number m) (.number n) = ofExcept (Value.arithmetic .div m n) := rfl
    _ = pure (.number (.decimal (a.div b))) := by rw [hvalue]; rfl

/-- A quotient whose digits run out before the point loses its fraction. -/
theorem binary_div_decimal_googol :
    (Number.decimal ⟨1, -100⟩).tier.join (Number.int 7).tier = .decimal ∧
      (Number.int 7).toDecimal? = some ⟨7, 0⟩ ∧
      (⟨7, 0⟩ : Decimal).value ≠ 0 ∧
      Decimal.QuotientFits ⟨1, -100⟩ ⟨7, 0⟩ ∧
      (binary (.arith .div) (.number (.decimal ⟨1, -100⟩)) (.number (.int 7)) =
          pure (.number (.decimal (Decimal.div ⟨1, -100⟩ ⟨7, 0⟩))) ∧
        Decimal.RoundedTwice ((⟨1, -100⟩ : Decimal).value / (⟨7, 0⟩ : Decimal).value)
          (Decimal.quotient ⟨1, -100⟩ ⟨7, 0⟩) (Decimal.div ⟨1, -100⟩ ⟨7, 0⟩)) ∧
      ¬TieRule.away.Nearest
        ((⟨1, -100⟩ : Decimal).value / (⟨7, 0⟩ : Decimal).value * 10 ^ Decimal.divisionScale)
        (Decimal.div ⟨1, -100⟩ ⟨7, 0⟩).unscaled := by
  have htier : (Number.decimal ⟨1, -100⟩).tier.join (Number.int 7).tier = .decimal := by decide
  have hseven : (Number.int 7).toDecimal? = some ⟨7, 0⟩ := by decide
  have hzero : (⟨7, 0⟩ : Decimal).value ≠ 0 := mt Decimal.value_eq_zero_iff.mp (by decide)
  have hfits : Decimal.QuotientFits ⟨1, -100⟩ ⟨7, 0⟩ := ⟨by decide, by decide +kernel⟩
  refine ⟨htier, hseven, hzero, hfits, binary_div_decimal htier rfl hseven hzero hfits, fun h => ?_⟩
  have hresult : Decimal.div ⟨1, -100⟩ ⟨7, 0⟩ = ⟨(10 ^ 100 + 3) / 7 * 10 ^ 10, 10⟩ := by
    decide +kernel
  have hnear := h.near
  rw [hresult] at hnear
  norm_num [Decimal.value, Decimal.divisionScale] at hnear

end Run

end DocTemplate
