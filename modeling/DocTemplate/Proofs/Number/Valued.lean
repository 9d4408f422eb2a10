import Mathlib.Algebra.Order.Field.Power
import Mathlib.Data.Rat.Cast.Order
import Mathlib.Order.Compare
import Mathlib.Tactic.IntervalCases
import Mathlib.Tactic.Linarith
import Mathlib.Tactic.Positivity
import Mathlib.Tactic.Ring
import DocTemplate.Number.Decimal

namespace DocTemplate

namespace Decimal

variable {a b : Decimal} {scale : Int}

def value (d : Decimal) : ℚ := d.unscaled * 10 ^ (-d.scale)

theorem isZero_iff : a.isZero = true ↔ a.unscaled = 0 := by rw [isZero, beq_iff_eq]

theorem value_pos_iff : 0 < a.value ↔ 0 < a.unscaled := by
  rw [value, mul_pos_iff_of_pos_right (by positivity), Int.cast_pos]

theorem value_nonneg_iff : 0 ≤ a.value ↔ 0 ≤ a.unscaled := by
  rw [value, mul_nonneg_iff_of_pos_right (by positivity), Int.cast_nonneg_iff]

theorem value_neg_iff : a.value < 0 ↔ a.unscaled < 0 := by
  rw [← not_le, value_nonneg_iff, not_le]

theorem value_eq_zero_iff : a.value = 0 ↔ a.unscaled = 0 := by
  rw [value, mul_eq_zero_iff_right (by positivity), Int.cast_eq_zero]

theorem unscaledAt_eq (h : a.scale ≤ scale) : (a.unscaledAt scale : ℚ) = a.value * 10 ^ scale := by
  obtain ⟨n, hn⟩ := Int.eq_ofNat_of_zero_le (sub_nonneg.mpr h)
  have hpow : ((10 : ℚ) ^ (-a.scale)) * 10 ^ scale = 10 ^ n := by
    rw [← zpow_add₀ (by norm_num), neg_add_eq_sub, hn, zpow_natCast]
  rw [unscaledAt, value, mul_assoc, hpow, hn, Int.toNat_natCast]
  split
  · rename_i hz
    rw [isZero_iff.mp hz, Int.cast_zero, zero_mul]
  · rw [Int.pow_eq]
    push_cast
    rfl

theorem compareAligned_eq (a b : Decimal) : a.compareAligned b = cmp a.value b.value := by
  have hpos : (0 : ℚ) < 10 ^ max a.scale b.scale := by positivity
  calc a.compareAligned b
      = cmp (a.unscaledAt (max a.scale b.scale)) (b.unscaledAt (max a.scale b.scale)) :=
        (cmp_eq_compare _ _).symm
    _ = cmp (a.unscaledAt (max a.scale b.scale) : ℚ) (b.unscaledAt (max a.scale b.scale) : ℚ) :=
        (Int.cast_strictMono.cmp_map_eq _ _).symm
    _ = cmp (a.value * 10 ^ max a.scale b.scale) (b.value * 10 ^ max a.scale b.scale) := by
        rw [unscaledAt_eq (le_max_left _ _), unscaledAt_eq (le_max_right _ _)]
    _ = cmp a.value b.value := cmp_mul_pos_right hpos _ _

theorem wrapScale_eq (h : scaleFits scale) : wrapScale scale = scale := by
  rw [scaleFits, Bool.and_eq_true, decide_eq_true_iff, decide_eq_true_iff] at h
  refine Int.bmod_eq_of_le ?_ ?_
  · exact le_trans (by decide) h.1
  · exact lt_of_lt_of_le h.2 (by decide)

theorem value_ofInt (n : Int) : (ofInt n).value = n := by simp [ofInt, value]

theorem value_of_isOne (h : a.isOne) : a.value = 1 := by
  rw [isOne, Bool.and_eq_true, Bool.and_eq_true, decide_eq_true_iff, beq_iff_eq] at h
  obtain ⟨⟨hscale, -⟩, hunscaled⟩ := h
  obtain ⟨n, hn⟩ := Int.eq_ofNat_of_zero_le hscale
  rw [value, hunscaled, hn, Int.toNat_natCast, Int.pow_eq, zpow_neg, zpow_natCast]
  push_cast
  exact mul_inv_cancel₀ (by positivity)

theorem value_mul (h : scaleFits (a.scale + b.scale)) : (a.mul b).value = a.value * b.value := by
  rw [mul]
  split
  · rename_i ha
    rw [value_of_isOne ha, one_mul]
  split
  · rename_i hb
    rw [value_of_isOne hb, mul_one]
  · rw [value, wrapScale_eq h, neg_add, zpow_add₀ (by norm_num), value, value]
    push_cast
    ring

theorem lt_pow_natDigits (n : Nat) : n < 10 ^ (natDigits n).length :=
  (Nat.length_toDigits_le_iff (by decide) Nat.length_toDigits_pos).mp le_rfl

theorem pow_le_of_natDigits {n : Nat} (h : 0 < n) : 10 ^ ((natDigits n).length - 1) ≤ n := by
  rcases Nat.eq_zero_or_pos ((natDigits n).length - 1) with h0 | h1
  · rwa [h0]
  · by_contra hlt
    have := (Nat.length_toDigits_le_iff (b := 10) (by decide) h1).mpr (not_le.mp hlt)
    change (natDigits n).length ≤ _ at this
    omega

theorem abs_value (a : Decimal) : |a.value| = a.unscaled.natAbs * 10 ^ (-a.scale) := by
  rw [value, abs_mul, abs_of_pos (a := (10 : ℚ) ^ (-a.scale)) (by positivity), Nat.cast_natAbs,
    Int.cast_abs]

theorem abs_value_lt (a : Decimal) : |a.value| < 10 ^ a.magnitude := by
  rw [magnitude]
  split
  · rename_i hz
    rw [value_eq_zero_iff.mpr (isZero_iff.mp hz)]
    norm_num
  · have hcast : (a.unscaled.natAbs : ℚ) < 10 ^ a.digitCount := mod_cast lt_pow_natDigits _
    rw [abs_value, sub_eq_add_neg, zpow_add₀ (by norm_num), zpow_natCast]
    exact mul_lt_mul_of_pos_right hcast (by positivity)

theorem le_abs_value (h : a.unscaled ≠ 0) : 10 ^ (a.magnitude - 1) ≤ |a.value| := by
  have hpos : 0 < a.digitCount := Nat.length_toDigits_pos
  have hle : 10 ^ (a.digitCount - 1) ≤ a.unscaled.natAbs :=
    pow_le_of_natDigits (Int.natAbs_pos.mpr h)
  have hcast : (10 : ℚ) ^ (a.digitCount - 1) ≤ a.unscaled.natAbs := mod_cast hle
  have hexp : a.magnitude - 1 = ((a.digitCount - 1 : Nat) : Int) + -a.scale := by
    rw [magnitude, if_neg (by rwa [isZero_iff])]
    omega
  rw [abs_value, hexp, zpow_add₀ (by norm_num), zpow_natCast]
  exact mul_le_mul_of_nonneg_right hcast (by positivity)

theorem abs_value_lt_abs_value (hb : b.unscaled ≠ 0) (h : a.magnitude < b.magnitude) :
    |a.value| < |b.value| :=
  calc |a.value| < 10 ^ a.magnitude := a.abs_value_lt
    _ ≤ 10 ^ (b.magnitude - 1) := zpow_le_zpow_right₀ (by norm_num) (by omega)
    _ ≤ |b.value| := le_abs_value hb

theorem neg_iff_of_sign_eq (h : a.unscaled.sign = b.unscaled.sign) :
    a.unscaled < 0 ↔ b.unscaled < 0 := by
  rw [← Int.sign_eq_neg_one_iff_neg, h, Int.sign_eq_neg_one_iff_neg]

theorem cmp_eq_of_magnitude_lt (hs : a.unscaled.sign = b.unscaled.sign)
    (h : a.magnitude < b.magnitude) :
    cmp a.value b.value = if a.unscaled < 0 then .gt else .lt := by
  have hb : b.unscaled ≠ 0 := by
    intro hb
    have ha : a.unscaled = 0 := by rwa [hb, Int.sign_zero, Int.sign_eq_zero_iff_zero] at hs
    rw [magnitude, magnitude, if_pos (isZero_iff.mpr ha), if_pos (isZero_iff.mpr hb)] at h
    exact lt_irrefl _ h
  have habs := abs_value_lt_abs_value hb h
  by_cases ha : a.unscaled < 0
  · rw [abs_of_neg (value_neg_iff.mpr ha),
      abs_of_neg (value_neg_iff.mpr ((neg_iff_of_sign_eq hs).mp ha))] at habs
    rw [if_pos ha, cmp_eq_gt_iff]
    exact neg_lt_neg_iff.mp habs
  · have hb' : ¬b.unscaled < 0 := fun h => ha ((neg_iff_of_sign_eq hs).mpr h)
    rw [abs_of_nonneg (value_nonneg_iff.mpr (not_lt.mp ha)),
      abs_of_nonneg (value_nonneg_iff.mpr (not_lt.mp hb'))] at habs
    rwa [if_neg ha, cmp_eq_lt_iff]

theorem value_lt_of_sign_lt (h : a.unscaled.sign < b.unscaled.sign) : a.value < b.value := by
  have hsign : a.unscaled < 0 ∧ 0 ≤ b.unscaled ∨ a.unscaled ≤ 0 ∧ 0 < b.unscaled := by grind
  rcases hsign with ⟨ha, hb⟩ | ⟨ha, hb⟩
  · exact (value_neg_iff.mpr ha).trans_le (value_nonneg_iff.mpr hb)
  · exact (not_lt.mp (mt value_pos_iff.mp (not_lt.mpr ha))).trans_lt (value_pos_iff.mpr hb)

/-- Decimals are ordered by their values. -/
theorem compare_eq (a b : Decimal) : a.compare b = cmp a.value b.value := by
  rw [compare]
  rcases lt_trichotomy a.unscaled.sign b.unscaled.sign with hs | hs | hs
  · rw [Int.compare_eq_lt.mpr hs, (cmp_eq_lt_iff _ _).mpr (value_lt_of_sign_lt hs)]
  · rw [Int.compare_eq_eq.mpr hs]
    rcases lt_trichotomy a.magnitude b.magnitude with hm | hm | hm
    · rw [Int.compare_eq_lt.mpr hm, cmp_eq_of_magnitude_lt hs hm]
      rfl
    · rw [Int.compare_eq_eq.mpr hm]
      exact compareAligned_eq a b
    · rw [Int.compare_eq_gt.mpr hm, ← cmp_swap, cmp_eq_of_magnitude_lt hs.symm hm]
      simp only [neg_iff_of_sign_eq hs]
      split <;> rfl
  · rw [Int.compare_eq_gt.mpr hs, (cmp_eq_gt_iff _ _).mpr (value_lt_of_sign_lt hs)]

/-- The only word whose product with `10 ^ 10` fits two words while its sum with a carry may not. -/
def fullWord : Nat := 1844674407

theorem word_pos : 0 < word := by decide

theorem product_fits {w d carry : Nat} (hd : d < wordwiseLimit) (hw : w < word)
    (hc : carry < word) (hp : w * 10 ^ d < word * word)
    (hfull : d = 10 → w = fullWord → carry = 0) : w * 10 ^ d + carry < word * word := by
  rw [show wordwiseLimit = 20 from rfl] at hd
  rw [show word = 4294967296 from rfl] at hw hc hp ⊢
  rw [fullWord] at hfull
  interval_cases d <;> lia

theorem eq_iff_words {a b power carry : Nat} :
    a = b * power + carry ↔
      a / word = b / word * power + (b % word * power + carry) / word ∧
        a % word = (b % word * power + carry) % word := by
  have hb : b * power + carry = (b % word * power + carry) + word * (b / word * power) := by
    conv_lhs => rw [← Nat.mod_add_div b word]
    ring
  rw [hb, Nat.ext_div_mod_iff word, Nat.add_mul_div_left _ _ word_pos, Nat.add_mul_mod_self_left,
    Nat.add_comm (_ / word)]

/-- Where no carry is lost the words tell the truth. Nothing is carried into the lowest word, so
that only the words above it can lose one. -/
theorem equalWords?_iff {d a b carry : Nat} {r : Bool} (hd : d < wordwiseLimit)
    (hc : carry < word) (hlow : d = 10 → b % word = fullWord → carry = 0)
    (hhigh : d = 10 → ∀ k, b / word ^ (k + 1) % word ≠ fullWord)
    (h : equalWords? (Nat.pow 10 d) a b carry = some r) :
    r = true ↔ a = b * 10 ^ d + carry := by
  induction b using Nat.strong_induction_on generalizing a carry with
  | _ b ih =>
    rw [equalWords?] at h
    split at h
    · rename_i hb
      cases h
      rw [hb, Nat.zero_mul, Nat.zero_add, beq_iff_eq]
    rename_i hb
    dsimp only at h
    split at h
    · rename_i ha
      cases h
      have hpos : 0 < b * 10 ^ d := Nat.mul_pos (Nat.pos_of_ne_zero hb) (by positivity)
      exact iff_of_false nofun (by omega)
    split at h
    · cases h
    rename_i hfits
    have hsum := product_fits hd (Nat.mod_lt b word_pos) hc (not_le.mp hfits) hlow
    rw [Nat.pow_eq, Nat.mod_eq_of_lt hsum] at h
    split at h
    · rename_i hword
      have hhigh' : d = 10 → ∀ k, b / word / word ^ k % word ≠ fullWord := fun h10 k => by
        rw [Nat.div_div_eq_div_mul, ← pow_succ']
        exact hhigh h10 k
      have hlow' : d = 10 → b / word % word ≠ fullWord := fun h10 => by
        simpa using hhigh' h10 0
      rw [ih (b / word) (Nat.div_lt_self (Nat.pos_of_ne_zero hb) (by decide))
        (Nat.div_lt_of_lt_mul hsum) (fun h10 hfull => absurd hfull (hlow' h10))
        (fun h10 k => hhigh' h10 (k + 1)) h, eq_iff_words (a := a), and_iff_left hword]
    · rename_i hword
      cases h
      exact iff_of_false nofun (fun ha => hword (eq_iff_words.mp ha).2)

theorem log2_add_log2_le {a b : Nat} (ha : a ≠ 0) (hb : b ≠ 0) :
    a.log2 + b.log2 ≤ (a * b).log2 := by
  rw [Nat.le_log2 (Nat.mul_ne_zero ha hb), pow_add]
  exact Nat.mul_le_mul (Nat.log2_self_le ha) (Nat.log2_self_le hb)

theorem equalScaled_iff {a b d : Nat} (hd : d < wordwiseLimit) (hb : b ≠ 0)
    (hhigh : d = 10 → ∀ k, b / word ^ (k + 1) % word ≠ fullWord) :
    equalScaled a b d = true ↔ a = b * 10 ^ d := by
  rw [equalScaled]
  split
  · rename_i hlog
    refine iff_of_false nofun ?_
    rintro rfl
    exact absurd (log2_add_log2_le hb (by positivity)) (not_le.mpr hlog)
  · cases hr : equalWords? (Nat.pow 10 d) a b 0 with
    | none => rw [Option.getD_none, beq_iff_eq, Nat.pow_eq]
    | some r => exact equalWords?_iff hd word_pos (fun _ _ => rfl) hhigh hr

def HasFullWord (d : Decimal) : Prop := ∃ k, d.unscaled.natAbs / word ^ (k + 1) % word = fullWord

/-- The number at the lower scale of two that are ten apart can lose a carry in an equality. -/
def Spills (a b : Decimal) : Prop :=
  a.scale + 10 = b.scale ∧ a.HasFullWord ∨ b.scale + 10 = a.scale ∧ b.HasFullWord

theorem Spills.symm (h : a.Spills b) : b.Spills a := Or.symm h

theorem not_spills (h : (a.scale - b.scale).natAbs ≠ 10) : ¬a.Spills b := by
  rintro (⟨hs, -⟩ | ⟨hs, -⟩) <;> omega

theorem sign_eq_of_value_eq (h : a.value = b.value) : a.unscaled.sign = b.unscaled.sign := by
  rcases lt_trichotomy a.unscaled.sign b.unscaled.sign with hs | hs | hs
  · exact absurd h (value_lt_of_sign_lt hs).ne
  · exact hs
  · exact absurd h.symm (value_lt_of_sign_lt hs).ne

theorem sign_mul_abs_value (a : Decimal) : a.unscaled.sign * |a.value| = a.value := by
  rw [abs_value, ← mul_assoc, value]
  rw [Nat.cast_natAbs, ← Int.cast_mul, Int.sign_mul_abs]

theorem value_eq_iff_of_scale_lt (hs : a.unscaled.sign = b.unscaled.sign) (h : b.scale < a.scale) :
    a.value = b.value ↔
      a.unscaled.natAbs = b.unscaled.natAbs * 10 ^ (a.scale - b.scale).natAbs := by
  have habs : a.value = b.value ↔ |a.value| = |b.value| := by
    constructor
    · exact congrArg _
    · intro habs
      rw [← sign_mul_abs_value a, hs, habs, sign_mul_abs_value]
  have hb : |b.value| = (b.unscaled.natAbs * 10 ^ (a.scale - b.scale).natAbs : ℚ) *
      10 ^ (-a.scale) := by
    rw [abs_value, mul_assoc, ← zpow_natCast, ← zpow_add₀ (by norm_num)]
    congr 2
    omega
  rw [habs, hb, abs_value, mul_left_inj' (by positivity)]
  norm_cast

theorem equals_of_sign_ne (h : a.unscaled.sign ≠ b.unscaled.sign) : a.equals b = false := by
  rw [equals, if_pos h]

/-- Equality is told by the order for zeros, at one scale, and at scales far from one another. -/
def Ordered (a b : Decimal) : Prop :=
  a.unscaled = 0 ∨ a.scale = b.scale ∨ wordwiseLimit ≤ (a.scale - b.scale).natAbs

theorem Ordered.symm (hs : a.unscaled.sign = b.unscaled.sign) (h : a.Ordered b) : b.Ordered a := by
  rw [Ordered, ← Int.sign_eq_zero_iff_zero] at h ⊢
  rw [← hs, ← neg_sub, Int.natAbs_neg]
  exact h.imp_right (Or.imp_left Eq.symm)

theorem equals_of_ordered (hs : a.unscaled.sign = b.unscaled.sign) (h : a.Ordered b) :
    a.equals b = (a.compare b == .eq) := by
  have hc : (a.isZero || (a.scale - b.scale).natAbs = 0 ||
      wordwiseLimit ≤ (a.scale - b.scale).natAbs) = true := by
    simpa [isZero_iff, Ordered, sub_eq_zero, or_assoc] using h
  rw [equals, if_neg (not_not.mpr hs), if_pos hc]

theorem equals_of_scale_lt (hs : a.unscaled.sign = b.unscaled.sign) (h : ¬a.Ordered b)
    (hlt : b.scale < a.scale) :
    a.equals b = equalScaled a.unscaled.natAbs b.unscaled.natAbs (a.scale - b.scale).natAbs ∧
    b.equals a = equalScaled a.unscaled.natAbs b.unscaled.natAbs (a.scale - b.scale).natAbs := by
  have hc : ¬(a.isZero || (a.scale - b.scale).natAbs = 0 ||
      wordwiseLimit ≤ (a.scale - b.scale).natAbs) = true := by
    simpa [isZero_iff, Ordered, sub_eq_zero, or_assoc] using h
  have hc' : ¬(b.isZero || (b.scale - a.scale).natAbs = 0 ||
      wordwiseLimit ≤ (b.scale - a.scale).natAbs) = true := by
    simpa [isZero_iff, Ordered, sub_eq_zero, or_assoc] using mt (Ordered.symm hs.symm) h
  constructor
  · rw [equals, if_neg (not_not.mpr hs), if_neg hc, if_pos hlt]
  · rw [equals, if_neg (not_not.mpr hs.symm), if_neg hc', if_neg hlt.not_gt, ← neg_sub,
      Int.natAbs_neg]

theorem equals_comm (a b : Decimal) : a.equals b = b.equals a := by
  by_cases hs : a.unscaled.sign = b.unscaled.sign
  · by_cases h : a.Ordered b
    · rw [equals_of_ordered hs h, equals_of_ordered hs.symm (h.symm hs), compare_eq, compare_eq,
        Bool.eq_iff_iff, beq_iff_eq, beq_iff_eq, cmp_eq_eq_iff, cmp_eq_eq_iff, eq_comm]
    · rcases lt_trichotomy a.scale b.scale with hlt | heq | hlt
      · obtain ⟨hba, hab⟩ := equals_of_scale_lt hs.symm (mt (Ordered.symm hs.symm) h) hlt
        rw [hab, hba]
      · exact absurd (Or.inr (Or.inl heq)) h
      · obtain ⟨hab, hba⟩ := equals_of_scale_lt hs h hlt
        rw [hab, hba]
  · rw [equals_of_sign_ne hs, equals_of_sign_ne (Ne.symm hs)]

theorem equals_iff_of_scale_lt (h : ¬a.Spills b) (hs : a.unscaled.sign = b.unscaled.sign)
    (hord : ¬a.Ordered b) (hlt : b.scale < a.scale) : a.equals b = true ↔ a.value = b.value := by
  have hb : b.unscaled.natAbs ≠ 0 := by
    rw [Int.natAbs_ne_zero, ne_eq, ← Int.sign_eq_zero_iff_zero, ← hs, Int.sign_eq_zero_iff_zero]
    exact fun ha => hord (Or.inl ha)
  have hnear : (a.scale - b.scale).natAbs < wordwiseLimit :=
    not_le.mp fun hle => hord (Or.inr (Or.inr hle))
  have hfull : (a.scale - b.scale).natAbs = 10 →
      ∀ k, b.unscaled.natAbs / word ^ (k + 1) % word ≠ fullWord := fun h10 k hk =>
    h (Or.inr ⟨by omega, k, hk⟩)
  rw [(equals_of_scale_lt hs hord hlt).1, equalScaled_iff hnear hb hfull,
    value_eq_iff_of_scale_lt hs hlt]

/-- Decimals are equal when their values are. -/
theorem equals_iff (h : ¬a.Spills b) : a.equals b = true ↔ a.value = b.value := by
  by_cases hs : a.unscaled.sign = b.unscaled.sign
  · by_cases hord : a.Ordered b
    · rw [equals_of_ordered hs hord, beq_iff_eq, compare_eq, cmp_eq_eq_iff]
    · rcases lt_trichotomy a.scale b.scale with hlt | heq | hlt
      · rw [equals_comm, equals_iff_of_scale_lt (mt Spills.symm h) hs.symm
          (mt (Ordered.symm hs.symm) hord) hlt, eq_comm]
      · exact absurd (Or.inr (Or.inl heq)) hord
      · exact equals_iff_of_scale_lt h hs hord hlt
  · rw [equals_of_sign_ne hs]
    exact iff_of_false nofun (mt sign_eq_of_value_eq hs)

/-- The upper word of `7922816251533193472` is full, and the carry into it is lost. -/
example : equals ⟨79228162515331934720000000000, 10⟩ ⟨7922816251533193472, 0⟩ = false := by
  decide +kernel

end Decimal

end DocTemplate
