import Mathlib.Data.Rat.Floor
import DocTemplate.Proofs.Number.Valued

namespace DocTemplate

namespace TieRule

def Takes : TieRule → ℚ → ℤ → Prop
  | away, q, n => |q| < |(n : ℚ)|
  | even, _, n => Even n

/-- An integer next to which no other is nearer; in a tie it is the one that the rule takes. -/
structure Nearest (rule : TieRule) (q : ℚ) (n : ℤ) : Prop where
  near : |q - n| ≤ 1 / 2
  tie : |q - n| = 1 / 2 → rule.Takes q n

variable {rule : TieRule} {q q' : ℚ} {n : ℤ}

theorem Nearest.of_lt (h : |q - n| < 1 / 2) : rule.Nearest q n := ⟨h.le, fun ht => absurd ht h.ne⟩

theorem Nearest.of_eq (h : q = n) : rule.Nearest q n :=
  .of_lt (by rw [h, sub_self, abs_zero]; norm_num)

theorem Nearest.neg (h : rule.Nearest q n) : rule.Nearest (-q) (-n) := by
  have habs : |-q - ((-n : ℤ) : ℚ)| = |q - n| := by
    rw [← abs_neg (q - n)]
    push_cast
    ring_nf
  refine ⟨habs ▸ h.near, fun ht => ?_⟩
  have hn := h.tie (habs ▸ ht)
  cases rule with
  | away => simpa [Takes] using hn
  | even => exact Even.neg hn

theorem Nearest.eq_of_int {m : ℤ} (h : rule.Nearest m n) : n = m := by
  have hlt : |(m - n : ℚ)| < 1 := h.near.trans_lt (by norm_num)
  have hint : |m - n| < 1 := by exact_mod_cast hlt
  have := Int.abs_lt_one_iff.mp hint
  omega

theorem Nearest.nonneg (h : rule.Nearest q n) (hq : 0 ≤ q) : 0 ≤ n := by
  have := abs_le.mp h.near
  have hn : (-1 : ℚ) < n := by linarith
  have : -1 < n := by exact_mod_cast hn
  omega

theorem Nearest.nonpos (h : rule.Nearest q n) (hq : q ≤ 0) : n ≤ 0 := by
  have := h.neg.nonneg (neg_nonneg.mpr hq)
  omega

theorem nearest_away_iff (hq : 0 ≤ q) : away.Nearest q n ↔ ⌊q + 1 / 2⌋ = n := by
  rw [Int.floor_eq_iff]
  constructor
  · intro h
    have hn : (0 : ℚ) ≤ n := by exact_mod_cast h.nonneg hq
    obtain ⟨hlow, hhigh⟩ := abs_le.mp h.near
    refine ⟨by linarith, lt_of_le_of_ne (by linarith) fun heq => ?_⟩
    have htie := h.tie (by rw [show q - n = 1 / 2 by linarith, abs_of_pos (by norm_num)])
    rw [Takes, abs_of_nonneg hq, abs_of_nonneg hn] at htie
    linarith
  · rintro ⟨hlow, hhigh⟩
    refine ⟨abs_le.mpr ⟨by linarith, by linarith⟩, fun htie => ?_⟩
    rcases (abs_eq (by norm_num)).mp htie with heq | heq
    · linarith
    · rw [Takes, abs_of_nonneg hq, abs_of_nonneg (by linarith)]
      linarith

/-- No tie lies between the sizes of two numbers, nor at the greater of them. -/
def NoTieBetween (x y : ℚ) : Prop := ∀ m : ℤ, m + 1 / 2 ≤ |x| ↔ m + 1 / 2 ≤ |y|

theorem noTieBetween_iff {x y : ℚ} : NoTieBetween x y ↔ ⌊|x| + 1 / 2⌋ = ⌊|y| + 1 / 2⌋ := by
  have hshift : ∀ (m : ℤ) (z : ℚ), ((m + 1 : ℤ) : ℚ) ≤ z + 1 / 2 ↔ m + 1 / 2 ≤ z := fun m z => by
    push_cast
    constructor <;> intro h <;> linarith
  constructor
  · intro h
    refine eq_of_forall_le_iff fun m => ?_
    rw [Int.le_floor, Int.le_floor, ← sub_add_cancel m 1, hshift, hshift]
    exact h (m - 1)
  · intro h m
    rw [← hshift, ← hshift, ← Int.le_floor, ← Int.le_floor, h]

theorem nearest_away_congr {x y : ℚ} (hsign : 0 ≤ x ∧ 0 ≤ y ∨ x ≤ 0 ∧ y ≤ 0)
    (h : away.Nearest y n) : away.Nearest x n ↔ NoTieBetween x y := by
  have hpos : ∀ {x y : ℚ} {n : ℤ}, 0 ≤ x → 0 ≤ y → away.Nearest y n →
      (away.Nearest x n ↔ NoTieBetween x y) := fun hx hy h => by
    rw [noTieBetween_iff, abs_of_nonneg hx, abs_of_nonneg hy, nearest_away_iff hx,
      (nearest_away_iff hy).mp h]
  rcases hsign with ⟨hx, hy⟩ | ⟨hx, hy⟩
  · exact hpos hx hy h
  · have hneg := hpos (neg_nonneg.mpr hx) (neg_nonneg.mpr hy) h.neg
    rw [NoTieBetween, abs_neg, abs_neg, ← NoTieBetween] at hneg
    rw [← hneg]
    exact ⟨Nearest.neg, fun h => by simpa using h.neg⟩

theorem nearest_add_part (rule : TieRule) (k : Nat) {part : ℚ} (h0 : 0 ≤ part) (h1 : part < 1) :
    rule.Nearest (k + part)
      (if 1 / 2 < part ∨ part = 1 / 2 ∧ (rule = .away ∨ k % 2 = 1) then k + 1 else k : Nat) := by
  have hk : (0 : ℚ) ≤ k := Nat.cast_nonneg k
  rcases lt_trichotomy part (1 / 2) with hp | hp | hp
  · rw [if_neg (by rintro (h | ⟨h, -⟩) <;> linarith)]
    exact .of_lt (by rw [abs_lt]; constructor <;> push_cast <;> linarith)
  · subst hp
    split
    case isTrue h =>
      refine ⟨by rw [abs_le]; constructor <;> push_cast <;> linarith, fun _ => ?_⟩
      cases rule with
      | away =>
        rw [Takes, abs_of_nonneg (by linarith), abs_of_nonneg (by positivity)]
        push_cast
        linarith
      | even =>
        have hodd : k % 2 = 1 := by simpa using h
        rw [Takes, Int.even_coe_nat, Nat.even_iff]
        omega
    case isFalse h =>
      refine ⟨by rw [abs_le]; constructor <;> push_cast <;> linarith, fun _ => ?_⟩
      cases rule with
      | away => simp at h
      | even =>
        have hodd : ¬k % 2 = 1 := by simpa using h
        rw [Takes, Int.even_coe_nat, Nat.even_iff]
        omega
  · rw [if_pos (.inl hp)]
    exact .of_lt (by rw [abs_lt]; constructor <;> push_cast <;> linarith)

theorem quotient_add_part (num : Nat) {den : Nat} (hden : 0 < den) :
    ((num / den : Nat) + (num % den : Nat) / den : ℚ) = num / den := by
  have hne : (den : ℚ) ≠ 0 := mod_cast hden.ne'
  calc ((num / den : Nat) + (num % den : Nat) / den : ℚ)
      = ((den * (num / den) + num % den : Nat) : ℚ) / den := by
        rw [Nat.cast_add, Nat.cast_mul, add_div, mul_div_cancel_left₀ _ hne]
    _ = num / den := by rw [Nat.div_add_mod]

theorem nearest_roundRatio (rule : TieRule) (num : Nat) {den : Nat} (hden : 0 < den) :
    rule.Nearest (num / den : ℚ) (roundRatio rule num den) := by
  have hpos : (0 : ℚ) < den := mod_cast hden
  have hround : roundRatio rule num den =
      if 1 / 2 < ((num % den : Nat) / den : ℚ) ∨ ((num % den : Nat) / den : ℚ) = 1 / 2 ∧
        (rule = .away ∨ num / den % 2 = 1) then num / den + 1 else num / den := by
    have hlt : 1 / 2 < ((num % den : Nat) / den : ℚ) ↔ den < 2 * (num % den) := by
      rw [div_lt_div_iff₀ two_pos hpos, one_mul, mul_comm]
      exact_mod_cast Iff.rfl
    have heq : ((num % den : Nat) / den : ℚ) = 1 / 2 ↔ 2 * (num % den) = den := by
      rw [div_eq_div_iff hpos.ne' two_ne_zero, one_mul, mul_comm]
      exact_mod_cast Iff.rfl
    simp only [roundRatio, hlt, heq]
  rw [← quotient_add_part num hden, hround]
  refine nearest_add_part rule (num / den) (by positivity) ?_
  rw [div_lt_one hpos]
  exact_mod_cast Nat.mod_lt num hden

theorem nearest_roundQuotient (rule : TieRule) (num : Int) {den : Nat} (hden : 0 < den) :
    rule.Nearest (num / den : ℚ) (roundQuotient rule num den) := by
  have h := nearest_roundRatio rule num.natAbs hden
  rcases lt_trichotomy num 0 with hn | rfl | hn
  · have habs : (num : ℚ) = -(num.natAbs : ℚ) := by
      rw [Nat.cast_natAbs, abs_of_neg hn]
      push_cast
      ring
    rw [roundQuotient, Int.sign_eq_neg_one_of_neg hn, neg_one_mul, habs, neg_div]
    exact h.neg
  · rw [roundQuotient, Int.sign_zero, zero_mul]
    exact .of_eq (by simp)
  · have habs : (num : ℚ) = (num.natAbs : ℚ) := by rw [Nat.cast_natAbs, abs_of_pos hn]
    rw [roundQuotient, Int.sign_eq_one_of_pos hn, one_mul, habs]
    exact h

end TieRule

namespace Decimal

/-- A decimal brought to a scale has the integer there that is nearest to it. -/
theorem nearest_roundTo (d : Decimal) (scale : Int) (rule : TieRule) :
    rule.Nearest (d.value * 10 ^ scale) (d.roundTo scale rule).unscaled := by
  rw [roundTo]
  split
  case isTrue h => exact .of_eq (unscaledAt_eq h).symm
  case isFalse h =>
    split
    case isTrue hz =>
      refine .of_lt ?_
      rcases Bool.or_eq_true _ _ ▸ hz with hz | hm
      · rw [value_eq_zero_iff.mpr (isZero_iff.mp hz)]
        norm_num
      · have hm : d.magnitude + scale ≤ -1 := by have := of_decide_eq_true hm; omega
        calc |d.value * 10 ^ scale - ((0 : Int) : ℚ)| = |d.value| * 10 ^ scale := by
              rw [Int.cast_zero, sub_zero, abs_mul,
                abs_of_pos (by positivity : (0 : ℚ) < 10 ^ scale)]
          _ < 10 ^ d.magnitude * 10 ^ scale :=
              mul_lt_mul_of_pos_right d.abs_value_lt (by positivity)
          _ = 10 ^ (d.magnitude + scale) := (zpow_add₀ (by norm_num) _ _).symm
          _ ≤ 10 ^ (-1 : Int) := zpow_le_zpow_right₀ (by norm_num) hm
          _ < 1 / 2 := by norm_num
    case isFalse hz =>
      have hshift : ((Nat.pow 10 (d.scale - scale).toNat : Nat) : ℚ) = 10 ^ (d.scale - scale) := by
        obtain ⟨n, hn⟩ := Int.eq_ofNat_of_zero_le (by omega : 0 ≤ d.scale - scale)
        rw [hn, Int.toNat_natCast, zpow_natCast]
        exact_mod_cast rfl
      have hvalue : d.value * 10 ^ scale =
          d.unscaled / (Nat.pow 10 (d.scale - scale).toNat : Nat) := by
        rw [hshift, value, mul_assoc, ← zpow_add₀ (by norm_num), div_eq_mul_inv, ← zpow_neg]
        congr 2
        ring
      rw [hvalue]
      exact TieRule.nearest_roundQuotient rule d.unscaled (Nat.pow_pos (by decide))

@[simp] theorem roundTo_scale (d : Decimal) (scale : Int) (rule : TieRule) :
    (d.roundTo scale rule).scale = scale := by
  rw [roundTo]
  split
  · rfl
  · split <;> rfl

end Decimal

end DocTemplate
