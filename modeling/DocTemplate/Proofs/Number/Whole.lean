import Mathlib.Data.Rat.Floor
import DocTemplate.Proofs.Number.Shortened

namespace DocTemplate

def towardZero (q : ℚ) : ℤ := if q < 0 then ⌈q⌉ else ⌊q⌋

section

variable {q : ℚ} {i : ℤ}

theorem towardZero_of_nonneg (h : 0 ≤ q) : towardZero q = ⌊q⌋ := if_neg h.not_gt

@[simp] theorem towardZero_intCast (i : ℤ) : towardZero i = i := by simp [towardZero]

theorem towardZero_neg (q : ℚ) : towardZero (-q) = -towardZero q := by
  rcases lt_trichotomy q 0 with h | rfl | h
  · rw [towardZero_of_nonneg (neg_pos.mpr h).le, towardZero, if_pos h, Int.floor_neg]
  · exact towardZero_intCast 0
  · rw [towardZero_of_nonneg h.le, towardZero, if_pos (neg_lt_zero.mpr h), Int.ceil_neg]

theorem towardZero_signed (s : Bool) (q : ℚ) :
    towardZero ((if s then -1 else 1) * q) = if s then -towardZero q else towardZero q := by
  cases s with
  | false => simp
  | true => simp [towardZero_neg]

theorem natAbs_towardZero (q : ℚ) : (towardZero q).natAbs = ⌊|q|⌋₊ := by
  have hnonneg (r : ℚ) (h : 0 ≤ r) : (towardZero r).natAbs = ⌊r⌋₊ := by
    have hfloor : 0 ≤ ⌊r⌋ := Int.floor_nonneg.mpr h
    rw [towardZero_of_nonneg h, ← Int.floor_toNat]
    omega
  rcases le_total 0 q with h | h
  · rw [abs_of_nonneg h, hnonneg q h]
  · rw [abs_of_nonpos h, ← hnonneg (-q) (neg_nonneg.mpr h), towardZero_neg, Int.natAbs_neg]

theorem towardZero_of_abs_lt (h : |q| < 1) : towardZero q = 0 := by
  rw [← Int.natAbs_eq_zero, natAbs_towardZero, Nat.floor_eq_zero]
  exact h

theorem towardZero_div (n : ℤ) (d : ℕ) : towardZero (n / d) = n.tdiv d := by
  have hnonneg (m : ℕ) : towardZero ((m : ℤ) / d) = (m : ℤ).tdiv d := by
    rw [towardZero_of_nonneg (by positivity), Rat.floor_intCast_div_natCast,
      Int.tdiv_eq_ediv_of_nonneg (Int.natCast_nonneg m)]
  obtain ⟨m, rfl | rfl⟩ := n.eq_nat_or_neg
  · exact hnonneg m
  · rw [Int.cast_neg, neg_div, towardZero_neg, hnonneg, Int.neg_tdiv]

end

namespace Binary

variable {f : Format} {x y : Binary f} {n : Nat}

def exact (x : Binary f) : ℚ := x.signedUnits / f.one

theorem exact_finite (s : Bool) (n : Nat) :
    (finite s n : Binary f).exact = (if s then -1 else 1) * (n / f.one) := by
  cases s <;> simp [exact, signedUnits, neg_div]

theorem towardZero_exact (s : Bool) (n : Nat) :
    towardZero (finite s n : Binary f).exact =
      if s then -((n / f.one : Nat) : ℤ) else ((n / f.one : Nat) : ℤ) := by
  have hunits : towardZero (n / f.one) = (n / f.one : Nat) := towardZero_div n f.one
  rw [exact_finite, towardZero_signed, hunits]

theorem toIntWithin_eq (hx : x.Proper) (lo hi : ℤ) :
    x.toIntWithin lo hi = max lo (min hi (towardZero x.exact)) := by
  cases hx with
  | finite => rw [towardZero_exact, toIntWithin]

theorem one_dvd (hf : 0 < f.precision) (h : step f n ∣ n)
    (hn : 2 ^ (f.precision - 1) * f.one ≤ n) : f.one ∣ n := by
  have hpos : 0 < n := (Nat.mul_pos (Nat.two_pow_pos _) (Nat.two_pow_pos _)).trans_le hn
  have hlog : f.precision - 1 + f.fractionBits ≤ n.log2 := by
    rw [Nat.le_log2 hpos.ne', pow_add]
    exact hn
  have hspacing : f.fractionBits ≤ spacing f n := by
    rw [spacing]
    omega
  exact (pow_dvd_pow 2 hspacing).trans h

/-- A number shows an integer part that its significant bits suffice for. -/
theorem floor_shown (hf : f.Regular) (hp : f.precision ≤ f.integerBits) (h : f.Holds n)
    (hn : n < 2 ^ f.precision * f.one) : ⌊shown f n⌋ = (n / f.one : Nat) := by
  have hone : 0 < f.one := Nat.two_pow_pos _
  have hwhole : n / f.one < 2 ^ f.precision := (Nat.div_lt_iff_lt_mul hone).mpr hn
  have hlow := holds_integer hf.precision_pos hp hwhole
  have hshown := shown_integer hf hp hwhole
  by_cases hd : f.one ∣ n
  · rw [Nat.div_mul_cancel hd] at hshown
    rw [hshown, Int.floor_natCast]
  have hbelow : n / f.one * f.one < n :=
    (Nat.div_mul_le_self n f.one).lt_of_ne fun heq => hd ⟨n / f.one, by rw [Nat.mul_comm, heq]⟩
  have habove : n < (n / f.one + 1) * f.one := Nat.lt_mul_of_div_lt (Nat.lt_succ_self _) hone
  have hfar : n / f.one + 1 < 2 ^ f.precision := by
    have hhalf : n < 2 ^ (f.precision - 1) * f.one :=
      not_le.mp fun hle => hd (one_dvd hf.precision_pos h.spaced hle)
    have hpow : 2 ^ f.precision = 2 ^ (f.precision - 1) * 2 := by
      rw [← pow_succ, Nat.sub_add_cancel hf.precision_pos]
    have hwhole' : n / f.one < 2 ^ (f.precision - 1) := (Nat.div_lt_iff_lt_mul hone).mpr hhalf
    have hpos : 0 < 2 ^ (f.precision - 1) := Nat.two_pow_pos _
    omega
  have hhigh := holds_integer hf.precision_pos hp hfar
  have hlt := shown_lt hf hlow h hbelow
  have hgt := shown_lt hf h hhigh habove
  rw [hshown] at hlt
  rw [shown_integer hf hp hfar] at hgt
  rw [Int.floor_eq_iff]
  exact ⟨by exact_mod_cast hlt.le, by exact_mod_cast hgt⟩

theorem towardZero_value (hf : f.Regular) (hp : f.precision ≤ f.integerBits) (hx : x.Proper)
    (h : (towardZero x.exact).natAbs < 2 ^ f.precision) :
    towardZero x.value = towardZero x.exact := by
  cases hx with
  | @finite s n hn =>
    have hbound : n < 2 ^ f.precision * f.one := by
      refine (Nat.div_lt_iff_lt_mul (Nat.two_pow_pos f.fractionBits)).mp ?_
      rw [towardZero_exact] at h
      split at h
      · rwa [Int.natAbs_neg] at h
      · exact h
    rw [towardZero_exact, value_finite, towardZero_signed,
      towardZero_of_nonneg (shown_nonneg hf hn), floor_shown hf hp hn hbound]

theorem exact_eq_of_value_eq (hf : f.Regular) (hx : x.Proper) (hy : y.Proper)
    (h : x.value = y.value) : x.exact = y.exact := by
  have hcmp := cmp_value hf hx hy
  rw [h, cmp_self_eq_eq, eq_comm, cmp_eq_eq_iff] at hcmp
  rw [exact, exact, hcmp]

end Binary

theorem Decimal.truncate_eq (d : Decimal) : d.truncate = towardZero d.value := by
  rw [truncate, withScale]
  split
  next h =>
    have hvalue := unscaledAt_eq h
    rw [zpow_zero, mul_one] at hvalue
    rw [← hvalue, towardZero_intCast]
  next hscale =>
  split
  next h =>
    refine (towardZero_of_abs_lt ?_).symm
    rw [Bool.or_eq_true, decide_eq_true_eq, add_zero] at h
    rcases h with hz | hm
    · rw [value_eq_zero_iff.mpr (isZero_iff.mp hz)]
      norm_num
    · exact d.abs_value_lt.trans_le (zpow_le_one_of_nonpos₀ (by norm_num) hm)
  next =>
    obtain ⟨k, hk⟩ := Int.eq_ofNat_of_zero_le (not_le.mp hscale).le
    have hvalue : d.value = d.unscaled / (10 ^ k : Nat) := by
      rw [value, hk, zpow_neg, zpow_natCast, ← div_eq_mul_inv]
      push_cast
      rfl
    rw [hvalue, towardZero_div, hk]
    push_cast
    rfl

end DocTemplate
