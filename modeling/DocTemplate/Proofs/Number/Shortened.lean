import DocTemplate.Number.Shortest
import DocTemplate.Proofs.Number.Rounding
import DocTemplate.Proofs.Number.Valued

namespace DocTemplate

namespace Binary

variable {f : Format} {m n : Nat} {q r : ℚ}

namespace Interval

variable {i j : Interval}

def Holds (i : Interval) (q : ℚ) : Prop :=
  if i.closed then i.low ≤ q ∧ q ≤ i.high else i.low < q ∧ q < i.high

theorem Holds.bounds (h : i.Holds q) : i.low ≤ q ∧ q ≤ i.high := by
  rw [Holds] at h
  split at h
  · exact h
  · exact ⟨h.1.le, h.2.le⟩

/-- Two intervals that have at most an end in common, and this only when one is open there. -/
def Before (i j : Interval) : Prop := i.high ≤ j.low ∧ (i.closed → j.closed → i.high < j.low)

theorem before_of_lt (h : i.high < j.low) : i.Before j := ⟨h.le, fun _ _ => h⟩

theorem Before.lt (h : i.Before j) (hq : i.Holds q) (hr : j.Holds r) : q < r := by
  have hle : (i.high : ℚ) ≤ j.low := Nat.cast_le.mpr h.1
  by_cases hi : i.closed
  · by_cases hj : j.closed
    · have hlt : (i.high : ℚ) < j.low := Nat.cast_lt.mpr (h.2 hi hj)
      exact hq.bounds.2.trans_lt (hlt.trans_le hr.bounds.1)
    · rw [Holds, if_neg hj] at hr
      exact (hq.bounds.2.trans hle).trans_lt hr.1
  · rw [Holds, if_neg hi] at hq
    exact hq.2.trans_le (hle.trans hr.bounds.1)

end Interval

def below (f : Format) (units : Nat) : Nat :=
  if units = step f units * 2 ^ (f.precision - 1) ∧ 1 < step f units then step f units
  else 2 * step f units

theorem interval_eq (f : Format) (n : Nat) :
    interval f n = ⟨4 * n - below f n, 4 * n + 2 * step f n, n / step f n % 2 == 0⟩ := rfl

theorem below_le : below f n ≤ 2 * step f n := by
  rw [below]
  split <;> omega

theorem step_le_below : step f n ≤ below f n := by
  rw [below]
  split <;> omega

theorem add_le_of_dvd {s : Nat} (h : m < n) (hm : s ∣ m) (hn : s ∣ n) : m + s ≤ n :=
  Nat.le_of_lt_add_of_dvd (Nat.add_lt_add_right h s) (Nat.dvd_add hm (dvd_refl s)) hn

theorem two_mul_step_dvd (hd : step f n ∣ n) (h : (interval f n).closed = true) :
    2 * step f n ∣ n := by
  have heven : n / step f n % 2 = 0 := by simpa [interval_eq] using h
  calc 2 * step f n = step f n * 2 := Nat.mul_comm _ _
    _ ∣ step f n * (n / step f n) := Nat.mul_dvd_mul_left _ (Nat.dvd_of_mod_eq_zero heven)
    _ = n := Nat.mul_div_cancel' hd

theorem before_of_step_eq (hm : step f m ∣ m) (hn : step f n ∣ n) (h : m < n)
    (hs : step f m = step f n) : (interval f m).Before (interval f n) := by
  have hpos : 0 < step f n := step_pos
  have hbelow : below f n ≤ 2 * step f n := below_le
  constructor
  · have hgap := add_le_of_dvd h (hs ▸ hm) hn
    simp only [interval_eq, hs]
    omega
  · intro hi hj
    have hgap := add_le_of_dvd h (hs ▸ two_mul_step_dvd hm hi) (two_mul_step_dvd hn hj)
    simp only [interval_eq, hs]
    omega

/-- A power of two, from which the spacing is twice that before it. The interval reaches down half
as far as elsewhere, and meets that of the number before, whose count of steps is odd. -/
theorem before_of_least (hf : 0 < f.precision) (hm : step f m ∣ m)
    (hs : spacing f n = spacing f m + 1) (htop : n = step f n * 2 ^ (f.precision - 1)) :
    (interval f m).Before (interval f n) := by
  have hpos : 0 < step f m := step_pos
  have hstep : step f n = 2 * step f m := by rw [step, step, hs, pow_succ']
  have hbelow : below f n = 2 * step f m := by
    rw [below, if_pos ⟨htop, Nat.one_lt_two_pow (by omega)⟩, hstep]
  have hn : n = step f m * 2 ^ f.precision := by
    rw [htop, hstep, ← Nat.sub_add_cancel hf, pow_succ, Nat.add_sub_cancel]
    ring
  have hlt : m < n := hn ▸ lt_step_mul
  constructor
  · have hgap := add_le_of_dvd hlt hm (hn ▸ Nat.dvd_mul_right _ _)
    simp only [interval_eq]
    omega
  · intro hi _
    have heven : 2 * step f m ∣ n := by
      rw [hn, Nat.mul_comm]
      exact Nat.mul_dvd_mul_left _ (dvd_pow_self 2 hf.ne')
    have hgap := add_le_of_dvd hlt (two_mul_step_dvd hm hi) heven
    simp only [interval_eq]
    omega

theorem before_of_spacing_lt (hf : 0 < f.precision) (hm : step f m ∣ m) (hn : step f n ∣ n)
    (h : spacing f m < spacing f n) : (interval f m).Before (interval f n) := by
  have hpos : 0 < step f m := step_pos
  have hone : 1 < step f n := Nat.one_lt_two_pow (by omega)
  have hlt : m < step f m * 2 ^ f.precision := lt_step_mul
  have hgap := add_le_of_dvd hlt hm (Nat.dvd_mul_right _ _)
  rcases (step_mul_le hf hone).lt_or_eq with hinner | htop
  · have hgap' := add_le_of_dvd hinner (Nat.dvd_mul_right _ _) hn
    have hbelow : below f n ≤ 2 * step f n := below_le
    have hnext : step f m * 2 ^ f.precision ≤ step f n * 2 ^ (f.precision - 1) := by
      rw [step, step, ← pow_add, ← pow_add]
      exact Nat.pow_le_pow_right (by decide) (by omega)
    refine Interval.before_of_lt ?_
    simp only [interval_eq]
    omega
  · by_cases hs : spacing f n = spacing f m + 1
    · exact before_of_least hf hm hs htop.symm
    · have hfar : 2 * (step f m * 2 ^ f.precision) ≤ n := by
        rw [← htop, step, step, ← pow_add, ← pow_add, ← pow_succ']
        exact Nat.pow_le_pow_right (by decide) (by omega)
      have hself : step f n ≤ n := Nat.le_of_dvd (by omega) hn
      have hbelow : below f n = step f n := if_pos ⟨htop.symm, hone⟩
      refine Interval.before_of_lt ?_
      simp only [interval_eq]
      omega

/-- The intervals of the numbers of a format lie in their order. -/
theorem interval_before (hf : 0 < f.precision) (hm : step f m ∣ m) (hn : step f n ∣ n)
    (h : m < n) : (interval f m).Before (interval f n) := by
  rcases (spacing_mono (f := f) h.le).lt_or_eq with hlt | heq
  · exact before_of_spacing_lt hf hm hn hlt
  · exact before_of_step_eq hm hn h (by rw [step, step, heq])

def quarters (f : Format) (c : Nat) (exponent : Int) : ℚ := 4 * f.one * (c * 10 ^ exponent)

def grid (f : Format) (exponent : Int) : Nat := 4 * f.one * 10 ^ exponent.toNat

def scale (exponent : Int) : Nat := 10 ^ (-exponent).toNat

theorem scale_pos (e : Int) : 0 < scale e := Nat.pow_pos (by decide)

theorem pow_mul_scale (e : Int) : (10 : ℚ) ^ e * scale e = 10 ^ e.toNat := by
  rw [scale, Nat.cast_pow, ← zpow_natCast, ← zpow_natCast, Nat.cast_ofNat,
    ← zpow_add₀ (by norm_num)]
  congr 1
  omega

theorem quarters_mul_scale (f : Format) (c : Nat) (e : Int) :
    quarters f c e * scale e = (c * grid f e : Nat) := by
  have hpow := pow_mul_scale e
  rw [quarters, grid, mul_assoc, mul_assoc, mul_assoc, hpow]
  push_cast
  ring

def Interval.inside (i : Interval) (scale x : Nat) : Bool :=
  if i.closed then i.low * scale ≤ x && x ≤ i.high * scale
  else i.low * scale < x && x < i.high * scale

theorem Interval.inside_iff {i : Interval} {c : Nat} {e : Int} :
    i.inside (scale e) (c * grid f e) = true ↔ i.Holds (quarters f c e) := by
  have hpos : (0 : ℚ) < scale e := Nat.cast_pos.mpr (scale_pos e)
  have hle (a : Nat) : a * scale e ≤ c * grid f e ↔ a ≤ quarters f c e := by
    rw [← mul_le_mul_iff_of_pos_right hpos, quarters_mul_scale]
    exact_mod_cast Iff.rfl
  have hge (a : Nat) : c * grid f e ≤ a * scale e ↔ quarters f c e ≤ a := by
    rw [← mul_le_mul_iff_of_pos_right hpos, quarters_mul_scale]
    exact_mod_cast Iff.rfl
  rw [inside, Holds]
  split <;> simp only [Bool.and_eq_true, decide_eq_true_eq, ← not_le, hle, hge]

theorem gridPoint?_eq (f : Format) (n : Nat) (e : Int) :
    gridPoint? f n e =
      let c := 4 * n * scale e / grid f e
      let inside (x : Nat) := (interval f n).inside (scale e) (x * grid f e)
      if inside (c + 1) && (!inside c ||
          (c + 1) * grid f e - 4 * n * scale e ≤ 4 * n * scale e - c * grid f e) then some (c + 1)
      else if inside c then some c
      else none := rfl

theorem holds_of_gridPoint? {c : Nat} {e : Int} (h : gridPoint? f n e = some c) :
    (interval f n).Holds (quarters f c e) := by
  rw [gridPoint?_eq] at h
  dsimp only at h
  split at h
  · rename_i hup
    cases h
    exact Interval.inside_iff.mp (Bool.and_eq_true_iff.mp hup).1
  · split at h
    · rename_i hdown
      cases h
      exact Interval.inside_iff.mp hdown
    · cases h

theorem grid_pos (f : Format) (e : Int) : 0 < grid f e :=
  Nat.mul_pos (Nat.mul_pos (by decide) (Nat.two_pow_pos _)) (Nat.pow_pos (by decide))

theorem width_le_of_outside {i : Interval} {x y s : Nat} (hx : x < i.high * s)
    (hy : i.low * s < y) (hxs : ¬i.inside s x = true) (hys : ¬i.inside s y = true) :
    i.high * s - i.low * s ≤ y - x := by
  rw [Interval.inside] at hxs hys
  grind

theorem exists_gridPoint {e : Int} (hn : 0 < n) (hd : step f n ∣ n)
    (h : grid f e < 3 * step f n * scale e) : ∃ c, gridPoint? f n e = some c := by
  rw [gridPoint?_eq]
  generalize hc : 4 * n * scale e / grid f e = c
  have hlow : c * grid f e ≤ 4 * n * scale e := hc ▸ Nat.div_mul_le_self _ _
  have hhigh : 4 * n * scale e < (c + 1) * grid f e :=
    hc ▸ (Nat.div_lt_iff_lt_mul (grid_pos f e)).mp (Nat.lt_succ_self _)
  have hwidth : (interval f n).low * scale e + 3 * step f n * scale e ≤
      (interval f n).high * scale e := by
    rw [← Nat.add_mul]
    refine Nat.mul_le_mul_right _ ?_
    have hself := Nat.le_of_dvd hn hd
    have hbelow : below f n ≤ 2 * step f n := below_le
    have hbelow' : step f n ≤ below f n := step_le_below
    simp only [interval_eq]
    omega
  have hdown : (interval f n).low * scale e < (c + 1) * grid f e :=
    (Nat.mul_le_mul_right _ (Nat.sub_le _ _)).trans_lt hhigh
  have hup : c * grid f e < (interval f n).high * scale e := by
    refine hlow.trans_lt (Nat.mul_lt_mul_of_pos_right ?_ (scale_pos e))
    exact Nat.lt_add_of_pos_right (Nat.mul_pos (by decide) step_pos)
  by_cases hcs : (interval f n).inside (scale e) (c * grid f e) = true
  · dsimp only
    rw [if_pos hcs]
    split <;> exact ⟨_, rfl⟩
  · by_cases hcs' : (interval f n).inside (scale e) ((c + 1) * grid f e) = true
    · simp [hcs, hcs']
    · have hspan := width_le_of_outside hup hdown hcs hcs'
      rw [Nat.add_mul] at hspan
      omega

theorem firstGrid_spec {fuel : Nat} {top : Int}
    (h : ∃ i < fuel, ∃ c, gridPoint? f n (top - i) = some c) :
    gridPoint? f n (firstGrid f n fuel top).2 = some (firstGrid f n fuel top).1 ∧
      ∀ e, (firstGrid f n fuel top).2 < e → e ≤ top → gridPoint? f n e = none := by
  induction fuel generalizing top with
  | zero =>
    obtain ⟨i, hi, -⟩ := h
    exact absurd hi i.not_lt_zero
  | succ fuel ih =>
    rw [firstGrid]
    cases htop : gridPoint? f n top with
    | some c => exact ⟨htop, fun e hlt hle => absurd (hlt.trans_le hle) (lt_irrefl _)⟩
    | none =>
      obtain ⟨i, hi, c, hc⟩ := h
      cases i with
      | zero =>
        rw [Int.ofNat_zero, Int.sub_zero, htop] at hc
        cases hc
      | succ i =>
        have hnext : ∃ i < fuel, ∃ c, gridPoint? f n (top - 1 - i) = some c :=
          ⟨i, by omega, c, by rw [← hc]; congr 1; omega⟩
        refine ⟨(ih hnext).1, fun e hlt hle => ?_⟩
        rcases hle.lt_or_eq with hlt' | rfl
        · exact (ih hnext).2 e hlt (by omega)
        · exact htop

/-- The last grid of the search is fine enough for counts of `log + 1` bits. -/
def Format.FineAt (f : Format) (log : Nat) : Prop :=
  let last := ((log : Int) + 1 - f.fractionBits) * 30103 / 100000 + 2 - (gridCount - 1 : Nat)
  grid f last < 3 * 2 ^ (log + 1 - f.precision) * scale last

instance (f : Format) : DecidablePred f.FineAt := fun _ => inferInstanceAs (Decidable (_ < _))

structure Format.Regular (f : Format) : Prop where
  precision_pos : 0 < f.precision
  fine : ∀ log < f.integerBits + f.fractionBits, f.FineAt log

theorem single_regular : Format.single.Regular := ⟨by decide, by decide +kernel⟩

theorem double_regular : Format.double.Regular := ⟨by decide, by decide +kernel⟩

theorem shortest_spec (hf : f.Regular) (h : f.Holds n) (hn : 0 < n) :
    gridPoint? f n (shortest f n).2 = some (shortest f n).1 ∧
      ∀ e, (shortest f n).2 < e → e ≤ topExponent f n → gridPoint? f n e = none := by
  have hfine := hf.fine n.log2 ((Nat.log2_lt hn.ne').mpr h.bounded)
  exact firstGrid_spec ⟨gridCount - 1, by decide, exists_gridPoint hn h.spaced hfine⟩

/-- What the shortest digits of a count of units stand for. -/
def shown (f : Format) (units : Nat) : ℚ :=
  if units = 0 then 0 else (shortest f units).1 * 10 ^ (shortest f units).2

theorem shown_holds (hf : f.Regular) (h : f.Holds n) (hn : 0 < n) :
    (interval f n).Holds (4 * f.one * shown f n) := by
  rw [shown, if_neg hn.ne']
  exact holds_of_gridPoint? (shortest_spec hf h hn).1

theorem one_pos (f : Format) : (0 : ℚ) < 4 * f.one :=
  mul_pos (by norm_num) (Nat.cast_pos.mpr (Nat.two_pow_pos _))

theorem shown_pos (hf : f.Regular) (h : f.Holds n) (hn : 0 < n) : 0 < shown f n := by
  have hlow : 0 < (interval f n).low := by
    have hself := Nat.le_of_dvd hn h.spaced
    have hbelow : below f n ≤ 2 * step f n := below_le
    simp only [interval_eq]
    omega
  refine (mul_pos_iff_of_pos_left (one_pos f)).mp ?_
  exact (Nat.cast_pos.mpr hlow).trans_le (shown_holds hf h hn).bounds.1

@[simp] theorem shown_zero (f : Format) : shown f 0 = 0 := if_pos rfl

theorem shown_nonneg (hf : f.Regular) (h : f.Holds n) : 0 ≤ shown f n := by
  rcases Nat.eq_zero_or_pos n with rfl | hn
  · exact (shown_zero f).ge
  · exact (shown_pos hf h hn).le

theorem shown_lt (hf : f.Regular) (hm : f.Holds m) (hn : f.Holds n) (h : m < n) :
    shown f m < shown f n := by
  have hn' : 0 < n := Nat.zero_lt_of_lt h
  rcases Nat.eq_zero_or_pos m with rfl | hm'
  · exact shown_pos hf hn hn'
  · have hbefore := interval_before hf.precision_pos hm.spaced hn.spaced h
    exact lt_of_mul_lt_mul_left (hbefore.lt (shown_holds hf hm hm') (shown_holds hf hn hn'))
      (one_pos f).le

def value (x : Binary f) : ℚ := (x.toDecimal?.map Decimal.value).getD 0

theorem value_ofInt (i : Int) : (Decimal.ofInt i).value = i := by
  simp [Decimal.value, Decimal.ofInt]

theorem value_finite (s : Bool) (n : Nat) :
    (finite s n : Binary f).value = (if s then -1 else 1) * shown f n := by
  rw [value, toDecimal?, shown]
  split
  · simp [value_ofInt]
  · have hpow : (10 : ℚ) ^ (shortest f n).2.toNat * 10 ^ (-((-(shortest f n).2).toNat : Int)) =
        10 ^ (shortest f n).2 := by
      rw [← zpow_natCast, ← zpow_add₀ (by norm_num)]
      congr 1
      omega
    simp only [Option.map_some, Option.getD_some, Decimal.value, Int.pow_eq]
    push_cast
    rw [mul_assoc, hpow, mul_assoc]

def signedShown (f : Format) (units : Int) : ℚ := units.sign * shown f units.natAbs

theorem value_eq (x : Binary f) : x.value = signedShown f x.signedUnits := by
  cases x with
  | finite s n =>
    rcases Nat.eq_zero_or_pos n with rfl | hn
    · cases s <;> simp [value_finite, signedUnits, signedShown]
    · have hsign : (n : Int).sign = 1 := Int.sign_eq_one_of_pos (Int.natCast_pos.mpr hn)
      cases s <;> simp [value_finite, signedUnits, signedShown, hsign]
  | _ => simp [value, toDecimal?, signedUnits, signedShown]

theorem signedShown_of_neg {i : Int} (h : i < 0) : signedShown f i = -shown f i.natAbs := by
  rw [signedShown, Int.sign_eq_neg_one_of_neg h, Int.cast_neg, Int.cast_one, neg_one_mul]

theorem signedShown_of_pos {i : Int} (h : 0 < i) : signedShown f i = shown f i.natAbs := by
  rw [signedShown, Int.sign_eq_one_of_pos h, Int.cast_one, one_mul]

theorem signedShown_zero (f : Format) : signedShown f 0 = 0 := by
  rw [signedShown, Int.sign_zero, Int.cast_zero, zero_mul]

theorem signedShown_lt (hf : f.Regular) {i j : Int} (hi : f.Holds i.natAbs)
    (hj : f.Holds j.natAbs) (hlt : i < j) : signedShown f i < signedShown f j := by
  have hpos (k : Int) (hk : f.Holds k.natAbs) (h : k ≠ 0) : 0 < shown f k.natAbs :=
    shown_pos hf hk (Int.natAbs_pos.mpr h)
  rcases lt_trichotomy i 0 with hneg | rfl | hpos'
  · have hi' := hpos i hi hneg.ne
    rw [signedShown_of_neg hneg]
    rcases lt_trichotomy j 0 with hneg' | rfl | hpos''
    · rw [signedShown_of_neg hneg']
      exact neg_lt_neg (shown_lt hf hj hi (by omega))
    · rw [signedShown_zero]
      exact neg_lt_zero.mpr hi'
    · rw [signedShown_of_pos hpos'']
      exact (neg_lt_zero.mpr hi').trans (hpos j hj hpos''.ne')
  · rw [signedShown_zero, signedShown_of_pos hlt]
    exact hpos j hj hlt.ne'
  · rw [signedShown_of_pos hpos', signedShown_of_pos (hpos'.trans hlt)]
    exact shown_lt hf hi hj (by omega)

theorem Proper.holds {x : Binary f} (h : x.Proper) : f.Holds x.signedUnits.natAbs := by
  cases h with
  | @finite s n h => cases s <;> simpa [signedUnits] using h

/-- Finite numbers of a format and their shortest decimals are ordered alike. -/
theorem cmp_value (hf : f.Regular) {x y : Binary f} (hx : x.Proper) (hy : y.Proper) :
    cmp x.value y.value = cmp x.signedUnits y.signedUnits := by
  rw [value_eq, value_eq]
  rcases lt_trichotomy x.signedUnits y.signedUnits with h | h | h
  · rw [h.cmp_eq_lt, (signedShown_lt hf hx.holds hy.holds h).cmp_eq_lt]
  · rw [h, cmp_self_eq_eq, cmp_self_eq_eq]
  · rw [h.cmp_eq_gt, (signedShown_lt hf hy.holds hx.holds h).cmp_eq_gt]

theorem step_integer_le (hf : 0 < f.precision) (h : n < 2 ^ f.precision) :
    step f (n * f.one) ≤ f.one := by
  refine Nat.pow_le_pow_right (by decide) (spacing_le hf ?_)
  rw [Nat.mul_comm, pow_add]
  exact Nat.mul_lt_mul_of_pos_left h (Nat.two_pow_pos _)

theorem holds_integer (hf : 0 < f.precision) (hp : f.precision ≤ f.integerBits)
    (h : n < 2 ^ f.precision) : f.Holds (n * f.one) where
  spaced := step_dvd hf (k := f.fractionBits) (Nat.dvd_mul_left _ _) (by
    rw [Nat.mul_comm, pow_add]
    exact Nat.mul_le_mul_left _ h.le)
  bounded := by
    calc n * f.one < 2 ^ f.precision * f.one :=
          Nat.mul_lt_mul_of_pos_right h (Nat.two_pow_pos _)
      _ ≤ 2 ^ f.integerBits * f.one :=
          Nat.mul_le_mul_right _ (Nat.pow_le_pow_right (by decide) hp)
      _ = f.bound := (pow_add _ _ _).symm

theorem topExponent_integer_nonneg (hn : 0 < n) : 0 ≤ topExponent f (n * f.one) := by
  have hlog : f.fractionBits ≤ (n * f.one).log2 :=
    (Nat.le_log2 (Nat.mul_pos hn (Nat.two_pow_pos _)).ne').mpr (Nat.le_mul_of_pos_left _ hn)
  rw [topExponent]
  omega

theorem inside_self {s : Nat} (hn : 0 < n) (hs : 0 < s) :
    (interval f n).inside s (4 * n * s) = true := by
  have hstep : 0 < step f n := step_pos
  have hbelow : step f n ≤ below f n := step_le_below
  have hlow : (interval f n).low * s < 4 * n * s :=
    Nat.mul_lt_mul_of_pos_right (by simp only [interval_eq]; omega) hs
  have hhigh : 4 * n * s < (interval f n).high * s :=
    Nat.mul_lt_mul_of_pos_right (by simp only [interval_eq]; omega) hs
  rw [Interval.inside]
  split <;> simp [hlow, hhigh, hlow.le, hhigh.le]

theorem gridPoint?_integer (hn : 0 < n) : gridPoint? f (n * f.one) 0 = some n := by
  have hgrid : 4 * (n * f.one) * scale 0 = n * grid f 0 := by
    simp only [scale, grid, Int.neg_zero, Int.toNat_zero, pow_zero]
    ring
  have hinside : (interval f (n * f.one)).inside (scale 0) (n * grid f 0) = true := by
    rw [← hgrid]
    exact inside_self (Nat.mul_pos hn (Nat.two_pow_pos _)) (scale_pos 0)
  have hc : 4 * (n * f.one) * scale 0 / grid f 0 = n := by
    rw [hgrid, Nat.mul_div_cancel _ (grid_pos f 0)]
  have hfar : ¬(n + 1) * grid f 0 - n * grid f 0 ≤ n * grid f 0 - n * grid f 0 := by
    have := grid_pos f 0
    rw [Nat.add_mul]
    omega
  rw [gridPoint?_eq, hc]
  simp only [hinside, hgrid, hfar, Bool.not_true, Bool.false_or, decide_false, Bool.and_false,
    Bool.false_eq_true, if_false, if_true]

theorem eq_of_quarters_within {x : Nat} (hstep : step f (n * f.one) ≤ f.one)
    (hlow : (interval f (n * f.one)).low ≤ 4 * f.one * x)
    (hhigh : 4 * f.one * x ≤ (interval f (n * f.one)).high) : x = n := by
  have hone : 0 < f.one := Nat.two_pow_pos _
  have hbelow : below f (n * f.one) ≤ 2 * step f (n * f.one) := below_le
  simp only [interval_eq, Nat.mul_assoc, Nat.mul_comm f.one] at hlow hhigh hbelow hstep
  rcases lt_trichotomy x n with hlt | heq | hlt
  · have hgap : (x + 1) * f.one ≤ n * f.one := Nat.mul_le_mul_right _ hlt
    rw [Nat.add_mul] at hgap
    omega
  · exact heq
  · have hgap : (n + 1) * f.one ≤ x * f.one := Nat.mul_le_mul_right _ hlt
    rw [Nat.add_mul] at hgap
    omega

/-- Integers that the significant bits suffice for are shown as what they are. -/
theorem shown_integer (hf : f.Regular) (hp : f.precision ≤ f.integerBits)
    (h : n < 2 ^ f.precision) : shown f (n * f.one) = n := by
  rcases Nat.eq_zero_or_pos n with rfl | hn
  · simp
  have hpos : 0 < n * f.one := Nat.mul_pos hn (Nat.two_pow_pos _)
  have hholds := holds_integer hf.precision_pos hp h
  have hshort := (shortest_spec hf hholds hpos).2 0
  rw [gridPoint?_integer hn] at hshort
  have hexp : 0 ≤ (shortest f (n * f.one)).2 := by
    by_contra hneg
    cases hshort (not_le.mp hneg) (topExponent_integer_nonneg hn)
  obtain ⟨k, hk⟩ := Int.eq_ofNat_of_zero_le hexp
  have hbounds := (shown_holds hf hholds hpos).bounds
  have hshown : shown f (n * f.one) = ((shortest f (n * f.one)).1 * 10 ^ k : Nat) := by
    rw [shown, if_neg hpos.ne', hk]
    push_cast
    rfl
  rw [hshown] at hbounds ⊢
  generalize (shortest f (n * f.one)).1 * 10 ^ k = x at hbounds ⊢
  exact congrArg _ (eq_of_quarters_within (step_integer_le hf.precision_pos h)
    (by exact_mod_cast hbounds.1) (by exact_mod_cast hbounds.2))

end Binary

end DocTemplate
