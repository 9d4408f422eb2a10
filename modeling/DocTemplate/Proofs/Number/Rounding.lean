import Mathlib.Data.Nat.Log
import Mathlib.Tactic.Positivity
import DocTemplate.Number.Binary

namespace DocTemplate

section Quotients

variable {tie : TieRule} {m n den : Nat}

theorem roundRatio_le : roundRatio tie n den ≤ n / den + 1 := by
  rw [roundRatio]
  split <;> omega

theorem le_roundRatio : n / den ≤ roundRatio tie n den := by
  rw [roundRatio]
  split <;> omega

theorem roundRatio_mono (h : m ≤ n) : roundRatio tie m den ≤ roundRatio tie n den := by
  rcases (Nat.div_le_div_right (c := den) h).lt_or_eq with hlt | heq
  · exact roundRatio_le.trans (hlt.trans_le le_roundRatio)
  · have hm := Nat.div_add_mod m den
    have hn := Nat.div_add_mod n den
    rw [← heq] at hn
    simp only [roundRatio, ← heq]
    grind

theorem roundRatio_mul_self (hden : 0 < den) : roundRatio tie (n * den) den = n := by
  rw [roundRatio, Nat.mul_div_cancel _ hden, Nat.mul_mod_left, if_neg (by omega)]

end Quotients

namespace Binary

variable {f : Format} {k m n den : Nat} {negative : Bool}

def step (f : Format) (units : Nat) : Nat := 2 ^ spacing f units

theorem step_pos : 0 < step f n := Nat.two_pow_pos _

theorem spacing_mono (h : m ≤ n) : spacing f m ≤ spacing f n := by
  have hlog : m.log2 ≤ n.log2 := by
    simpa only [Nat.log2_eq_log_two] using Nat.log_mono_right h
  rw [spacing, spacing]
  omega

theorem lt_step_mul : n < step f n * 2 ^ f.precision := by
  rw [step, ← pow_add]
  refine Nat.lt_log2_self.trans_le (Nat.pow_le_pow_right (by decide) ?_)
  rw [spacing]
  omega

theorem step_mul_le (hf : 0 < f.precision) (h : 1 < step f n) :
    step f n * 2 ^ (f.precision - 1) ≤ n := by
  have hs : spacing f n ≠ 0 := fun hs => by simp [step, hs] at h
  rw [spacing] at hs
  have hn : n ≠ 0 := by
    rintro rfl
    rw [Nat.log2_zero] at hs
    omega
  have hlog : n.log2 + 1 - f.precision + (f.precision - 1) = n.log2 := by omega
  rw [step, spacing, ← pow_add, hlog]
  exact Nat.log2_self_le hn

theorem spacing_le (hf : 0 < f.precision) (h : n < 2 ^ (k + f.precision)) : spacing f n ≤ k := by
  rcases Nat.eq_zero_or_pos n with rfl | hn
  · rw [spacing, Nat.log2_zero]
    omega
  · have hlog := (Nat.log2_lt hn.ne').mpr h
    rw [spacing]
    omega

theorem step_dvd (hf : 0 < f.precision) (hd : 2 ^ k ∣ n) (h : n ≤ 2 ^ (k + f.precision)) :
    step f n ∣ n := by
  rcases h.lt_or_eq with hlt | rfl
  · exact (pow_dvd_pow 2 (spacing_le hf hlt)).trans hd
  · rw [step, spacing, Nat.log2_two_pow]
    exact pow_dvd_pow 2 (by omega)

structure Format.Holds (f : Format) (units : Nat) : Prop where
  spaced : step f units ∣ units
  bounded : units < f.bound

instance (f : Format) (units : Nat) : Decidable (f.Holds units) :=
  decidable_of_iff (step f units ∣ units ∧ units < f.bound)
    ⟨fun h => ⟨h.1, h.2⟩, fun h => ⟨h.1, h.2⟩⟩

def nearest (f : Format) (n : Nat) : Nat := roundRatio .even n (step f n) * step f n

theorem ofUnits_mul (hden : 0 < den) :
    ofUnits f negative (n * den) den =
      if roundRatio .even (n * den) (den * step f n) * step f n < f.bound then
        finite negative (roundRatio .even (n * den) (den * step f n) * step f n)
      else infinity negative := by
  rw [ofUnits, Nat.mul_div_cancel _ hden]
  rfl

theorem ofUnits_holds (h : f.Holds n) (hden : 0 < den) :
    ofUnits f negative (n * den) den = finite negative n := by
  have hround : roundRatio .even (n * den) (den * step f n) * step f n = n := by
    obtain ⟨q, hq⟩ := h.spaced
    have hn : n * den = q * (den * step f n) := by
      conv_lhs => rw [hq]
      ac_rfl
    rw [hn, roundRatio_mul_self (Nat.mul_pos hden step_pos), Nat.mul_comm, ← hq]
  rw [ofUnits_mul hden, hround, if_pos h.bounded]

theorem ofUnits_one :
    ofUnits f negative n 1 =
      if nearest f n < f.bound then finite negative (nearest f n) else infinity negative := by
  have h : ofUnits f negative (n * 1) 1 = _ := ofUnits_mul Nat.one_pos
  rwa [Nat.mul_one, Nat.one_mul] at h

theorem nearest_eq_self (h : step f n ∣ n) : nearest f n = n := by
  obtain ⟨q, hq⟩ := h
  have hn : n = q * step f n := hq.trans (Nat.mul_comm _ _)
  calc nearest f n = roundRatio .even (q * step f n) (step f n) * step f n := by
        rw [nearest, ← hn]
    _ = n := by rw [roundRatio_mul_self step_pos, ← hn]

theorem nearest_le : nearest f n ≤ step f n * 2 ^ f.precision := by
  have hq : n / step f n < 2 ^ f.precision := Nat.div_lt_of_lt_mul lt_step_mul
  rw [nearest, Nat.mul_comm]
  exact Nat.mul_le_mul_left _ (roundRatio_le.trans hq)

theorem step_dvd_nearest (hf : 0 < f.precision) : step f (nearest f n) ∣ nearest f n :=
  step_dvd hf (Nat.dvd_mul_left _ _) (nearest_le.trans_eq (pow_add _ _ _).symm)

theorem nearest_mono (hf : 0 < f.precision) (h : m ≤ n) : nearest f m ≤ nearest f n := by
  rcases (spacing_mono (f := f) h).lt_or_eq with hlt | heq
  · have hone : 1 < step f n := Nat.one_lt_two_pow (by omega)
    have hhalf : step f m * 2 ^ f.precision ≤ 2 ^ (f.precision - 1) * step f n := by
      rw [step, step, ← pow_add, ← pow_add]
      exact Nat.pow_le_pow_right (by decide) (by omega)
    have hq : 2 ^ (f.precision - 1) ≤ n / step f n :=
      (Nat.le_div_iff_mul_le step_pos).mpr (by rw [Nat.mul_comm]; exact step_mul_le hf hone)
    calc nearest f m ≤ step f m * 2 ^ f.precision := nearest_le
      _ ≤ 2 ^ (f.precision - 1) * step f n := hhalf
      _ ≤ nearest f n := Nat.mul_le_mul_right _ (hq.trans le_roundRatio)
  · rw [nearest, nearest, step, step, heq]
    exact Nat.mul_le_mul_right _ (roundRatio_mono h)

inductive Proper : Binary f → Prop
  | finite {negative : Bool} {n : Nat} (h : f.Holds n) : Proper (.finite negative n)

theorem proper_finite_iff : (finite negative n : Binary f).Proper ↔ f.Holds n := by
  constructor
  · intro h
    cases h
    assumption
  · exact .finite

instance : DecidablePred (@Proper f)
  | nan _ => .isFalse nofun
  | infinity _ => .isFalse nofun
  | finite _ _ => decidable_of_iff _ proper_finite_iff.symm

def integerBound : Nat := 2 ^ 63

theorem nearest_integer_lt (hf : 0 < f.precision) (hbits : 63 < f.integerBits)
    (h : m ≤ integerBound) : nearest f (m * f.one) < f.bound := by
  have hpow : integerBound * f.one = 2 ^ (63 + f.fractionBits) := (pow_add _ _ _).symm
  have hself : nearest f (integerBound * f.one) = integerBound * f.one := by
    refine nearest_eq_self (step_dvd hf hpow.symm.dvd ?_)
    exact hpow.le.trans (Nat.pow_le_pow_right (by decide) (by omega))
  calc nearest f (m * f.one)
      ≤ nearest f (integerBound * f.one) := nearest_mono hf (Nat.mul_le_mul_right _ h)
    _ = 2 ^ (63 + f.fractionBits) := hself.trans hpow
    _ < f.bound := Nat.pow_lt_pow_right (by decide) (by omega)

section Integers

variable {i j : Int}

theorem ofInt_eq_ofUnits : ofInt f i = ofUnits f (i < 0) (i.natAbs * f.one) 1 := by
  have hone : (0 : Int) < f.one := Int.natCast_pos.mpr (Nat.two_pow_pos _)
  have hsign : i * f.one < 0 ↔ i < 0 := by
    rw [← not_le, ← not_le, mul_nonneg_iff_of_pos_right hone]
  rw [ofInt, ofSignedUnits, Int.natAbs_mul, Int.natAbs_natCast, decide_eq_decide.mpr hsign]

theorem ofInt_eq (hf : 0 < f.precision) (hbits : 63 < f.integerBits)
    (h : i.natAbs ≤ integerBound) :
    ofInt f i = finite (i < 0) (nearest f (i.natAbs * f.one)) := by
  rw [ofInt_eq_ofUnits, ofUnits_one, if_pos (nearest_integer_lt hf hbits h)]

theorem proper_ofInt (hf : 0 < f.precision) (hbits : 63 < f.integerBits)
    (h : i.natAbs ≤ integerBound) : (ofInt f i).Proper := by
  rw [ofInt_eq hf hbits h]
  exact .finite ⟨step_dvd_nearest hf, nearest_integer_lt hf hbits h⟩

theorem ofInt_holds (h : f.Holds (i.natAbs * f.one)) :
    ofInt f i = finite (i < 0) (i.natAbs * f.one) := by
  rw [ofInt_eq_ofUnits, ofUnits_one, nearest_eq_self h.spaced, if_pos h.bounded]

theorem rank_ofInt_mono (hf : 0 < f.precision) (hbits : 63 < f.integerBits)
    (hi : i.natAbs ≤ integerBound) (hj : j.natAbs ≤ integerBound) (h : i ≤ j) :
    (ofInt f i).rank ≤ (ofInt f j).rank := by
  rw [ofInt_eq hf hbits hi, ofInt_eq hf hbits hj]
  rcases lt_or_ge i 0 with hneg | hpos
  · rcases lt_or_ge j 0 with hneg' | hpos'
    · have hle : nearest f (j.natAbs * f.one) ≤ nearest f (i.natAbs * f.one) :=
        nearest_mono hf (Nat.mul_le_mul_right _ (by omega))
      simp only [hneg, hneg', decide_true, rank]
      omega
    · simp only [hneg, hpos'.not_gt, decide_true, decide_false, rank]
      omega
  · have hle : nearest f (i.natAbs * f.one) ≤ nearest f (j.natAbs * f.one) :=
      nearest_mono hf (Nat.mul_le_mul_right _ (by omega))
    simp only [hpos.not_gt, (hpos.trans h).not_gt, decide_false, rank]
    omega

end Integers

section Widening

variable {g : Format}

/-- A wider format has all numbers of a narrower one, at `2 ^ k` times as many units. -/
structure Widens (f g : Format) (k : Nat) : Prop where
  precision_pos : 0 < f.precision
  precision : f.precision ≤ g.precision
  fraction : f.fractionBits + k = g.fractionBits
  integer : f.integerBits ≤ g.integerBits

theorem double_widens_single : Widens .single .double 925 := by constructor <;> decide

theorem Widens.holds (hw : Widens f g k) (h : f.Holds n) : g.Holds (n * 2 ^ k) where
  spaced := by
    have hd : 2 ^ (spacing f n + k) ∣ n * 2 ^ k := by
      rw [pow_add]
      exact Nat.mul_dvd_mul_right h.spaced _
    refine step_dvd (hw.precision_pos.trans_le hw.precision) hd ?_
    calc n * 2 ^ k ≤ step f n * 2 ^ f.precision * 2 ^ k :=
          Nat.mul_le_mul_right _ lt_step_mul.le
      _ = 2 ^ (spacing f n + f.precision + k) := by rw [step, pow_add, pow_add]
      _ ≤ 2 ^ (spacing f n + k + g.precision) :=
          Nat.pow_le_pow_right (by decide) (by have := hw.precision; omega)
  bounded := by
    calc n * 2 ^ k < f.bound * 2 ^ k := Nat.mul_lt_mul_of_pos_right h.bounded (by positivity)
      _ = 2 ^ (f.integerBits + f.fractionBits + k) := (pow_add _ _ _).symm
      _ ≤ g.bound :=
          Nat.pow_le_pow_right (by decide) (by have := hw.integer; have := hw.fraction; omega)

theorem Widens.convert_finite (hw : Widens f g k) (h : f.Holds n) :
    (finite negative n : Binary f).convert g = finite negative (n * 2 ^ k) := by
  have hone : g.one = 2 ^ k * f.one := by
    rw [Format.one, Format.one, ← hw.fraction, Nat.add_comm]
    exact pow_add _ _ _
  rw [convert, hone, ← Nat.mul_assoc]
  exact ofUnits_holds (hw.holds h) (Nat.two_pow_pos _)

theorem Widens.convert_proper (hw : Widens f g k) {x : Binary f} (h : x.Proper) :
    (x.convert g).Proper ∧ (x.convert g).signedUnits = x.signedUnits * 2 ^ k := by
  cases h with
  | @finite s n h =>
    rw [hw.convert_finite h]
    refine ⟨.finite (hw.holds h), ?_⟩
    cases s <;> simp [signedUnits]

end Widening

end Binary

end DocTemplate
