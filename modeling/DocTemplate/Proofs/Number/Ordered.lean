import Mathlib.Data.Rat.Floor
import Mathlib.Algebra.Order.Archimedean.Basic
import DocTemplate.Proofs.Number.Amount
import DocTemplate.Proofs.Number.Shortened
import DocTemplate.Run.Operator

namespace DocTemplate

namespace Binary

variable {f : Format} {x y : Binary f}

theorem rank_inj (hx : x.Proper) (hy : y.Proper) : x.rank = y.rank ↔ x = y := by
  constructor
  · intro h
    cases hx with
    | @finite s m =>
      cases hy with
      | @finite t n =>
        cases s <;> cases t <;> simp only [rank] at h <;> first | omega | (congr 1; omega)
  · exact congrArg rank

theorem rank_lt (hx : x.Proper) (hy : y.Proper) (h : x.signedUnits < y.signedUnits) :
    x.rank < y.rank := by
  cases hx with
  | @finite s m =>
    cases hy with
    | @finite t n =>
      cases s <;> cases t <;> simp only [signedUnits] at h <;> simp only [rank] <;> omega

theorem eq_of_signedUnits_eq (hx : x.Proper) (hy : y.Proper)
    (hz : x.isZero = true → y.isZero = true → x = y) (h : x.signedUnits = y.signedUnits) :
    x = y := by
  cases hx with
  | @finite s m =>
    cases hy with
    | @finite t n =>
      by_cases hst : s = t
      · subst hst
        cases s <;> simp only [signedUnits] at h <;> congr 1 <;> omega
      · have hm : m = 0 := by cases s <;> cases t <;> simp only [signedUnits] at h <;> grind
        have hn : n = 0 := by cases s <;> cases t <;> simp only [signedUnits] at h <;> grind
        subst hm hn
        exact hz rfl rfl

/-- Negative zero lies below zero; else the order of all numbers is that of their values. -/
theorem totalOrder_eq (hx : x.Proper) (hy : y.Proper)
    (hz : x.isZero = true → y.isZero = true → x = y) :
    x.totalOrder y = cmp x.signedUnits y.signedUnits := by
  rw [totalOrder, ← cmp_eq_compare]
  rcases lt_trichotomy x.signedUnits y.signedUnits with h | h | h
  · rw [h.cmp_eq_lt, (rank_lt hx hy h).cmp_eq_lt]
  · rw [h, cmp_self_eq_eq, eq_of_signedUnits_eq hx hy hz h, cmp_self_eq_eq]
  · rw [h.cmp_eq_gt, (rank_lt hy hx h).cmp_eq_gt]

theorem value_integer {i : Int} (h : i.natAbs < 2 ^ 53) : (ofInt .double i).value = i := by
  have hholds := holds_integer (f := .double) (by decide) (by decide) h
  rw [ofInt_holds hholds, value_finite, shown_integer double_regular (by decide) h, Nat.cast_natAbs]
  rcases lt_or_ge i 0 with hneg | hpos
  · simp [hneg, abs_of_neg hneg]
  · simp [hpos.not_gt, abs_of_nonneg hpos]

theorem Proper.isFinite (h : x.Proper) : x.isFinite = true := by
  cases h
  rfl

end Binary

namespace Number

variable {a b c : Number} {op : OrderOp} {r r' : Bool}

def Proper : Number → Prop
  | float x => x.Proper
  | double x => x.Proper
  | _ => True

instance : DecidablePred Proper
  | float x => inferInstanceAs (Decidable x.Proper)
  | double x => inferInstanceAs (Decidable x.Proper)
  | byte _ | short _ | int _ | long _ | decimal _ => .isTrue trivial

def isInteger (n : Number) : Bool := n.tier == .int || n.tier == .long

def isSingle (n : Number) : Bool := n.tier == .float

def value (n : Number) : ℚ := (n.toDecimal?.map Decimal.value).getD 0

/-- The 64-bit floating-point number nearest to the number shows the same decimal. -/
def Faithful (n : Number) : Prop := n.value = n.toDouble.value

/-- Order and equality look at the same values of the two numbers. -/
def Coherent (a b : Number) : Prop :=
  a.isDecimal ∨ b.isDecimal ∨ (a.isInteger ∧ b.isInteger) ∨ (a.isSingle ∧ b.isSingle) ∨
    (a.Faithful ∧ b.Faithful)

/-- Zeros of different signs. They are equal, and yet one lies below the other. -/
def OppositeZeros (a b : Number) : Prop :=
  a.isDecimal = false ∧ b.isDecimal = false ∧ a.toDouble.isZero ∧ b.toDouble.isZero ∧
    a.toDouble ≠ b.toDouble

instance (a b : Number) : Decidable (a.OppositeZeros b) :=
  inferInstanceAs (Decidable (_ ∧ _ ∧ _ ∧ _ ∧ _))

theorem Proper.toDecimal (h : a.Proper) : ∃ d, a.toDecimal? = some d ∧ d.value = a.value := by
  have hsome : a.toDecimal?.isSome := by
    cases a with
    | float x => exact x.isSome_toDecimal?.trans (Binary.Proper.isFinite h)
    | double x => exact x.isSome_toDecimal?.trans (Binary.Proper.isFinite h)
    | _ => rfl
  obtain ⟨d, hd⟩ := Option.isSome_iff_exists.mp hsome
  exact ⟨d, hd, by rw [value, hd]; rfl⟩

theorem exists_integer (h : a.isInteger = true) :
    ∃ i : Int, i.natAbs ≤ Binary.integerBound ∧ a.value = i ∧ a.toLong.toInt = i ∧
      a.toDouble = .ofInt .double i := by
  have hspec (i : Int) (hlo : -2 ^ 63 ≤ i) (hhi : i < 2 ^ 63) :
      i.natAbs ≤ Binary.integerBound ∧ (Int64.ofInt i).toInt = i := by
    rw [Binary.integerBound]
    exact ⟨by omega, Int64.toInt_ofInt_of_le hlo hhi⟩
  cases a with
  | byte n =>
    have hn := hspec n.toInt (by have := n.le_toInt; omega) (by have := n.toInt_lt; omega)
    exact ⟨n.toInt, hn.1, Binary.value_ofInt _, hn.2, rfl⟩
  | short n =>
    have hn := hspec n.toInt (by have := n.le_toInt; omega) (by have := n.toInt_lt; omega)
    exact ⟨n.toInt, hn.1, Binary.value_ofInt _, hn.2, rfl⟩
  | int n =>
    have hn := hspec n.toInt (by have := n.le_toInt; omega) (by have := n.toInt_lt; omega)
    exact ⟨n.toInt, hn.1, Binary.value_ofInt _, hn.2, rfl⟩
  | long n =>
    have hn := hspec n.toInt n.le_toInt n.toInt_lt
    exact ⟨n.toInt, hn.1, Binary.value_ofInt _, hn.2, rfl⟩
  | _ => cases h

theorem faithful_double (x : Double) : (double x).Faithful := rfl

theorem faithful_of_isInteger (h : a.isInteger = true) (hbits : a.toLong.toInt.natAbs < 2 ^ 53) :
    a.Faithful := by
  obtain ⟨i, -, hi, hlong, hdouble⟩ := exists_integer h
  rw [hlong] at hbits
  rw [Faithful, hi, hdouble, Binary.value_integer hbits]

theorem faithful_of_tier (h : a.tier = .int) : a.Faithful := by
  have hi : a.isInteger = true := by rw [isInteger, h]; rfl
  have hsmall (i : Int) (hlo : -2 ^ 31 ≤ i) (hhi : i < 2 ^ 31) :
      (Int64.ofInt i).toInt.natAbs < 2 ^ 53 := by
    rw [Int64.toInt_ofInt_of_le (by omega) (by omega)]
    omega
  refine faithful_of_isInteger hi ?_
  cases a with
  | byte n => exact hsmall n.toInt (by have := n.le_toInt; omega) (by have := n.toInt_lt; omega)
  | short n => exact hsmall n.toInt (by have := n.le_toInt; omega) (by have := n.toInt_lt; omega)
  | int n => exact hsmall n.toInt n.le_toInt n.toInt_lt
  | _ => cases h

theorem compare_of_isDecimal (ha : a.Proper) (hb : b.Proper)
    (h : (a.isDecimal || b.isDecimal) = true) : a.compare b = cmp a.value b.value := by
  obtain ⟨d, hd, hdv⟩ := ha.toDecimal
  obtain ⟨e, he, hev⟩ := hb.toDecimal
  rw [compare, h, hd, he, ← hdv, ← hev]
  exact Decimal.compare_eq d e

theorem compare_eq_compareFixed (h : (a.isDecimal || b.isDecimal) = false) :
    a.compare b = a.compareFixed b := by
  rw [compare, h]

theorem isInteger_eq (n : Number) : n.isInteger = !(n.isFloating || n.isDecimal) := by
  cases n <;> rfl

theorem compareFixed_eq (a b : Number) :
    a.compareFixed b = if a.isInteger && b.isInteger then Ord.compare a.toLong.toInt b.toLong.toInt
      else a.toDouble.totalOrder b.toDouble := by
  rw [compareFixed, isInteger_eq, isInteger_eq]
  cases a.isFloating <;> cases b.isFloating <;> cases a.isDecimal <;> cases b.isDecimal <;> rfl

theorem compare_of_isInteger (ha : a.isInteger = true) (hb : b.isInteger = true) :
    a.compare b = cmp a.value b.value := by
  obtain ⟨i, -, hi, hil, -⟩ := exists_integer ha
  obtain ⟨j, -, hj, hjl, -⟩ := exists_integer hb
  have hd : (a.isDecimal || b.isDecimal) = false := by
    rw [isInteger_eq] at ha hb
    grind
  rw [compare_eq_compareFixed hd, compareFixed_eq, ha, hb, hil, hjl, hi, hj,
    Int.cast_strictMono.cmp_map_eq]
  exact (cmp_eq_compare i j).symm

theorem compare_of_floating (hd : (a.isDecimal || b.isDecimal) = false)
    (hi : (a.isInteger && b.isInteger) = false) :
    a.compare b = a.toDouble.totalOrder b.toDouble := by
  rw [compare_eq_compareFixed hd, compareFixed_eq, hi]
  rfl

theorem Proper.toDouble (ha : a.Proper) (h : a.isDecimal = false) : a.toDouble.Proper := by
  by_cases hi : a.isInteger = true
  · obtain ⟨i, hbound, -, -, hdouble⟩ := exists_integer hi
    have hproper := Binary.proper_ofInt (f := .double) (by decide) (by decide) hbound
    rwa [hdouble]
  · cases a with
    | float x => exact (Binary.double_widens_single.convert_proper ha).1
    | double x => exact ha
    | decimal => cases h
    | _ =>
      exfalso
      exact hi rfl

theorem totalOrder_toDouble (ha : a.Proper) (hb : b.Proper) (hda : a.isDecimal = false)
    (hdb : b.isDecimal = false) (hz : ¬a.OppositeZeros b) :
    a.toDouble.totalOrder b.toDouble = cmp a.toDouble.signedUnits b.toDouble.signedUnits := by
  refine Binary.totalOrder_eq (ha.toDouble hda) (hb.toDouble hdb) fun hza hzb => ?_
  by_contra hne
  exact hz ⟨hda, hdb, hza, hzb, hne⟩

theorem cmp_units_of_isSingle (ha : a.Proper) (hb : b.Proper) (h : a.isSingle = true)
    (h' : b.isSingle = true) :
    cmp a.toDouble.signedUnits b.toDouble.signedUnits = cmp a.value b.value := by
  cases a with
  | float x =>
    cases b with
    | float y =>
      have hx := (Binary.double_widens_single.convert_proper ha).2
      have hy := (Binary.double_widens_single.convert_proper hb).2
      have hvalue := Binary.cmp_value Binary.single_regular ha hb
      change cmp (x.convert .double).signedUnits (y.convert .double).signedUnits =
        cmp x.value y.value
      rw [hx, hy, hvalue, cmp_mul_pos_right (by positivity)]
    | _ => cases h'
  | _ => cases h

theorem cmp_units_of_faithful (ha : a.Proper) (hb : b.Proper) (hda : a.isDecimal = false)
    (hdb : b.isDecimal = false) (h : a.Faithful) (h' : b.Faithful) :
    cmp a.toDouble.signedUnits b.toDouble.signedUnits = cmp a.value b.value := by
  rw [h, h', Binary.cmp_value Binary.double_regular (ha.toDouble hda) (hb.toDouble hdb)]

/-- Coherent numbers are compared by their values, or as floating-point numbers that are ordered as
these are. -/
theorem Coherent.compare_cases (ha : a.Proper) (hb : b.Proper) (h : a.Coherent b) :
    a.compare b = cmp a.value b.value ∨
      a.isDecimal = false ∧ b.isDecimal = false ∧
        a.compare b = a.toDouble.totalOrder b.toDouble ∧
        cmp a.toDouble.signedUnits b.toDouble.signedUnits = cmp a.value b.value := by
  by_cases hd : (a.isDecimal || b.isDecimal) = true
  · exact .inl (compare_of_isDecimal ha hb hd)
  by_cases hi : (a.isInteger && b.isInteger) = true
  · exact .inl (compare_of_isInteger (Bool.and_eq_true_iff.mp hi).1 (Bool.and_eq_true_iff.mp hi).2)
  have hfloat := compare_of_floating (eq_false_of_ne_true hd) (eq_false_of_ne_true hi)
  obtain ⟨hda, hdb⟩ : a.isDecimal = false ∧ b.isDecimal = false := by simpa using hd
  refine .inr ⟨hda, hdb, hfloat, ?_⟩
  rcases h with h | h | ⟨h, h'⟩ | ⟨h, h'⟩ | ⟨h, h'⟩
  · exact absurd (by rw [h, Bool.true_or]) hd
  · exact absurd (by rw [h, Bool.or_true]) hd
  · exact absurd (by rw [h, h', Bool.true_and]) hi
  · exact cmp_units_of_isSingle ha hb h h'
  · exact cmp_units_of_faithful ha hb hda hdb h h'

theorem Coherent.compare_eq (ha : a.Proper) (hb : b.Proper) (h : a.Coherent b)
    (hz : ¬a.OppositeZeros b) : a.compare b = cmp a.value b.value := by
  rcases h.compare_cases ha hb with h | ⟨hda, hdb, hc, hu⟩
  · exact h
  · rw [hc, totalOrder_toDouble ha hb hda hdb hz, hu]

/-- Numbers in order do not have decimals in the opposite order. -/
def Follows (a b : Number) : Prop := a.compare b = .lt → a.value ≤ b.value

/-- Numbers are in order when their decimals are. -/
def Separates (a b : Number) : Prop := a.value < b.value → a.compare b = .lt

theorem Coherent.separates (ha : a.Proper) (hb : b.Proper) (h : a.Coherent b) :
    a.Separates b := by
  intro hlt
  rcases h.compare_cases ha hb with h | ⟨hda, hdb, hc, hu⟩
  · rw [h, hlt.cmp_eq_lt]
  · have hunits := (lt_iff_lt_of_cmp_eq_cmp hu).mpr hlt
    rw [hc, Binary.totalOrder, ← cmp_eq_compare]
    exact (Binary.rank_lt (ha.toDouble hda) (hb.toDouble hdb) hunits).cmp_eq_lt

theorem Coherent.follows (ha : a.Proper) (hb : b.Proper) (h : a.Coherent b) : a.Follows b := by
  intro hlt
  rcases h.compare_cases ha hb with h | ⟨hda, hdb, hc, hu⟩
  · exact ((cmp_eq_lt_iff _ _).mp (h.symm.trans hlt)).le
  · rw [hc, Binary.totalOrder, ← cmp_eq_compare, cmp_eq_lt_iff] at hlt
    rw [← le_iff_le_of_cmp_eq_cmp hu]
    by_contra hgt
    exact lt_asymm hlt (Binary.rank_lt (hb.toDouble hdb) (ha.toDouble hda) (not_le.mp hgt))

theorem rank_mono (ha : a.isInteger = true) (hb : b.isInteger = true)
    (h : a.toLong.toInt ≤ b.toLong.toInt) : a.toDouble.rank ≤ b.toDouble.rank := by
  obtain ⟨i, hi, -, hil, hid⟩ := exists_integer ha
  obtain ⟨j, hj, -, hjl, hjd⟩ := exists_integer hb
  have hmono := Binary.rank_ofInt_mono (f := .double) (by decide) (by decide) hi hj
  rw [hil, hjl] at h
  rw [hid, hjd]
  exact hmono h

theorem compareFixed_lt_iff : a.compareFixed b = .lt ↔
    if a.isInteger && b.isInteger then a.toLong.toInt < b.toLong.toInt
      else a.toDouble.rank < b.toDouble.rank := by
  rw [compareFixed_eq]
  split
  · rw [Int.compare_eq_lt]
  · rw [Binary.totalOrder, Int.compare_eq_lt]

/-- Integers among themselves are compared exactly, and with other numbers after a rounding that
keeps their order. -/
theorem compareFixed_lt_trans (hab : a.compareFixed b = .lt) (hbc : b.compareFixed c = .lt) :
    a.compareFixed c = .lt := by
  have hmono (x y : Number) (hx : x.isInteger = true) (hy : y.isInteger = true) :
      x.toLong.toInt ≤ y.toLong.toInt → x.toDouble.rank ≤ y.toDouble.rank := rank_mono hx hy
  rw [compareFixed_lt_iff] at hab hbc ⊢
  by_cases hac : (a.isInteger && c.isInteger) = true
  · obtain ⟨ha, hc⟩ := Bool.and_eq_true_iff.mp hac
    rw [if_pos hac]
    have hca := hmono c a hc ha
    cases hb : b.isInteger <;> simp [ha, hb, hc] at hab hbc <;> omega
  · rw [if_neg hac]
    have hle := hmono a b
    have hle' := hmono b c
    cases ha : a.isInteger <;> cases hb : b.isInteger <;> cases hc : c.isInteger <;>
      simp [ha, hb, hc] at hab hbc hac hle hle' <;> omega

/-- None of the three numbers is a decimal, or else the order of each two agrees with that of their
decimals. Only two that are no decimals themselves can disagree. -/
def Chained (a b c : Number) : Prop :=
  (a.isDecimal = false ∧ b.isDecimal = false ∧ c.isDecimal = false) ∨
    (a.Follows b ∧ b.Follows c ∧ a.Separates c)

theorem compare_lt_trans (ha : a.Proper) (hb : b.Proper) (hc : c.Proper) (h : a.Chained b c)
    (hab : a.compare b = .lt) (hbc : b.compare c = .lt) : a.compare c = .lt := by
  by_cases hd : a.isDecimal = false ∧ b.isDecimal = false ∧ c.isDecimal = false
  · obtain ⟨hda, hdb, hdc⟩ := hd
    rw [compare_eq_compareFixed (by rw [hda, hdb]; rfl)] at hab
    rw [compare_eq_compareFixed (by rw [hdb, hdc]; rfl)] at hbc
    rw [compare_eq_compareFixed (by rw [hda, hdc]; rfl)]
    exact compareFixed_lt_trans hab hbc
  · obtain ⟨follows, follows', separates⟩ := h.resolve_left hd
    have hle := follows hab
    have hle' := follows' hbc
    refine separates ?_
    -- The decimal among the three is strictly apart from one that it is compared with.
    by_cases hd : (a.isDecimal || b.isDecimal) = true
    · rw [compare_of_isDecimal ha hb hd, cmp_eq_lt_iff] at hab
      exact hab.trans_le hle'
    · have hd' : (b.isDecimal || c.isDecimal) = true := by grind
      rw [compare_of_isDecimal hb hc hd', cmp_eq_lt_iff] at hbc
      exact hle.trans_lt hbc

theorem exists_decimal_between {p q : ℚ} (h : p < q) :
    ∃ d : Decimal, p < d.value ∧ d.value < q := by
  obtain ⟨k, hk⟩ := exists_pow_lt_of_lt_one (sub_pos.mpr h) (by norm_num : (1 / 10 : ℚ) < 1)
  have hpow : (0 : ℚ) < 10 ^ k := by positivity
  have hvalue : (⟨⌊p * 10 ^ k⌋ + 1, k⟩ : Decimal).value = (⌊p * 10 ^ k⌋ + 1) / 10 ^ k := by
    rw [Decimal.value, zpow_neg, zpow_natCast, div_eq_mul_inv]
    push_cast
    rfl
  refine ⟨⟨⌊p * 10 ^ k⌋ + 1, k⟩, ?_, ?_⟩
  · rw [hvalue, lt_div_iff₀ hpow]
    exact Int.lt_floor_add_one _
  · calc (⟨⌊p * 10 ^ k⌋ + 1, k⟩ : Decimal).value
        = (⌊p * 10 ^ k⌋ + 1) / 10 ^ k := hvalue
      _ ≤ (p * 10 ^ k + 1) / 10 ^ k := by gcongr; exact Int.floor_le _
      _ = p + (1 / 10) ^ k := by rw [add_div, mul_div_cancel_right₀ _ hpow.ne', one_div_pow]
      _ < q := by linarith

theorem decimal_lt_iff {d : Decimal} (ha : a.Proper) :
    (decimal d).compare a = .lt ↔ d.value < a.value := by
  have hd : (decimal d).Proper := trivial
  rw [compare_of_isDecimal hd ha rfl, cmp_eq_lt_iff]
  rfl

theorem lt_decimal_iff {d : Decimal} (ha : a.Proper) :
    a.compare (decimal d) = .lt ↔ a.value < d.value := by
  have hd : (decimal d).Proper := trivial
  rw [compare_of_isDecimal ha hd (Bool.or_true _), cmp_eq_lt_iff]
  rfl

/-- Where two numbers are in order, and their decimals in the opposite order, a decimal between
these breaks the chain, above them as well as below. -/
theorem follows_iff_above (ha : a.Proper) (hb : b.Proper) : a.Follows b ↔
    ∀ d, a.compare b = .lt → b.compare (decimal d) = .lt → a.compare (decimal d) = .lt := by
  simp only [lt_decimal_iff ha, lt_decimal_iff hb]
  refine ⟨fun h d hab hbd => (h hab).trans_lt hbd, fun h hab => ?_⟩
  by_contra hlt
  obtain ⟨d, hbd, hda⟩ := exists_decimal_between (not_le.mp hlt)
  exact lt_asymm hda (h d hab hbd)

theorem follows_iff_below (ha : a.Proper) (hb : b.Proper) : a.Follows b ↔
    ∀ d, (decimal d).compare a = .lt → a.compare b = .lt → (decimal d).compare b = .lt := by
  simp only [decimal_lt_iff ha, decimal_lt_iff hb]
  refine ⟨fun h d hda hab => hda.trans_le (h hab), fun h hab => ?_⟩
  by_contra hlt
  obtain ⟨d, hbd, hda⟩ := exists_decimal_between (not_le.mp hlt)
  exact lt_asymm hbd (h d hda hab)

theorem separates_iff (ha : a.Proper) (hb : b.Proper) : a.Separates b ↔
    ∀ d, a.compare (decimal d) = .lt → (decimal d).compare b = .lt → a.compare b = .lt := by
  simp only [lt_decimal_iff ha, decimal_lt_iff hb]
  refine ⟨fun h d had hdb => h (had.trans hdb), fun h hlt => ?_⟩
  obtain ⟨d, had, hdb⟩ := exists_decimal_between hlt
  exact h d had hdb

theorem Proper.isNaN (h : a.Proper) : a.isNaN = false := by
  cases a with
  | float x => cases h; rfl
  | double x => cases h; rfl
  | _ => rfl

theorem Proper.equals_iff (ha : a.Proper) (hb : b.Proper) (h : a.Comparable b) :
    a.equals b = true ↔ a.value = b.value := by
  obtain ⟨d, hd, hdv⟩ := ha.toDecimal
  obtain ⟨e, he, hev⟩ := hb.toDecimal
  rw [Number.equals_iff ha.isNaN hb.isNaN h, amount?, amount?, hd, he, ← hdv, ← hev]
  simp

/-- Order and equality tell the two numbers apart alike: they are coherent, or the same
floating-point number is nearest to both exactly when they show the same decimal. -/
def Alike (a b : Number) : Prop := a.Coherent b ∨ (a.toDouble = b.toDouble ↔ a.value = b.value)

theorem Alike.compare_eq_iff (ha : a.Proper) (hb : b.Proper) (h : a.Alike b)
    (hz : ¬a.OppositeZeros b) : a.compare b = .eq ↔ a.value = b.value := by
  by_cases hcoh : a.Coherent b
  · rw [hcoh.compare_eq ha hb hz, cmp_eq_eq_iff]
  · have hd : (a.isDecimal || b.isDecimal) = false := by
      rw [Coherent] at hcoh
      grind
    have hi : (a.isInteger && b.isInteger) = false := by
      rw [Coherent] at hcoh
      grind
    obtain ⟨hda, hdb⟩ : a.isDecimal = false ∧ b.isDecimal = false := by simpa using hd
    rw [compare_of_floating hd hi, Binary.totalOrder, Int.compare_eq_eq,
      Binary.rank_inj (ha.toDouble hda) (hb.toDouble hdb)]
    exact h.resolve_left hcoh

/-- The operator has the result `r` for the two numbers, and leaves the store alone. -/
def Gives (op : BinaryOp) (a b : Number) (r : Bool) : Prop :=
  Run.binary op (.number a) (.number b) = pure (.bool r)

theorem pure_bool_inj : (pure (.bool r) : Run Value) = pure (.bool r') ↔ r = r' := by
  constructor
  · intro h
    have hstep : (Except.ok (Value.bool r), (default : Store)) = (Except.ok (.bool r'), default) :=
      congrArg (fun x : Run Value => x default) h
    cases r <;> cases r' <;> first | rfl | cases hstep
  · rintro rfl
    rfl

theorem gives_order_iff : Gives (.order op) a b r ↔ op.holds (a.compare b) = r := pure_bool_inj

theorem gives_eq_iff : Gives .eq a b r ↔ a.equals b = r := pure_bool_inj

theorem gives_lt_iff : Gives (.order .lt) a b true ↔ a.compare b = .lt :=
  gives_order_iff.trans Ordering.isLT_iff_eq_lt

/-- All comparisons of finite numbers have results, and the weak ones contradict the strict ones.
For numbers that order and equality tell apart alike, exactly one of `<`, `==` and `>` holds, and
the weak comparisons follow. Chained numbers in order have the first below the last; and when each
decimal that can stand above, below or between two numbers makes a chain with them, they agree with
their decimals as `Chained` asks. -/
theorem comparisons_consistent (ha : a.Proper) (hb : b.Proper) (hc : c.Proper) :
    (∃ lt le eq ge gt : Bool,
      (Gives (.order .lt) a b lt ∧ Gives (.order .le) a b le ∧ Gives .eq a b eq ∧
        Gives (.order .ge) a b ge ∧ Gives (.order .gt) a b gt) ∧
      le = !gt ∧ ge = !lt ∧ (lt && gt) = false ∧
      (a.Alike b → ¬a.OppositeZeros b → a.Comparable b →
        [lt, eq, gt].count true = 1 ∧ le = (lt || eq) ∧ ge = (gt || eq))) ∧
    (a.Chained b c → Gives (.order .lt) a b true → Gives (.order .lt) b c true →
      Gives (.order .lt) a c true) ∧
    (a.Follows b ↔ ∀ d, Gives (.order .lt) a b true → Gives (.order .lt) b (decimal d) true →
      Gives (.order .lt) a (decimal d) true) ∧
    (a.Follows b ↔ ∀ d, Gives (.order .lt) (decimal d) a true → Gives (.order .lt) a b true →
      Gives (.order .lt) (decimal d) b true) ∧
    (a.Separates b ↔ ∀ d, Gives (.order .lt) a (decimal d) true →
      Gives (.order .lt) (decimal d) b true → Gives (.order .lt) a b true) := by
  simp only [gives_lt_iff]
  refine ⟨?_, compare_lt_trans ha hb hc, follows_iff_above ha hb, follows_iff_below ha hb,
    separates_iff ha hb⟩
  refine ⟨_, _, _, _, _, ⟨gives_order_iff.mpr rfl, gives_order_iff.mpr rfl, gives_eq_iff.mpr rfl,
    gives_order_iff.mpr rfl, gives_order_iff.mpr rfl⟩, ?_, ?_, ?_, ?_⟩
  · cases a.compare b <;> rfl
  · cases a.compare b <;> rfl
  · cases a.compare b <;> rfl
  · intro halike hz hcomp
    have heq : a.equals b = (a.compare b == .eq) := by
      rw [Bool.eq_iff_iff, ha.equals_iff hb hcomp, beq_iff_eq, halike.compare_eq_iff ha hb hz]
    rw [heq]
    cases a.compare b <;> decide

def threeHalves : Number := double (.ofScientific .double false 15 (-1))

theorem comparisons_consistent_threeHalves :
    (∃ lt le eq ge gt : Bool,
      (Gives (.order .lt) (byte 1) threeHalves lt ∧ Gives (.order .le) (byte 1) threeHalves le ∧
        Gives .eq (byte 1) threeHalves eq ∧ Gives (.order .ge) (byte 1) threeHalves ge ∧
        Gives (.order .gt) (byte 1) threeHalves gt) ∧
      [lt, eq, gt].count true = 1 ∧ le = (lt || eq) ∧ ge = (gt || eq)) ∧
    Gives (.order .lt) (byte 1) (decimal ⟨2, 0⟩) true := by
  have hone : (byte 1).Faithful := faithful_of_tier rfl
  have hcoherent : (byte 1).Coherent threeHalves :=
    .inr (.inr (.inr (.inr ⟨hone, faithful_double _⟩)))
  have hdecimal : threeHalves.toDecimal? = some ⟨15, 1⟩ := by decide +kernel
  have hcomparable : (byte 1).Comparable threeHalves := by
    refine ⟨by decide +kernel, by decide +kernel, fun d e hd he => ?_⟩
    rw [hdecimal] at he
    cases hd
    cases he
    exact Decimal.not_spills (by decide)
  obtain ⟨⟨lt, le, eq, ge, gt, hgives, -, -, -, hone⟩, htrans, -⟩ :=
    comparisons_consistent (a := byte 1) (b := threeHalves) (c := decimal ⟨2, 0⟩)
      trivial (by decide +kernel) trivial
  refine ⟨⟨lt, le, eq, ge, gt, hgives, hone (.inl hcoherent) (by decide +kernel) hcomparable⟩, ?_⟩
  have hthreeHalves : threeHalves.Proper := by decide +kernel
  have hsecond : threeHalves.Coherent (decimal ⟨2, 0⟩) := .inr (.inl rfl)
  have houter : (byte 1).Coherent (decimal ⟨2, 0⟩) := .inr (.inl rfl)
  exact htrans (.inr ⟨hcoherent.follows trivial hthreeHalves, hsecond.follows hthreeHalves trivial,
    houter.separates trivial trivial⟩) (gives_lt_iff.mpr (by decide +kernel))
    (gives_lt_iff.mpr (by decide +kernel))

/-- A long integer is rounded beside a floating-point number, but neither for equality nor beside a
decimal. So a decimal finds its place between two numbers that are not in order. -/
theorem long_apart_from_nearest :
    let a := long 9007199254740993
    let b := double (.ofInt .double 9007199254740992)
    let d := decimal ⟨90071992547409925, 1⟩
    a.Proper ∧ b.Proper ∧ Gives (.order .lt) a b false ∧ Gives .eq a b false ∧
      Gives (.order .gt) a b false ∧ Gives (.order .le) a b true ∧ Gives (.order .ge) a b true ∧
      Gives (.order .lt) b d true ∧ Gives (.order .lt) d a true ∧
      Gives (.order .lt) b a false := by
  simp only [gives_order_iff, gives_eq_iff]
  exact ⟨trivial, by decide +kernel⟩

end Number

end DocTemplate
