import DocTemplate.Builtin.Call
import DocTemplate.Proofs.Number.Ordered
import DocTemplate.Proofs.Number.Whole
import DocTemplate.Proofs.Number.Wrapped

namespace DocTemplate

def FitsWidth (width : Nat) (i : ℤ) : Prop := -2 ^ (width - 1) ≤ i ∧ i < 2 ^ (width - 1)

instance (width : Nat) (i : ℤ) : Decidable (FitsWidth width i) :=
  inferInstanceAs (Decidable (_ ∧ _))

theorem FitsWidth.mono {i : ℤ} {v w : Nat} (h : v ≤ w) (hi : FitsWidth v i) : FitsWidth w i := by
  have hpow : (2 : ℤ) ^ (v - 1) ≤ 2 ^ (w - 1) := pow_le_pow_right₀ (by decide) (by omega)
  exact ⟨(neg_le_neg hpow).trans hi.1, hi.2.trans_le hpow⟩

theorem bmod_of_fitsWidth {i : ℤ} {w : Nat} (hw : 0 < w) (h : FitsWidth w i) :
    i.bmod (2 ^ w) = i := by
  have hpow : (2 : ℤ) ^ w = 2 ^ (w - 1) * 2 := by rw [← pow_succ, Nat.sub_add_cancel hw]
  obtain ⟨hlow, hhigh⟩ := h
  refine Int.bmod_eq_of_le_mul_two ?_ ?_
  · push_cast
    omega
  · push_cast
    omega

theorem fitsWidth_iff {i : ℤ} : FitsWidth 64 i ↔ Number.minLong ≤ i ∧ i ≤ Number.maxLong := by
  rw [FitsWidth, show Number.minLong = -2 ^ 63 from rfl, show Number.maxLong = 2 ^ 63 - 1 from rfl]
  omega

def saturate (i : ℤ) : ℤ := max Number.minLong (min Number.maxLong i)

theorem saturate_eq {i : ℤ} (h : FitsWidth 64 i) : saturate i = i := by
  obtain ⟨hlow, hhigh⟩ := fitsWidth_iff.mp h
  rw [saturate, min_eq_right hhigh, max_eq_right hlow]

theorem Decimal.not_fits (d : Decimal) (h : Number.longDigits < d.magnitude) :
    ¬FitsWidth 64 (towardZero d.value) := by
  have hne : d.unscaled ≠ 0 := fun hz => by
    rw [magnitude, if_pos (isZero_iff.mpr hz)] at h
    exact absurd h (by decide)
  have hlarge : (10 ^ 19 : Nat) ≤ |d.value| := by
    refine le_trans ?_ (le_abs_value hne)
    have hexp : (19 : ℤ) ≤ d.magnitude - 1 := Int.le_sub_one_of_lt h
    calc ((10 ^ 19 : Nat) : ℚ) = 10 ^ (19 : ℤ) := by norm_num
      _ ≤ 10 ^ (d.magnitude - 1) := zpow_le_zpow_right₀ (by norm_num) hexp
  have hfloor : 10 ^ 19 ≤ (towardZero d.value).natAbs := by
    rw [natAbs_towardZero]
    exact Nat.le_floor hlarge
  rw [FitsWidth]
  omega

def NumberType.width? : NumberType → Option Nat
  | byte => some 8
  | short => some 16
  | int => some 32
  | long => some 64
  | _ => none

theorem NumberType.width_bounds {t : NumberType} {w : Nat} (h : t.width? = some w) :
    0 < w ∧ w ≤ 64 := by
  cases t <;> cases h <;> decide

namespace Number

variable {a b n : Number} {target : NumberType} {w : Nat}

/-- What a finite number is. A floating-point number shows a decimal that is near to it. -/
def exact : Number → ℚ
  | float x => x.exact
  | double x => x.exact
  | n => n.value

def whole (n : Number) : ℤ := towardZero n.exact

def shownWhole (n : Number) : ℤ := towardZero n.value

theorem whole_of_not_floating (h : n.isFloating = false) : n.whole = n.shownWhole := by
  cases n with
  | float | double => cases h
  | _ => rfl

theorem toInt?_of_floating (hn : n.Proper) (h : n.isFloating = true) :
    n.toInt? = some (saturate n.whole) := by
  cases n with
  | float x => exact congrArg some (Binary.toIntWithin_eq hn _ _)
  | double x => exact congrArg some (Binary.toIntWithin_eq hn _ _)
  | _ => cases h

theorem shownWhole_integer {i : ℤ} (h : n.integer? = some i) : n.shownWhole = i := by
  rw [shownWhole, value, toDecimal?_integer h, Option.map_some, Option.getD_some,
    Decimal.value_ofInt, towardZero_intCast]

theorem toInt?_of_not_floating (h : n.isFloating = false) :
    n.toInt? = if FitsWidth 64 n.shownWhole then some n.shownWhole else none := by
  cases hi : n.integer? with
  | some i =>
    have hfits : FitsWidth 64 i := bounds_of_integer hi
    rw [toInt?_integer hi, shownWhole_integer hi, if_pos hfits]
  | none =>
    cases n with
    | decimal d =>
      have hwhole : (decimal d).shownWhole = d.truncate := d.truncate_eq.symm
      simp only [hwhole, toInt?, fitsWidth_iff]
      split
      next hm =>
        have hout := d.not_fits hm
        rw [← d.truncate_eq, fitsWidth_iff] at hout
        rw [if_neg hout]
      next => rfl
    | float | double => cases h
    | _ => cases hi

/-- Within 64 bits all numbers are cut to their integer part. -/
theorem toInt_toLong_of_fits (hn : n.Proper) (h : FitsWidth 64 n.whole) :
    n.toLong.toInt = n.whole := by
  have hwhole : n.toInt? = some n.whole := by
    cases hf : n.isFloating with
    | true => rw [toInt?_of_floating hn hf, saturate_eq h]
    | false =>
      rw [whole_of_not_floating hf] at h ⊢
      rw [toInt?_of_not_floating hf, if_pos h]
  rw [toLong, hwhole]
  exact Int64.toInt_ofInt_of_le h.1 h.2

theorem exists_convert (hw : target.width? = some w) (n : Number) :
    ∃ m, n.convert? target = some m ∧ m.type = target ∧
      m.integer? = some (n.toLong.toInt.bmod (2 ^ w)) := by
  cases target with
  | byte => cases hw; exact ⟨_, rfl, rfl, congrArg some n.toLong.toInt_toInt8⟩
  | short => cases hw; exact ⟨_, rfl, rfl, congrArg some n.toLong.toInt_toInt16⟩
  | int => cases hw; exact ⟨_, rfl, rfl, congrArg some n.toLong.toInt_toInt32⟩
  | long => cases hw; exact ⟨_, rfl, rfl, congrArg some n.toLong.toInt_bmod.symm⟩
  | _ => cases hw

theorem convert?_congr (hw : target.width? = some w) (h : a.toLong = b.toLong) :
    a.convert? target = b.convert? target := by
  cases target with
  | byte | short | int | long => rw [convert?, convert?, h]
  | _ => cases hw

/-- What a floating-point number shows has its integer part, as far as 64 bits tell. -/
def Steady (n : Number) : Prop := n.isFloating = true → saturate n.whole = saturate n.shownWhole

/-- Two numbers that, when they are equal, have the same integer of 64 bits. -/
def Kindred (a b : Number) : Prop :=
  a.tier = b.tier ∨
    a.Steady ∧ b.Steady ∧ (a.isFloating = b.isFloating ∨ FitsWidth 64 a.shownWhole)

def shownBits (n : Number) : Nat := if n.tier = .float then 24 else 53

/-- The significant bits of a floating-point number suffice for its integer part. -/
def Small (n : Number) : Prop := n.isFloating = true → n.whole.natAbs < 2 ^ n.shownBits

theorem Small.shownWhole_eq (hn : n.Proper) (h : n.Small) : n.shownWhole = n.whole := by
  cases n with
  | float x => exact Binary.towardZero_value Binary.single_regular (by decide) hn (h rfl)
  | double x => exact Binary.towardZero_value Binary.double_regular (by decide) hn (h rfl)
  | _ => rfl

theorem Small.fits (h : n.Small) (hf : n.isFloating = true) : FitsWidth 64 n.whole := by
  have hlt := h hf
  have hpow : 2 ^ n.shownBits ≤ 2 ^ 53 := Nat.pow_le_pow_right (by decide) (by
    rw [shownBits]
    split <;> decide)
  rw [FitsWidth]
  omega

theorem Small.kindred (ha : a.Proper) (hb : b.Proper) (hsa : a.Small) (hsb : b.Small)
    (h : a.value = b.value) : a.Kindred b := by
  have hwhole : a.shownWhole = b.shownWhole := congrArg towardZero h
  refine .inr ⟨fun _ => by rw [hsa.shownWhole_eq ha], fun _ => by rw [hsb.shownWhole_eq hb], ?_⟩
  cases hfa : a.isFloating with
  | true =>
    right
    rw [hsa.shownWhole_eq ha]
    exact hsa.fits hfa
  | false =>
    cases hfb : b.isFloating with
    | true =>
      right
      rw [hwhole, hsb.shownWhole_eq hb]
      exact hsb.fits hfb
    | false => exact .inl rfl

theorem whole_eq_of_tier (ha : a.Proper) (hb : b.Proper) (ht : a.tier = b.tier)
    (h : a.value = b.value) : a.whole = b.whole := by
  cases a with
  | float x =>
    cases b with
    | float y =>
      exact congrArg towardZero (Binary.exact_eq_of_value_eq Binary.single_regular ha hb h)
    | _ => cases ht
  | double x =>
    cases b with
    | double y =>
      exact congrArg towardZero (Binary.exact_eq_of_value_eq Binary.double_regular ha hb h)
    | _ => cases ht
  | _ =>
    cases b with
    | float | double => cases ht
    | _ => exact congrArg towardZero h

theorem toInt?_of_fits (hn : n.Proper) (hs : n.Steady) (h : FitsWidth 64 n.shownWhole) :
    n.toInt? = some n.shownWhole := by
  cases hf : n.isFloating with
  | true => rw [toInt?_of_floating hn hf, hs hf, saturate_eq h]
  | false => rw [toInt?_of_not_floating hf, if_pos h]

theorem toInt?_congr (ha : a.Proper) (hb : b.Proper) (hf : a.isFloating = b.isFloating)
    (hw : a.isFloating = true → saturate a.whole = saturate b.whole)
    (hs : a.shownWhole = b.shownWhole) : a.toInt? = b.toInt? := by
  cases hfa : a.isFloating with
  | true => rw [toInt?_of_floating ha hfa, toInt?_of_floating hb (hf ▸ hfa), hw hfa]
  | false => rw [toInt?_of_not_floating hfa, toInt?_of_not_floating (hf ▸ hfa), hs]

theorem Kindred.toLong_eq (ha : a.Proper) (hb : b.Proper) (h : a.Kindred b)
    (hv : a.value = b.value) : a.toLong = b.toLong := by
  have hshown : a.shownWhole = b.shownWhole := congrArg towardZero hv
  have hint : a.toInt? = b.toInt? := by
    rcases h with ht | ⟨hsa, hsb, hf | hfits⟩
    · exact toInt?_congr ha hb (by rw [isFloating, isFloating, ht])
        (fun _ => by rw [whole_eq_of_tier ha hb ht hv]) hshown
    · exact toInt?_congr ha hb hf (fun hfa => by rw [hsa hfa, hsb (hf ▸ hfa), hshown]) hshown
    · rw [toInt?_of_fits ha hsa hfits, toInt?_of_fits hb hsb (hshown ▸ hfits), hshown]
  rw [toLong, toLong, hint]

end Number

def Value.numeral? : Value → Option Number
  | .number n => some n
  | .str s => (Decimal.ofChars? (trimBlanks s.toList)).map .decimal
  | _ => none

namespace Builtin

variable {target : NumberType} {w : Nat} {u v : Value} {a b : Number}

theorem numberArgument_eq (hv : v.numeral? = some a) (target : NumberType) :
    numberArgument target v = .ok (some a) := by
  rw [Value.numeral?.eq_def] at hv
  split at hv
  next => exact congrArg Except.ok hv
  next =>
    obtain ⟨d, hd, rfl⟩ := Option.map_eq_some_iff.mp hv
    simp only [numberArgument, hd]
  next => cases hv

theorem call_cast (settings : Settings) (invoke : Invoke) (hv : v.numeral? = some a)
    {m : Number} (hm : a.convert? target = some m) :
    call settings invoke (.cast target) [v] = pure (.number m) := by
  have hconvert : convert target v = .ok (.number m) := by
    simp only [convert, numberArgument_eq hv, hm]
  rw [call, hconvert]
  rfl

/-- A conversion to an integer type always gives a number of that type, which is the integer part
of a number that fits it. Equal numbers have the same result when they are of one tier, or when the
floating-point numbers among them show their integer part; those do whose integer part is small. -/
theorem casts_respect_equality (settings : Settings) (invoke : Invoke)
    (hw : target.width? = some w) (hv : v.numeral? = some a) (hu : u.numeral? = some b)
    (ha : a.Proper) (hb : b.Proper) :
    ∃ m n : Number,
      call settings invoke (.cast target) [v] = pure (.number m) ∧
      call settings invoke (.cast target) [u] = pure (.number n) ∧
      m.type = target ∧ n.type = target ∧
      (FitsWidth w a.whole → m.integer? = some a.whole) ∧
      (FitsWidth w b.whole → n.integer? = some b.whole) ∧
      (a.Comparable b → Number.Gives .eq a b true → a.Kindred b ∨ a.Small ∧ b.Small → m = n) := by
  obtain ⟨hpos, hle⟩ := NumberType.width_bounds hw
  have hexact (c r : Number) (hc : c.Proper)
      (hr : r.integer? = some (c.toLong.toInt.bmod (2 ^ w))) (hfits : FitsWidth w c.whole) :
      r.integer? = some c.whole := by
    rw [hr, Number.toInt_toLong_of_fits hc (hfits.mono hle), bmod_of_fitsWidth hpos hfits]
  obtain ⟨m, hm, hmt, hmi⟩ := Number.exists_convert hw a
  obtain ⟨n, hn, hnt, hni⟩ := Number.exists_convert hw b
  refine ⟨m, n, call_cast settings invoke hv hm, call_cast settings invoke hu hn, hmt, hnt,
    hexact a m ha hmi, hexact b n hb hni, fun hcomp heq hk => ?_⟩
  have hvalue := (ha.equals_iff hb hcomp).mp (Number.gives_eq_iff.mp heq)
  have hkindred : a.Kindred b := hk.elim id fun h => h.1.kindred ha hb h.2 hvalue
  rw [Number.convert?_congr hw (hkindred.toLong_eq ha hb hvalue), hn] at hm
  exact Option.some.inj hm.symm

def twelveAndHalf : Double := .finite false (25 * Nat.pow 2 1073)

theorem casts_respect_equality_twelveAndHalf :
    let settings : Settings := ⟨.standard, none, default⟩
    let invoke : Invoke := fun _ _ => pure .null
    ∃ m : Number,
      call settings invoke (.cast .byte) [.number (.double twelveAndHalf)] = pure (.number m) ∧
      call settings invoke (.cast .byte) [.str "12.50"] = pure (.number m) ∧
      m.integer? = some 12 := by
  have hwhole : (Number.double twelveAndHalf).whole = 12 := by
    rw [Number.whole, Number.exact, twelveAndHalf, Binary.towardZero_exact]
    decide +kernel
  have hdecimal : (Number.double twelveAndHalf).toDecimal? = some ⟨125, 1⟩ := by decide +kernel
  have hcomparable : (Number.double twelveAndHalf).Comparable (.decimal ⟨1250, 2⟩) := by
    refine ⟨by decide +kernel, by decide +kernel, fun d e hd he => ?_⟩
    rw [hdecimal] at hd
    cases hd
    cases he
    exact Decimal.not_spills (by decide)
  have hwidth : NumberType.byte.width? = some 8 := rfl
  obtain ⟨m, n, hm, hn, -, -, hint, -, hall⟩ :=
    casts_respect_equality (v := .number (.double twelveAndHalf)) (u := .str "12.50")
      (a := .double twelveAndHalf) (b := .decimal ⟨1250, 2⟩)
      ⟨.standard, none, default⟩ (fun _ _ => pure .null) hwidth rfl (by decide +kernel)
      (by decide +kernel) trivial
  have hsmall : (Number.double twelveAndHalf).Small := fun _ => by
    rw [hwhole]
    decide
  have heq := hall hcomparable (Number.gives_eq_iff.mpr (by decide +kernel)) (.inr ⟨hsmall, nofun⟩)
  subst heq
  exact ⟨m, hm, hn, by rw [hint (by rw [hwhole]; decide), hwhole]⟩

/-- A floating-point number equals what it shows, and is converted as what it is. Past 64 bits it
stops at the bounds, where a decimal has no integer. The last two are unequal in value, and a lost
carry hides it. -/
theorem equal_numbers_cast_apart :
    let asLong (n : Number) : Run Value :=
      call ⟨.standard, none, default⟩ (fun _ _ => pure .null) (.cast .long) [.number n]
    let large := Number.double (.ofInt .double 18014398509481992)
    let huge := Number.double (.ofInt .double 10000000000000000000)
    let one := Number.decimal ⟨184467440739163113286456049664, 29⟩
    let two := Number.decimal ⟨26369560325342745088, 19⟩
    (large.Proper ∧ Number.Gives .eq large (.long 18014398509481990) true ∧
      asLong large = pure (.number (.long 18014398509481992)) ∧
      asLong (.long 18014398509481990) = pure (.number (.long 18014398509481990))) ∧
    (huge.Proper ∧ Number.Gives .eq huge (.decimal ⟨10000000000000000000, 0⟩) true ∧
      asLong huge = pure (.number (.long 9223372036854775807)) ∧
      asLong (.decimal ⟨10000000000000000000, 0⟩) = pure (.number (.long 0))) ∧
    Number.Gives .eq one two true ∧
      asLong one = pure (.number (.long 1)) ∧ asLong two = pure (.number (.long 2)) := by
  intro asLong large huge one two
  have hlong {n m : Number} (h : n.convert? .long = some m) : asLong n = pure (.number m) :=
    call_cast _ _ rfl h
  simp only [Number.gives_eq_iff]
  exact ⟨⟨by decide +kernel, by decide +kernel, hlong (by decide +kernel),
      hlong (by decide +kernel)⟩,
    ⟨by decide +kernel, by decide +kernel, hlong (by decide +kernel), hlong (by decide +kernel)⟩,
    by decide +kernel, hlong (by decide +kernel), hlong (by decide +kernel)⟩

end Builtin

end DocTemplate
