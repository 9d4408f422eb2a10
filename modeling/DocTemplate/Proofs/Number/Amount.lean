import DocTemplate.Number.Arithmetic
import DocTemplate.Proofs.Number.Valued

namespace DocTemplate

namespace Binary

variable {f : Format}

theorem equals_comm (x y : Binary f) : x.equals y = y.equals x := by
  cases x <;> cases y <;> simp only [equals, Bool.beq_comm]

theorem isSome_toDecimal? (x : Binary f) : x.toDecimal?.isSome = x.isFinite := by
  cases x with
  | finite => rw [toDecimal?]; split <;> rfl
  | _ => rfl

theorem eq_infinity {x : Binary f} (h : x.toDecimal? = none) (hx : x.isNaN = false) :
    ∃ negative, x = .infinity negative := by
  cases x with
  | nan _ => cases hx
  | infinity negative => exact ⟨negative, rfl⟩
  | finite negative n =>
    have hsome := isSome_toDecimal? (finite negative n : Binary f)
    rw [h] at hsome
    cases hsome

end Binary

namespace Number

variable {x y z : Number}

def isNaN : Number → Bool
  | float x => x.isNaN
  | double x => x.isNaN
  | _ => false

inductive Amount where
  | finite (q : ℚ)
  | infinite (negative : Bool)

/-- Only what is not a number stands for nothing. -/
def amount? (n : Number) : Option Amount :=
  match n.toDecimal?, n.toDouble with
  | some d, _ => some (.finite d.value)
  | none, .infinity negative => some (.infinite negative)
  | none, _ => none

theorem exists_infinity (h : x.toDecimal? = none) (hx : x.isNaN = false) :
    ∃ negative, x.toDouble = .infinity negative := by
  cases x with
  | float x =>
    obtain ⟨negative, rfl⟩ := Binary.eq_infinity h hx
    exact ⟨negative, rfl⟩
  | double x =>
    obtain ⟨negative, rfl⟩ := Binary.eq_infinity h hx
    exact ⟨negative, rfl⟩
  | _ => cases h

def Overflows (x y : Number) : Prop :=
  x.toDecimal? = none ∧ y.toDecimal?.isSome ∧ y.toDouble = x.toDouble

instance (x y : Number) : Decidable (x.Overflows y) := inferInstanceAs (Decidable (_ ∧ _ ∧ _))

/-- Neither is an infinity that the other overflows to, and no carry is lost between them. -/
structure Comparable (x y : Number) : Prop where
  left : ¬x.Overflows y
  right : ¬y.Overflows x
  decimals : ∀ d e, x.toDecimal? = some d → y.toDecimal? = some e → ¬d.Spills e

theorem Comparable.symm (h : x.Comparable y) : y.Comparable x :=
  ⟨h.right, h.left, fun d e hd he hs => h.decimals e d he hd hs.symm⟩

theorem comparable_self (x : Number) : x.Comparable x := by
  have hover : ¬x.Overflows x := by
    rintro ⟨hnone, hsome, -⟩
    rw [hnone] at hsome
    cases hsome
  refine ⟨hover, hover, fun d e hd he => ?_⟩
  obtain rfl := Option.some.inj (hd.symm.trans he)
  exact Decimal.not_spills (by rw [sub_self]; decide)

theorem equals_comm (x y : Number) : x.equals y = y.equals x := by
  rw [equals, equals]
  cases x.toDecimal? with
  | none => cases y.toDecimal? <;> exact Binary.equals_comm _ _
  | some d =>
    cases y.toDecimal? with
    | none => exact Binary.equals_comm _ _
    | some e => exact Decimal.equals_comm d e

theorem not_equals_of_infinity {e : Decimal} (hx : x.isNaN = false) (h : ¬x.Overflows y)
    (hdx : x.toDecimal? = none) (hdy : y.toDecimal? = some e) : ¬x.equals y = true := by
  obtain ⟨negative, hs⟩ := exists_infinity hdx hx
  have hy : y.toDouble ≠ .infinity negative := fun hy =>
    h ⟨hdx, by rw [hdy]; rfl, hy.trans hs.symm⟩
  rw [equals, hdx, hdy]
  dsimp only
  rw [hs]
  cases hd : y.toDouble with
  | infinity negative' =>
    rw [hd] at hy
    simpa [Binary.equals] using fun hn => hy (congrArg _ hn.symm)
  | _ => exact nofun

theorem equals_iff (hx : x.isNaN = false) (hy : y.isNaN = false) (h : x.Comparable y) :
    x.equals y = true ↔ x.amount? = y.amount? := by
  cases hdx : x.toDecimal? with
  | none =>
    obtain ⟨negative, hs⟩ := exists_infinity hdx hx
    cases hdy : y.toDecimal? with
    | none =>
      obtain ⟨negative', ht⟩ := exists_infinity hdy hy
      rw [equals, amount?, amount?, hdx, hdy, hs, ht]
      simp [Binary.equals]
    | some e =>
      refine iff_of_false (not_equals_of_infinity hx h.left hdx hdy) ?_
      rw [amount?, amount?, hdx, hdy, hs]
      exact nofun
  | some d =>
    cases hdy : y.toDecimal? with
    | none =>
      obtain ⟨negative, hs⟩ := exists_infinity hdy hy
      rw [equals_comm]
      refine iff_of_false (not_equals_of_infinity hy h.right hdy hdx) ?_
      rw [amount?, amount?, hdx, hdy, hs]
      exact nofun
    | some e =>
      rw [equals, amount?, amount?, hdx, hdy]
      simpa using Decimal.equals_iff (h.decimals d e hdx hdy)

/-- Infinity equals decimals that differ. -/
example : let huge := decimal ⟨1, -400⟩
    let huger := decimal ⟨1, -500⟩
    let infinite := double (.infinity false)
    huge.equals infinite ∧ infinite.equals huger ∧ ¬huge.equals huger := by
  decide +kernel

theorem equals_self (hx : x.isNaN = false) : x.equals x = true :=
  (equals_iff hx hx x.comparable_self).mpr rfl

theorem equals_trans (hx : x.isNaN = false) (hy : y.isNaN = false) (hz : z.isNaN = false)
    (hxy : x.Comparable y) (hyz : y.Comparable z) (hxz : x.Comparable z)
    (h : x.equals y = true) (h' : y.equals z = true) : x.equals z = true :=
  (equals_iff hx hz hxz).mpr
    (((equals_iff hx hy hxy).mp h).trans ((equals_iff hy hz hyz).mp h'))

end Number

end DocTemplate
