import DocTemplate.Proofs.Number.Valued
import DocTemplate.Run.Operator

namespace DocTemplate

namespace ArithOp

def onInt : ArithOp → Int → Int → Int
  | add, a, b => a + b
  | sub, a, b => a - b
  | mul, a, b => a * b
  | div, a, b => a.tdiv b
  | rem, a, b => a.tmod b

theorem toInt_onInt32 (op : ArithOp) (a b : Int32) :
    (op.onInt32 a b).toInt = (op.onInt a.toInt b.toInt).bmod (2 ^ 32) := by
  cases op with
  | add => exact Int32.toInt_add a b
  | sub => exact Int32.toInt_sub a b
  | mul => exact Int32.toInt_mul a b
  | div => exact Int32.toInt_div a b
  | rem =>
    rw [onInt, ← Int32.toInt_mod]
    exact (Int32.toInt_bmod (a % b)).symm

theorem toInt_onInt64 (op : ArithOp) (a b : Int64) :
    (op.onInt64 a b).toInt = (op.onInt a.toInt b.toInt).bmod (2 ^ 64) := by
  cases op with
  | add => exact Int64.toInt_add a b
  | sub => exact Int64.toInt_sub a b
  | mul => exact Int64.toInt_mul a b
  | div => exact Int64.toInt_div a b
  | rem =>
    rw [onInt, ← Int64.toInt_mod]
    exact (Int64.toInt_bmod (a % b)).symm

/-- A quotient times the divisor, and the remainder, make up the dividend in any width, also when
each result is reduced to that width. -/
theorem bmod_recomposed (a b : Int) (k : Nat) :
    (add.onInt ((mul.onInt ((div.onInt a b).bmod k) b).bmod k) ((rem.onInt a b).bmod k)).bmod k =
      a.bmod k :=
  calc (((a.tdiv b).bmod k * b).bmod k + (a.tmod b).bmod k).bmod k
      = (a.tdiv b * b + a.tmod b).bmod k := by
        rw [Int.bmod_mul_bmod, Int.add_bmod_bmod, Int.bmod_add_bmod]
    _ = a.bmod k := by rw [Int.tdiv_mul_add_tmod]

end ArithOp

def NumberType.bits : NumberType → Nat
  | .long => 64
  | _ => 32

namespace Number

def integer? : Number → Option Int
  | byte n => some n.toInt
  | short n => some n.toInt
  | int n => some n.toInt
  | long n => some n.toInt
  | _ => none

def integerType (m n : Number) : NumberType :=
  if m.type = .long ∨ n.type = .long then .long else .int

/-- A number of a type that holds the low bits of an integer, with their sign. -/
structure Wraps (r : Number) (type : NumberType) (i : Int) : Prop where
  type_eq : r.type = type
  integer : r.integer? = some (i.bmod (2 ^ type.bits))

section

variable {m n r : Number} {a b : Int}

theorem narrow_or_long (h : m.integer? = some a) :
    m.tier = .int ∧ m.type ≠ .long ∨ m.tier = .long ∧ m.type = .long := by
  cases m with
  | byte | short | int => exact .inl ⟨rfl, nofun⟩
  | long => exact .inr ⟨rfl, rfl⟩
  | _ => cases h

theorem tier_join (hm : m.integer? = some a) (hn : n.integer? = some b) :
    m.tier.join n.tier = if m.type = .long ∨ n.type = .long then .long else .int := by
  rcases narrow_or_long hm with ⟨hmt, hml⟩ | ⟨hmt, hml⟩ <;>
    rcases narrow_or_long hn with ⟨hnt, hnl⟩ | ⟨hnt, hnl⟩ <;>
    simp [hmt, hml, hnt, hnl, Tier.join, Tier.level]

theorem bounds_of_integer (h : m.integer? = some a) : -2 ^ 63 ≤ a ∧ a < 2 ^ 63 := by
  cases m with
  | byte n =>
    obtain rfl := Option.some.inj h
    exact ⟨by have := n.le_toInt; omega, by have := n.toInt_lt; omega⟩
  | short n =>
    obtain rfl := Option.some.inj h
    exact ⟨by have := n.le_toInt; omega, by have := n.toInt_lt; omega⟩
  | int n =>
    obtain rfl := Option.some.inj h
    exact ⟨by have := n.le_toInt; omega, by have := n.toInt_lt; omega⟩
  | long n =>
    obtain rfl := Option.some.inj h
    exact ⟨n.le_toInt, n.toInt_lt⟩
  | _ => cases h

theorem toInt?_integer (h : m.integer? = some a) : m.toInt? = some a := by
  cases m with
  | byte | short | int | long => exact h
  | _ => cases h

theorem toInt_toLong (h : m.integer? = some a) : m.toLong.toInt = a := by
  obtain ⟨hlow, hhigh⟩ := bounds_of_integer h
  rw [toLong, toInt?_integer h]
  exact Int64.toInt_ofInt_of_le hlow hhigh

theorem toInt_toInt32 (h : m.integer? = some a) (hl : m.type ≠ .long) : m.toInt32.toInt = a := by
  cases m with
  | byte n =>
    obtain rfl := Option.some.inj h
    exact Int32.toInt_ofInt_of_le (by have := n.le_toInt; omega) (by have := n.toInt_lt; omega)
  | short n =>
    obtain rfl := Option.some.inj h
    exact Int32.toInt_ofInt_of_le (by have := n.le_toInt; omega) (by have := n.toInt_lt; omega)
  | int n => exact Option.some.inj h
  | long => exact absurd rfl hl
  | _ => cases h

theorem bmod_integer (hm : m.integer? = some a) (n : Number) :
    a.bmod (2 ^ (integerType m n).bits) = a := by
  rw [integerType]
  split
  next => rw [← toInt_toLong hm]; exact Int64.toInt_bmod _
  next hl =>
    rw [← toInt_toInt32 hm (not_or.mp hl).1]
    exact Int32.toInt_bmod _

theorem isZero_iff_integer (h : m.integer? = some a) : m.isZero = true ↔ a = 0 := by
  cases m with
  | byte n => rw [← Option.some.inj h, isZero, beq_iff_eq, ← Int8.toInt_inj]; rfl
  | short n => rw [← Option.some.inj h, isZero, beq_iff_eq, ← Int16.toInt_inj]; rfl
  | int n => rw [← Option.some.inj h, isZero, beq_iff_eq, ← Int32.toInt_inj]; rfl
  | long n => rw [← Option.some.inj h, isZero, beq_iff_eq, ← Int64.toInt_inj]; rfl
  | _ => cases h

theorem toDecimal?_integer (h : m.integer? = some a) : m.toDecimal? = some (.ofInt a) := by
  cases m with
  | byte | short | int | long => rw [← Option.some.inj h]; rfl
  | _ => cases h

theorem equals_of_integer (hm : m.integer? = some a) (hn : n.integer? = some a) :
    m.equals n = true := by
  rw [equals, toDecimal?_integer hm, toDecimal?_integer hn]
  exact (Decimal.equals_iff (Decimal.not_spills (by simp))).mpr rfl

theorem wraps_fixedArithmetic (hm : m.integer? = some a) (hn : n.integer? = some b)
    (op : ArithOp) : (fixedArithmetic (m.tier.join n.tier) op m n).Wraps (integerType m n)
      (op.onInt a b) := by
  rw [tier_join hm hn, integerType]
  split
  next =>
    refine ⟨rfl, congrArg some ?_⟩
    rw [ArithOp.toInt_onInt64, toInt_toLong hm, toInt_toLong hn]
    rfl
  next hl =>
    obtain ⟨hml, hnl⟩ := not_or.mp hl
    refine ⟨rfl, congrArg some ?_⟩
    rw [ArithOp.toInt_onInt32, toInt_toInt32 hm hml, toInt_toInt32 hn hnl]
    rfl

theorem arithmetic_integers (hm : m.integer? = some a) (hn : n.integer? = some b)
    (op : ArithOp) : m.arithmetic op n =
      if op.divides = true ∧ b = 0 then .error (.zeroDivisor op)
      else .ok (fixedArithmetic (m.tier.join n.tier) op m n) := by
  have hdecimal : m.tier.join n.tier ≠ .decimal := by
    rw [tier_join hm hn]
    split <;> exact nofun
  rw [arithmetic]
  split
  next htier => exact absurd htier hdecimal
  next => simp only [Bool.and_eq_true, isZero_iff_integer hn]

theorem integerType_left (h : r.type = integerType m n) : integerType r n = integerType m n := by
  by_cases hn : n.type = .long <;> by_cases hm : m.type = .long <;>
    simp [integerType, h, hm, hn]

theorem integerType_both (hr : r.type = integerType m n) {q : Number}
    (hq : q.type = integerType m n) : integerType r q = integerType m n := by
  by_cases h : m.type = .long ∨ n.type = .long <;> simp [integerType, hr, hq, h]

end

end Number

namespace Run

def recomposed (l r : Value) : Run Value := do
  let quotient ← binary (.arith .div) l r
  let product ← binary (.arith .mul) quotient r
  let remainder ← binary (.arith .rem) l r
  let sum ← binary (.arith .add) product remainder
  binary .eq sum l

variable {m n : Number} {a b : Int}

theorem binary_arith (op : ArithOp) (m n : Number) :
    binary (.arith op) (.number m) (.number n) = ofExcept (Value.arithmetic op m n) := rfl

theorem binary_eq_integers (hm : m.integer? = some a) (hn : n.integer? = some a) :
    binary .eq (.number m) (.number n) = pure (.bool true) := by
  have hequals : equals (.number m) (.number n) = pure true := by
    have hstore (s : Store) : s.equals? (.number m) (.number n) = some (m.equals n) := rfl
    rw [equals]
    simp only [hstore, Number.equals_of_integer hm hn]
    rfl
  rw [binary, hequals]
  rfl

theorem binary_divisor_zero {op : ArithOp} (hm : m.integer? = some a) (hn : n.integer? = some b)
    (h : op.divides = true ∧ b = 0) :
    binary (.arith op) (.number m) (.number n) = raise (.operand (.zeroDivisor op)) := by
  rw [binary_arith, Value.arithmetic, Number.arithmetic_integers hm hn, if_pos h]
  rfl

theorem exists_binary_wraps (op : ArithOp) (hm : m.integer? = some a) (hn : n.integer? = some b)
    (h : ¬(op.divides = true ∧ b = 0)) :
    ∃ r, binary (.arith op) (.number m) (.number n) = pure (.number r) ∧
      r.Wraps (Number.integerType m n) (op.onInt a b) := by
  refine ⟨_, ?_, Number.wraps_fixedArithmetic hm hn op⟩
  rw [binary_arith, Value.arithmetic, Number.arithmetic_integers hm hn, if_neg h]
  rfl

theorem recomposed_eq (hm : m.integer? = some a) (hn : n.integer? = some b) (hb : b ≠ 0) :
    recomposed (.number m) (.number n) = pure (.bool true) := by
  have hdivisor (op : ArithOp) : ¬(op.divides = true ∧ b = 0) := fun h => hb h.2
  obtain ⟨q, hquotient, hq⟩ := exists_binary_wraps .div hm hn (hdivisor _)
  obtain ⟨p, hproduct, hp⟩ := exists_binary_wraps .mul hq.integer hn (hdivisor _)
  rw [Number.integerType_left hq.type_eq] at hp
  obtain ⟨r, hremainder, hr⟩ := exists_binary_wraps .rem hm hn (hdivisor _)
  obtain ⟨s, hsum, hs⟩ := exists_binary_wraps .add hp.integer hr.integer nofun
  rw [Number.integerType_both hp.type_eq hr.type_eq] at hs
  have hdividend : s.integer? = some a := by
    rw [hs.integer, ArithOp.bmod_recomposed, Number.bmod_integer hm]
  rw [recomposed, hquotient, pure_bind, hproduct, pure_bind, hremainder, pure_bind, hsum,
    pure_bind, binary_eq_integers hdividend hm]

/-- Arithmetic on integers is exact up to the width of its result, which is that of a long where an
operand is one and of an int else. It fails for a zero divisor and for nothing else, and a quotient
and a remainder always make up the dividend again. -/
theorem binary_integers (hm : m.integer? = some a) (hn : n.integer? = some b) :
    (∀ op : ArithOp,
      if op.divides = true ∧ b = 0 then
        binary (.arith op) (.number m) (.number n) = raise (.operand (.zeroDivisor op))
      else
        ∃ r, binary (.arith op) (.number m) (.number n) = pure (.number r) ∧
          r.Wraps (Number.integerType m n) (op.onInt a b)) ∧
      (b ≠ 0 → recomposed (.number m) (.number n) = pure (.bool true)) := by
  refine ⟨fun op => ?_, recomposed_eq hm hn⟩
  split
  next h => exact binary_divisor_zero hm hn h
  next h => exact exists_binary_wraps op hm hn h

/-- The least int has no quotient by minus one within its width. -/
theorem binary_integers_leastInt :
    (Number.int Int32.minValue).integer? = some (-2147483648) ∧
      (Number.byte (-1)).integer? = some (-1) ∧
      binary (.arith .div) (.number (.int Int32.minValue)) (.number (.byte (-1))) =
        pure (.number (.int Int32.minValue)) ∧
      (∀ op : ArithOp, ∃ r,
        binary (.arith op) (.number (.int Int32.minValue)) (.number (.byte (-1))) =
            pure (.number r) ∧
          r.Wraps .int (op.onInt (-2147483648) (-1))) ∧
      recomposed (.number (.int Int32.minValue)) (.number (.byte (-1))) = pure (.bool true) := by
  have hm : (Number.int Int32.minValue).integer? = some (-2147483648) := by decide
  have hn : (Number.byte (-1)).integer? = some (-1) := by decide
  obtain ⟨hall, hsum⟩ := binary_integers hm hn
  refine ⟨hm, hn, rfl, fun op => ?_, hsum (by decide)⟩
  have hop := hall op
  rwa [if_neg (fun h => absurd h.2 (by decide))] at hop

end Run

end DocTemplate
