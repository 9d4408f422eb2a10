namespace DocTemplate

/-- Where a quotient goes that lies halfway between two integers. -/
inductive TieRule where
  | away
  | even
  deriving DecidableEq, Repr

/-- The integer nearest to `num / den`, for a positive `den`. -/
def roundRatio (tie : TieRule) (num den : Nat) : Nat :=
  let q := num / den
  let r := num % den
  if den < 2 * r ∨ (2 * r = den ∧ (tie = .away ∨ q % 2 = 1)) then q + 1 else q

theorem roundRatio_one (tie : TieRule) (num : Nat) : roundRatio tie num 1 = num := by
  simp [roundRatio, Nat.mod_one]

def roundQuotient (tie : TieRule) (num : Int) (den : Nat) : Int :=
  num.sign * roundRatio tie num.natAbs den

end DocTemplate
