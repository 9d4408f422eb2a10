import DocTemplate.Text.LetterTable

namespace DocTemplate

def inRanges (n : Nat) (table : List (Nat × Nat)) : Bool :=
  table.any fun (lo, hi) => lo ≤ n && n ≤ hi

/-- The property White_Space. -/
def isBlank (c : Char) : Bool :=
  let n := c.toNat
  (9 ≤ n && n ≤ 13) || n == 32 ||
    (128 ≤ n && inRanges n [(0x85, 0x85), (0xA0, 0xA0), (0x1680, 0x1680), (0x2000, 0x200A),
      (0x2028, 0x2029), (0x202F, 0x202F), (0x205F, 0x205F), (0x3000, 0x3000)])

def isLetter (c : Char) : Bool :=
  c.isAlpha || (128 ≤ c.toNat && inRanges c.toNat LetterTable.alphabetic)

def isLetterOrDigit (c : Char) : Bool :=
  c.isAlphanum || (128 ≤ c.toNat &&
    (inRanges c.toNat LetterTable.alphabetic || inRanges c.toNat LetterTable.numeric))

theorem isBlank_of_isWhitespace {c : Char} (h : c.isWhitespace) : isBlank c := by
  simp only [Char.isWhitespace, Bool.or_eq_true, decide_eq_true_eq] at h
  rcases h with ((rfl | rfl) | rfl) | rfl <;> rfl

/-- A family of quotation marks. Word processors turn straight quotes into typographic ones, so any
mark of a family closes what another one opened. -/
inductive Quote where
  | double
  | single
  deriving DecidableEq, Repr

namespace Quote

def includes (q : Quote) (c : Char) : Bool :=
  match q with
  | double => c == '"' || c == '\u201C' || c == '\u201D'
  | single => c == '\x27' || c == '\u2018' || c == '\u2019'

def of? (c : Char) : Option Quote :=
  if double.includes c then some double
  else if single.includes c then some single
  else none

end Quote

def trimBlanks (cs : List Char) : List Char :=
  ((cs.dropWhile isBlank).reverse.dropWhile isBlank).reverse

end DocTemplate
