import DocTemplate.Expr.Parse

namespace DocTemplate

/-- What tokens are compared by. -/
inductive Mark where
  /-- A sign or a keyword. -/
  | sign (kind : TokenKind)
  | name (kind : TokenKind) (text : String)
  | constant (value : Constant)
  deriving DecidableEq, Repr

namespace Token

/-- A literal counts with its value alone. -/
def Writes (t : Token) : Constant → Prop
  | .null => t.kind = .keyword .null
  | .bool b => t.kind = .keyword (if b then .true else .false)
  | .literal l => (t.kind = .number ∨ t.kind = .string) ∧ t.literal = some l

def Shows (t : Token) : Mark → Prop
  | .sign kind => t.kind = kind
  | .name kind text => t.kind = kind ∧ t.lexeme = text
  | .constant value => t.Writes value

def nameMark (t : Token) : Mark := .name t.kind t.lexeme

theorem writes_iff {t : Token} {value : Constant} : t.Writes value ↔ t.constant? = some value := by
  obtain ⟨kind, lexeme, span, literal⟩ := t
  cases kind with
  | keyword k =>
    cases value with
    | bool b => cases b <;> cases k <;> simp [Writes, constant?]
    | _ => cases k <;> simp [Writes, constant?]
  | _ =>
    cases value with
    | bool b => cases b <;> simp [Writes, constant?]
    | _ => simp [Writes, constant?]

end Token

/-- The tokens that show some marks; a single parameter of a function may have parentheses. -/
inductive Spelled : List Token → List Mark → Prop where
  | nil : Spelled [] []
  | token {t : Token} {m : Mark} {ts : List Token} {ms : List Mark} (shows : t.Shows m)
      (tail : Spelled ts ms) : Spelled (t :: ts) (m :: ms)
  | parameter {opening name closing arrow : Token} {ts : List Token} {ms : List Mark}
      (isOpening : opening.kind = .leftParen) (isName : name.kind = .identifier)
      (isClosing : closing.kind = .rightParen) (isArrow : arrow.kind = .arrow)
      (tail : Spelled ts ms) :
      Spelled (opening :: name :: closing :: arrow :: ts) (name.nameMark :: .sign .arrow :: ms)

namespace Spelled

variable {ts us : List Token} {ms ns : List Mark}

theorem append (h : Spelled ts ms) (h' : Spelled us ns) : Spelled (ts ++ us) (ms ++ ns) := by
  induction h with
  | nil => exact h'
  | token shows _ ih => exact .token shows ih
  | parameter isOpening isName isClosing isArrow _ ih =>
    exact .parameter isOpening isName isClosing isArrow ih

theorem single {t : Token} {m : Mark} (h : t.Shows m) : Spelled [t] [m] := .token h .nil

theorem of_single {m : Mark} (h : Spelled ts [m]) : ∃ t, ts = [t] ∧ t.Shows m := by
  cases h with
  | token shows tail =>
    cases tail
    exact ⟨_, rfl, shows⟩

theorem length_le (h : Spelled ts ms) : ms.length ≤ ts.length := by
  induction h with
  | nil => exact Nat.le_refl 0
  | token _ _ ih => exact Nat.succ_le_succ ih
  | parameter _ _ _ _ _ ih =>
    simp only [List.length_cons]
    omega

theorem sign_cons {kind : TokenKind} (h : Spelled ts (.sign kind :: ms)) :
    ∃ t us, ts = t :: us ∧ t.kind = kind ∧ Spelled us ms := by
  cases h with
  | token shows tail => exact ⟨_, _, rfl, shows, tail⟩

theorem cons {m : Mark} (h : Spelled ts (m :: ms)) (ha : ms.head? ≠ some (.sign .arrow)) :
    ∃ t us, ts = t :: us ∧ t.Shows m ∧ Spelled us ms := by
  cases h with
  | token shows tail => exact ⟨_, _, rfl, shows, tail⟩
  | parameter => simp at ha

theorem exists_cut (h : Spelled ts (ms ++ ns))
    (ha : ∀ kind text, ms.getLast? = some (.name kind text) → ns.head? ≠ some (.sign .arrow)) :
    ∃ us vs, ts = us ++ vs ∧ Spelled us ms ∧ Spelled vs ns := by
  generalize hm : ms ++ ns = marks at h
  induction h generalizing ms with
  | nil =>
    obtain ⟨rfl, rfl⟩ := List.append_eq_nil_iff.mp hm
    exact ⟨[], [], rfl, .nil, .nil⟩
  | @token t m ts marks shows tail ih =>
    cases ms with
    | nil =>
      obtain rfl : ns = m :: marks := hm
      exact ⟨[], _, rfl, .nil, .token shows tail⟩
    | cons m' ms =>
      obtain ⟨rfl, ht⟩ : m' = m ∧ ms ++ ns = marks := by simpa using hm
      obtain ⟨us, vs, rfl, hu, hv⟩ := ih (fun kind text hl => ha kind text (by
        rw [List.getLast?_cons, hl]
        rfl)) ht
      exact ⟨t :: us, vs, rfl, .token shows hu, hv⟩
  | @parameter opening name closing arrow ts marks isOpening isName isClosing isArrow tail ih =>
    match ms with
    | [] =>
      obtain rfl : ns = name.nameMark :: .sign .arrow :: marks := hm
      exact ⟨[], _, rfl, .nil, .parameter isOpening isName isClosing isArrow tail⟩
    | [_] =>
      obtain ⟨rfl, rfl⟩ : _ = name.nameMark ∧ ns = .sign .arrow :: marks := by simpa using hm
      exact absurd rfl (ha _ _ rfl)
    | m :: m' :: ms =>
      obtain ⟨rfl, rfl, ht⟩ : m = name.nameMark ∧ m' = .sign .arrow ∧ ms ++ ns = marks := by
        simpa using hm
      obtain ⟨us, vs, rfl, hu, hv⟩ := ih (fun kind text hl => ha kind text (by
        rw [List.getLast?_cons, List.getLast?_cons, hl]
        rfl)) ht
      exact ⟨opening :: name :: closing :: arrow :: us, vs, rfl,
        .parameter isOpening isName isClosing isArrow hu, hv⟩

theorem split (h : Spelled ts (ms ++ ns)) (ha : ns.head? ≠ some (.sign .arrow)) :
    ∃ us vs, ts = us ++ vs ∧ Spelled us ms ∧ Spelled vs ns :=
  h.exists_cut fun _ _ _ => ha

theorem split_behind {kind : TokenKind} (h : Spelled ts (ms ++ .sign kind :: ns)) :
    ∃ us vs, ts = us ++ vs ∧ Spelled us (ms ++ [.sign kind]) ∧ Spelled vs ns := by
  refine exists_cut (by simpa using h) fun _ _ hl => ?_
  rw [List.getLast?_concat] at hl
  cases hl

theorem split_sign {kind : TokenKind} (h : Spelled ts (ms ++ .sign kind :: ns))
    (ha : kind ≠ .arrow) :
    ∃ us t vs, ts = us ++ t :: vs ∧ Spelled us ms ∧ t.kind = kind ∧ Spelled vs ns := by
  obtain ⟨us, vs, rfl, hu, hv⟩ := h.split (by simpa using ha)
  obtain ⟨t, vs, rfl, hk, hv⟩ := hv.sign_cons
  exact ⟨us, t, vs, rfl, hu, hk, hv⟩

end Spelled

def parameterMarks : List Token → List Mark
  | [param] => [param.nameMark]
  | params => .sign .leftParen :: (params.map Token.nameMark).intersperse (.sign .comma) ++
      [.sign .rightParen]

namespace Expr

mutual

def yield : Expr → List Mark
  | constant _ value => [.constant value]
  | .name _ token => [token.nameMark]
  | assign _ target value => target.nameMark :: .sign .equal :: yield value
  | unary _ _ token operand => .sign token.kind :: yield operand
  | binary _ _ token left right => yield left ++ .sign token.kind :: yield right
  | group _ inner => .sign .leftParen :: yield inner ++ [.sign .rightParen]
  | call _ callee _ args =>
    yield callee ++ .sign .leftParen :: yieldOfItems args ++ [.sign .rightParen]
  | get _ object member optional =>
    yield object ++ [.sign (if optional then .dotQuestion else .dot), member.nameMark]
  | set _ object member value =>
    yield object ++ .sign .dot :: member.nameMark :: .sign .equal :: yield value
  | choose _ branches otherwise =>
    .sign (.keyword .choose) :: yieldOfBranches branches ++ yieldOfOptional otherwise ++
      [.sign (.keyword .finish)]
  | lambda _ params body => parameterMarks params ++ .sign .arrow :: yield body
  | list _ items => .sign .leftBracket :: yieldOfItems items ++ [.sign .rightBracket]

def yieldOfItems : List Expr → List Mark
  | [] => []
  | [e] => yield e
  | e :: es => yield e ++ .sign .comma :: yieldOfItems es

def yieldOfBranches : List (Expr × Expr) → List Mark
  | [] => []
  | (condition, result) :: branches =>
    .sign (.keyword .upon) :: yield condition ++ .sign (.keyword .give) :: yield result ++
      yieldOfBranches branches

def yieldOfOptional : Option Expr → List Mark
  | none => []
  | some e => .sign (.keyword .otherwise) :: yield e

end

/-- A higher level binds more tightly. -/
def level : Expr → Nat
  | assign _ _ _ | set _ _ _ _ | lambda _ _ _ => 0
  | binary _ op _ _ _ => op.level + 1
  | unary _ _ _ _ => 9
  | call _ _ _ _ | get _ _ _ _ => 10
  | constant _ _ | .name _ _ | group _ _ | choose _ _ _ | list _ _ => 11

section

-- That an expression can be an operand where this level is asked for; the flag tells whether it
-- is the last part of its node.
variable (operand : Bool → Nat → Expr → Prop)

mutual

/-- The rules of the grammar, but for what can be an operand. -/
def Fits : Expr → Prop
  | constant _ _ => True
  | .name _ token => token.kind = .identifier
  | assign _ target value => target.kind = .identifier ∧ Fits value
  | unary _ op token e => UnaryOp.ofToken? token.kind = some op ∧ operand true 9 e ∧ Fits e
  | binary _ op token left right =>
    Operator.ofToken? token.kind = some op ∧ operand false (op.level + 1) left ∧
      operand true (op.level + 2) right ∧ Fits left ∧ Fits right
  | group _ inner => Fits inner
  | call _ callee paren args =>
    paren.kind = .rightParen ∧ operand false 10 callee ∧ Fits callee ∧ FitItems args
  | get _ object member _ => member.isMemberName ∧ operand false 10 object ∧ Fits object
  | set _ object member value =>
    member.isMemberName ∧ operand false 10 object ∧ Fits object ∧ Fits value
  | choose _ branches otherwise => branches ≠ [] ∧ FitBranches branches ∧ FitOptional otherwise
  | lambda _ params body => (∀ param ∈ params, param.kind = .identifier) ∧ Fits body
  | list _ items => FitItems items

def FitItems : List Expr → Prop
  | [] => True
  | e :: es => Fits e ∧ FitItems es

def FitBranches : List (Expr × Expr) → Prop
  | [] => True
  | (condition, result) :: branches => Fits condition ∧ Fits result ∧ FitBranches branches

def FitOptional : Option Expr → Prop
  | none => True
  | some e => Fits e

end

end

/-- An operand has the level that its place asks for. A function has the lowest level, so it
stands only where all expressions can. -/
def Leveled : Expr → Prop := Fits fun _ least e => least ≤ e.level

/-- Whether the text ends with the body of a function. Anything that followed would belong to that
body. -/
def endsInFunction : Expr → Bool
  | lambda _ _ _ => true
  | unary _ _ _ e => endsInFunction e
  | binary _ _ _ _ right => endsInFunction right
  | _ => false

def operandLevel : Expr → Nat
  | lambda _ _ _ => 11
  | e => e.level

/-- What can be an operand where functions can be the last one. -/
def lastOperand (last : Bool) (least : Nat) (e : Expr) : Prop :=
  least ≤ e.operandLevel ∧ (last ∨ e.endsInFunction = false)

/-- As `Leveled`, but functions can also be the last operand. -/
def Accepted : Expr → Prop := Fits lastOperand

def Admits (operand operand' : Bool → Nat → Expr → Prop) : Prop :=
  ∀ last least e, 0 < least → Fits operand e → operand last least e → operand' last least e

section

variable {operand operand' : Bool → Nat → Expr → Prop}

mutual

theorem Fits.imp (ha : Admits operand operand') : ∀ e, Fits operand e → Fits operand' e
  | constant _ _, h => h
  | .name _ _, h => h
  | assign _ _ value, ⟨ht, hv⟩ => ⟨ht, Fits.imp ha value hv⟩
  | unary _ _ _ e, ⟨ho, hl, he⟩ => ⟨ho, ha _ _ e (by decide) he hl, Fits.imp ha e he⟩
  | binary _ _ _ left right, ⟨ho, hl, hr, hfl, hfr⟩ =>
    ⟨ho, ha _ _ left (Nat.succ_pos _) hfl hl, ha _ _ right (Nat.succ_pos _) hfr hr,
      Fits.imp ha left hfl, Fits.imp ha right hfr⟩
  | group _ inner, h => Fits.imp ha inner h
  | call _ callee _ args, ⟨hp, hl, hc, hargs⟩ =>
    ⟨hp, ha _ _ callee (by decide) hc hl, Fits.imp ha callee hc, FitItems.imp ha args hargs⟩
  | get _ object _ _, ⟨hm, hl, ho⟩ => ⟨hm, ha _ _ object (by decide) ho hl, Fits.imp ha object ho⟩
  | set _ object _ value, ⟨hm, hl, ho, hv⟩ =>
    ⟨hm, ha _ _ object (by decide) ho hl, Fits.imp ha object ho, Fits.imp ha value hv⟩
  | choose _ branches otherwise, ⟨hn, hb, ho⟩ =>
    ⟨hn, FitBranches.imp ha branches hb, FitOptional.imp ha otherwise ho⟩
  | lambda _ _ body, ⟨hp, hb⟩ => ⟨hp, Fits.imp ha body hb⟩
  | list _ items, h => FitItems.imp ha items h

theorem FitItems.imp (ha : Admits operand operand') :
    ∀ es, FitItems operand es → FitItems operand' es
  | [], h => h
  | e :: es, ⟨he, hes⟩ => ⟨Fits.imp ha e he, FitItems.imp ha es hes⟩

theorem FitBranches.imp (ha : Admits operand operand') :
    ∀ branches, FitBranches operand branches → FitBranches operand' branches
  | [], h => h
  | (condition, result) :: branches, ⟨hc, hr, hb⟩ =>
    ⟨Fits.imp ha condition hc, Fits.imp ha result hr, FitBranches.imp ha branches hb⟩

theorem FitOptional.imp (ha : Admits operand operand') :
    ∀ e, FitOptional operand e → FitOptional operand' e
  | none, h => h
  | some e, h => Fits.imp ha e h

end

end

theorem level_le_operandLevel (e : Expr) : e.level ≤ e.operandLevel := by
  cases e <;> simp [level, operandLevel]

theorem endsInFunction_of_leveled {e : Expr} (h : e.Leveled) (hl : 0 < e.level) :
    e.endsInFunction = false := by
  fun_induction endsInFunction e with
  | case1 => simp [level] at hl
  | case2 _ _ _ e ih =>
    obtain ⟨-, hl', he⟩ := h
    exact ih he (by omega)
  | case3 _ _ _ _ right ih =>
    obtain ⟨-, -, hr, -, he⟩ := h
    exact ih he (by omega)
  | case4 => rfl

theorem Leveled.accepted {e : Expr} (h : e.Leveled) : e.Accepted :=
  Fits.imp (fun _ _ e hpos he hl =>
    ⟨Nat.le_trans hl e.level_le_operandLevel,
      .inr (endsInFunction_of_leveled he (Nat.lt_of_lt_of_le hpos hl))⟩) e h

def bareName (t : Token) : Token := ⟨t.kind, t.lexeme, .point 0, none⟩

def bareSign (t : Token) : Token := ⟨t.kind, "", .point 0, none⟩

def bareSite : Site := ⟨0, .point 0⟩

mutual

/-- The expression without the numbers and spans of its nodes and the places of its tokens. -/
def bare : Expr → Expr
  | constant _ value => constant bareSite value
  | .name _ token => .name bareSite (bareName token)
  | assign _ target value => assign bareSite (bareName target) (bare value)
  | unary _ op token operand => unary bareSite op (bareSign token) (bare operand)
  | binary _ op token left right => binary bareSite op (bareSign token) (bare left) (bare right)
  | group _ inner => group bareSite (bare inner)
  | call _ callee paren args => call bareSite (bare callee) (bareSign paren) (bareItems args)
  | get _ object member optional => get bareSite (bare object) (bareName member) optional
  | set _ object member value => set bareSite (bare object) (bareName member) (bare value)
  | choose _ branches otherwise =>
    choose bareSite (bareBranches branches) (bareOptional otherwise)
  | lambda _ params body => lambda bareSite (params.map bareName) (bare body)
  | list _ items => list bareSite (bareItems items)

def bareItems : List Expr → List Expr
  | [] => []
  | e :: es => bare e :: bareItems es

def bareBranches : List (Expr × Expr) → List (Expr × Expr)
  | [] => []
  | (condition, result) :: branches => (bare condition, bare result) :: bareBranches branches

def bareOptional : Option Expr → Option Expr
  | none => none
  | some e => some (bare e)

end

end Expr

end DocTemplate
