import DocTemplate.Expr.Parse
import DocTemplate.Proofs.Outcome

namespace DocTemplate

def ParseCause.isLocal : ParseCause → Bool
  | strayEnd | missingEnd _ => false
  | _ => true

def FailsLocally {α : Type} (result : Except ParseFault α) : Prop :=
  ∀ fault, result = .error fault → fault.cause.isLocal

namespace FailsLocally

variable {α β : Type} {result : Except ParseFault α}

theorem ok (a : α) : FailsLocally (.ok a) := nofun

theorem error {fault : ParseFault} (h : fault.cause.isLocal) :
    FailsLocally (.error fault : Except ParseFault α) := by
  rintro _ ⟨⟩
  exact h

theorem bind {f : α → Except ParseFault β} (h : FailsLocally result)
    (hf : ∀ a, FailsLocally (f a)) : FailsLocally (result >>= f) :=
  forall_bind_error h hf

theorem ite {p : Prop} [Decidable p] {other : Except ParseFault α} (h : FailsLocally result)
    (ho : FailsLocally other) : FailsLocally (if p then result else other) := by
  split
  · exact h
  · exact ho

end FailsLocally

namespace ParseState

theorem fail_local {α : Type} (s : ParseState) {cause : ParseCause} (h : cause.isLocal) :
    FailsLocally (s.fail cause : Except ParseFault (α × ParseState)) := .error h

theorem expect_local (s : ParseState) (kind : TokenKind) {cause : ParseCause}
    (h : cause.isLocal) : FailsLocally (s.expect kind cause) :=
  .ite (.ok _) (s.fail_local h)

end ParseState

structure ParsersFailLocally (n : Nat) : Prop where
  expr : ∀ s, FailsLocally (parseExpr n s)
  binary : ∀ least s, FailsLocally (parseBinary n least s)
  operators : ∀ least left s, FailsLocally (parseOperators n least left s)
  unary : ∀ s, FailsLocally (parseUnary n s)
  accesses : ∀ e s, FailsLocally (parsePostfix n e s)
  items : ∀ stop s, FailsLocally (parseItems n stop s)
  someItems : ∀ s, FailsLocally (parseSomeItems n s)
  primary : ∀ s, FailsLocally (parsePrimary n s)
  branches : ∀ s, FailsLocally (parseBranches n s)
  otherwise : ∀ s, FailsLocally (parseOtherwise n s)

namespace ParsersFailLocally

variable {n : Nat}

theorem expr_succ (h : ParsersFailLocally n) (s : ParseState) :
    FailsLocally (parseExpr (n + 1) s) := by
  rw [parseExpr]
  refine (h.binary 0 s).bind fun ⟨target, s₁⟩ =>
    .ite ((h.expr _).bind fun ⟨value, s₂⟩ => ?_) (.ok _)
  dsimp only
  split
  · exact .ok _
  · exact .error rfl

theorem operators_succ (h : ParsersFailLocally n) (least : Nat) (left : Expr) (s : ParseState) :
    FailsLocally (parseOperators (n + 1) least left s) := by
  rw [parseOperators]
  split
  · exact .ok _
  · exact .ite (.ok _) ((h.binary _ _).bind fun ⟨right, s₁⟩ => h.operators least _ _)

theorem unary_succ (h : ParsersFailLocally n) (s : ParseState) :
    FailsLocally (parseUnary (n + 1) s) := by
  rw [parseUnary]
  split
  · exact (h.unary _).bind fun ⟨operand, s₁⟩ => .ok _
  · exact (h.primary s).bind fun ⟨e, s₁⟩ => h.accesses e s₁

theorem accesses_succ (h : ParsersFailLocally n) (e : Expr) (s : ParseState) :
    FailsLocally (parsePostfix (n + 1) e s) := by
  rw [parsePostfix]
  split
  · exact (h.items _ _).bind fun ⟨args, s₁⟩ => (s₁.expect_local _ rfl).bind fun ⟨paren, s₂⟩ =>
      h.accesses _ _
  · exact .ite (s.advance.fail_local rfl) (h.accesses _ _)
  · exact .ite (s.advance.fail_local rfl) (h.accesses _ _)
  · exact .ok _

theorem someItems_succ (h : ParsersFailLocally n) (s : ParseState) :
    FailsLocally (parseSomeItems (n + 1) s) := by
  rw [parseSomeItems]
  exact (h.expr s).bind fun ⟨e, s₁⟩ =>
    .ite ((h.someItems _).bind fun ⟨es, s₂⟩ => .ok _) (.ok _)

theorem branches_succ (h : ParsersFailLocally n) (s : ParseState) :
    FailsLocally (parseBranches (n + 1) s) := by
  rw [parseBranches]
  exact .ite ((h.expr _).bind fun ⟨condition, s₁⟩ => (s₁.expect_local _ rfl).bind fun ⟨_, s₂⟩ =>
    (h.expr s₂).bind fun ⟨result, s₃⟩ => (h.branches s₃).bind fun ⟨branches, s₄⟩ => .ok _) (.ok _)

theorem otherwise_succ (h : ParsersFailLocally n) (s : ParseState) :
    FailsLocally (parseOtherwise (n + 1) s) := by
  rw [parseOtherwise]
  exact .ite ((h.expr _).bind fun ⟨e, s₁⟩ => .ok _) (.ok _)

theorem primary_succ (h : ParsersFailLocally n) (s : ParseState) :
    FailsLocally (parsePrimary (n + 1) s) := by
  rw [parsePrimary]
  split
  · exact (h.expr _).bind fun ⟨body, s₁⟩ => .ok _
  · dsimp only
    split
    · exact .ok _
    · exact (h.expr _).bind fun ⟨inner, s₁⟩ => (s₁.expect_local _ rfl).bind fun ⟨close, s₂⟩ => .ok _
    · exact (h.items _ _).bind fun ⟨items, s₁⟩ => (s₁.expect_local _ rfl).bind fun ⟨close, s₂⟩ =>
        .ok _
    · exact (h.branches _).bind fun ⟨branches, s₁⟩ => .ite (s₁.fail_local rfl)
        ((h.otherwise s₁).bind fun ⟨otherwise, s₂⟩ =>
          (s₂.expect_local _ rfl).bind fun ⟨close, s₃⟩ => .ok _)
    · split
      · exact .ok _
      · exact s.fail_local (by split <;> rfl)

theorem all (n : Nat) : ParsersFailLocally n := by
  induction n with
  | zero =>
    constructor
    · exact fun s => s.fail_local rfl
    · exact fun _ s => s.fail_local rfl
    · exact fun _ _ s => s.fail_local rfl
    · exact fun s => s.fail_local rfl
    · exact fun _ s => s.fail_local rfl
    · exact fun _ s => s.fail_local rfl
    · exact fun s => s.fail_local rfl
    · exact fun s => s.fail_local rfl
    · exact fun s => s.fail_local rfl
    · exact fun s => s.fail_local rfl
  | succ n h =>
    exact {
      expr := h.expr_succ
      binary := fun least s => (h.unary s).bind fun ⟨left, s₁⟩ => h.operators least left s₁
      operators := h.operators_succ
      unary := h.unary_succ
      accesses := h.accesses_succ
      items := fun stop s => .ite (.ok _) (h.someItems s)
      someItems := h.someItems_succ
      primary := h.primary_succ
      branches := h.branches_succ
      otherwise := h.otherwise_succ }

end ParsersFailLocally

theorem ParseState.expr_local (s : ParseState) : FailsLocally s.expr :=
  (ParsersFailLocally.all _).expr s

end DocTemplate
