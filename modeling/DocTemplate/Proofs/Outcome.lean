namespace DocTemplate

section

variable {ε α β γ : Type} {result : Except ε α} {f : α → β}

theorem map_map (g : β → γ) : (result.map f).map g = result.map (g ∘ f) := by
  cases result <;> rfl

theorem map_eq_ok {b : β} : result.map f = .ok b ↔ ∃ a, result = .ok a ∧ f a = b := by
  cases result <;> simp [Except.map]

theorem map_eq_error {e : ε} : result.map f = .error e ↔ result = .error e := by
  cases result <;> simp [Except.map]

theorem exists_ok_of_isOk (h : result.isOk) : ∃ a, result = .ok a := by
  cases result with
  | ok a => exact ⟨a, rfl⟩
  | error => cases h

theorem ok_of_toOption {a : α} (h : result.toOption = some a) : result = .ok a := by
  cases result with
  | error => cases h
  | ok b => exact congrArg Except.ok (Option.some.inj h)

@[simp] theorem mapError_ok {ε' : Type} {g : ε → ε'} (a : α) :
    (Except.ok a).mapError g = .ok a := rfl

@[simp] theorem mapError_error {ε' : Type} {g : ε → ε'} (e : ε) :
    (Except.error e : Except ε α).mapError g = .error (g e) := rfl

theorem toOption_mapError {ε' : Type} (g : ε → ε') :
    (result.mapError g).toOption = result.toOption := by
  cases result <;> rfl

theorem mapError_eq_ok {ε' : Type} {g : ε → ε'} {a : α} :
    result.mapError g = .ok a ↔ result = .ok a := by
  cases result <;> simp

theorem mapError_eq_error {ε' : Type} {g : ε → ε'} {e : ε'} :
    result.mapError g = .error e ↔ ∃ fault, result = .error fault ∧ g fault = e := by
  cases result <;> simp

theorem bind_eq_ok {g : α → Except ε β} {b : β} :
    result >>= g = .ok b ↔ ∃ a, result = .ok a ∧ g a = .ok b := by
  cases result <;> simp [bind, Except.bind]

theorem bind_eq_error {g : α → Except ε β} {e : ε} :
    result >>= g = .error e ↔ result = .error e ∨ ∃ a, result = .ok a ∧ g a = .error e := by
  cases result <;> simp [bind, Except.bind]

theorem forall_bind_error {g : α → Except ε β} {E : ε → Prop} (h : ∀ e, result = .error e → E e)
    (hg : ∀ a e, g a = .error e → E e) : ∀ e, result >>= g = .error e → E e := by
  intro e he
  rcases bind_eq_error.mp he with he | ⟨a, -, he⟩
  · exact h e he
  · exact hg a e he

end

section

variable {ε σ α : Type} {f : σ → α → Except ε σ} {P : σ → Prop} {xs : List α} {s s' : σ}

theorem foldlM_ok (hf : ∀ s, ∀ a ∈ xs, ∀ s', P s → f s a = .ok s' → P s') (hs : P s)
    (h : xs.foldlM f s = .ok s') : P s' := by
  induction xs generalizing s with
  | nil =>
    obtain rfl : s = s' := Except.ok.inj h
    exact hs
  | cons a xs ih =>
    rw [List.foldlM_cons, bind_eq_ok] at h
    obtain ⟨mid, ha, hx⟩ := h
    exact ih (fun s b hb => hf s b (List.mem_cons_of_mem _ hb)) (hf s a (by simp) mid hs ha) hx

theorem foldlM_error {fault : ε} (hf : ∀ s, ∀ a ∈ xs, ∀ s', P s → f s a = .ok s' → P s')
    (hs : P s) (h : xs.foldlM f s = .error fault) :
    ∃ s', ∃ a ∈ xs, P s' ∧ f s' a = .error fault := by
  induction xs generalizing s with
  | nil => cases h
  | cons a xs ih =>
    rw [List.foldlM_cons, bind_eq_error] at h
    rcases h with ha | ⟨mid, ha, hx⟩
    · exact ⟨s, a, by simp, hs, ha⟩
    · obtain ⟨s', b, hb, hp, he⟩ := ih (fun s b hb => hf s b (List.mem_cons_of_mem _ hb))
        (hf s a (by simp) mid hs ha) hx
      exact ⟨s', b, List.mem_cons_of_mem _ hb, hp, he⟩

end

/-- The same error, or results that are related. -/
inductive Results {ε α β : Type} (R : α → β → Prop) : Except ε α → Except ε β → Prop
  | ok {a : α} {b : β} (h : R a b) : Results R (.ok a) (.ok b)
  | error (e : ε) : Results R (.error e) (.error e)

theorem Results.self {ε α : Type} {R : α → α → Prop} {x : Except ε α}
    (h : ∀ a, x = .ok a → R a a) : Results R x x := by
  cases x with
  | ok a => exact .ok (h a rfl)
  | error e => exact .error e

theorem Results.eq {ε α : Type} {x y : Except ε α} (h : Results (· = ·) x y) : x = y := by
  cases h with
  | ok h => rw [h]
  | error e => rfl

section

variable {ε α β γ δ : Type} {R : α → β → Prop} {S : γ → δ → Prop}

theorem Results.bind {x : Except ε α} {y : Except ε β} {f : α → Except ε γ} {g : β → Except ε δ}
    (h : Results R x y) (hf : ∀ a b, R a b → Results S (f a) (g b)) :
    Results S (x >>= f) (y >>= g) := by
  cases h with
  | ok h => exact hf _ _ h
  | error e => exact .error e

theorem Results.map {x : Except ε α} {y : Except ε β} {f : α → γ} {g : β → δ} (h : Results R x y)
    (hf : ∀ a b, R a b → S (f a) (g b)) : Results S (x.map f) (y.map g) := by
  cases h with
  | ok h => exact .ok (hf _ _ h)
  | error e => exact .error e

theorem Results.trans {R : α → α → Prop} (hR : ∀ a b c, R a b → R b c → R a c)
    {x y z : Except ε α} (h : Results R x y) (h' : Results R y z) : Results R x z := by
  cases h with
  | ok h =>
    cases h' with
    | ok h' => exact .ok (hR _ _ _ h h')
  | error e =>
    cases h'
    exact .error e

end

end DocTemplate
