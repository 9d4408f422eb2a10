namespace DocTemplate

section

variable {α β γ δ : Type} {R R' : α → β → Prop} {S : γ → δ → Prop} {x : Option α} {y : Option β}

theorem rel_imp (h : Option.Rel R x y) (hR : ∀ a b, R a b → R' a b) : Option.Rel R' x y := by
  cases h with
  | some hab => exact .some (hR _ _ hab)
  | none => exact .none

theorem rel_symm (h : Option.Rel R x y) : Option.Rel (fun b a => R a b) y x := by
  cases h with
  | some hab => exact .some hab
  | none => exact .none

theorem rel_eq {x y : Option α} (h : Option.Rel (· = ·) x y) : x = y := by
  cases h with
  | some hab => rw [hab]
  | none => rfl

theorem rel_map_eq {f : α → γ} {g : β → γ} (h : Option.Rel R x y)
    (hf : ∀ a b, R a b → f a = g b) : x.map f = y.map g := by
  cases h with
  | some hab => exact congrArg some (hf _ _ hab)
  | none => rfl

theorem rel_bind {f : α → Option γ} {g : β → Option δ} (h : Option.Rel R x y)
    (hf : ∀ a b, R a b → Option.Rel S (f a) (g b)) : Option.Rel S (x.bind f) (y.bind g) := by
  cases h with
  | some hab => exact hf _ _ hab
  | none => exact .none

end

def Grown {α : Type} (xs ys : Array α) : Prop :=
  ∀ (i : Nat) (x : α), xs[i]? = some x → ys[i]? = some x

namespace Grown

variable {α : Type} {xs ys zs : Array α}

theorem refl (xs : Array α) : Grown xs xs := fun _ _ h => h

theorem trans (h : Grown xs ys) (h' : Grown ys zs) : Grown xs zs :=
  fun i x hx => h' i x (h i x hx)

theorem push (xs : Array α) (x : α) : Grown xs (xs.push x) := by
  intro i y hy
  have hi : i < xs.size := (Array.getElem?_eq_some_iff.mp hy).1
  rw [Array.getElem?_push_lt hi]
  exact (Array.getElem?_eq_getElem hi).symm.trans hy

end Grown

/-- Pairs of numbers of which no two share a side. -/
structure Matching where
  rel : Nat → Nat → Prop
  right_unique : ∀ {a b c}, rel a b → rel a c → b = c
  left_unique : ∀ {a b c}, rel a c → rel b c → a = b

namespace Matching

instance : LE Matching := ⟨fun m m' => ∀ a b, m.rel a b → m'.rel a b⟩

variable {α : Type} {m m' : Matching} {R R' : α → α → Prop} {xs ys xs' ys' : Array α}

def symm (m : Matching) : Matching := ⟨fun a b => m.rel b a, m.left_unique, m.right_unique⟩

def onLeft (m : Matching) : Matching where
  rel a b := a = b ∧ ∃ c, m.rel a c
  right_unique h h' := h.1.symm.trans h'.1
  left_unique h h' := h.1.trans h'.1.symm

def below (n : Nat) : Matching where
  rel a b := a = b ∧ a < n
  right_unique h h' := h.1.symm.trans h'.1
  left_unique h h' := h.1.trans h'.1.symm

def add (m : Matching) (a b : Nat) : Matching where
  rel x y := x = a ∧ y = b ∨ x ≠ a ∧ y ≠ b ∧ m.rel x y
  right_unique := by
    rintro x y z (⟨rfl, rfl⟩ | ⟨hx, hy, h⟩) (⟨hx', rfl⟩ | ⟨hx', hz, h'⟩)
    · rfl
    · exact absurd rfl hx'
    · exact absurd hx' hx
    · exact m.right_unique h h'
  left_unique := by
    rintro x y z (⟨rfl, rfl⟩ | ⟨hx, hz, h⟩) (⟨rfl, hz'⟩ | ⟨hy, hz', h'⟩)
    · rfl
    · exact absurd rfl hz'
    · exact absurd hz' hz
    · exact m.left_unique h h'

theorem add_self (m : Matching) (a b : Nat) : (m.add a b).rel a b := .inl ⟨rfl, rfl⟩

theorem beq_eq {a b c d : Nat} (h : m.rel a b) (h' : m.rel c d) :
    (a == c) = (b == d) := by
  rw [Bool.eq_iff_iff, beq_iff_eq, beq_iff_eq]
  constructor
  · rintro rfl
    exact m.right_unique h h'
  · rintro rfl
    exact m.left_unique h h'

def Holds (m : Matching) (R : α → α → Prop) (xs ys : Array α) : Prop :=
  ∀ a b, m.rel a b → ∃ x y, xs[a]? = some x ∧ ys[b]? = some y ∧ R x y

namespace Holds

theorem imp (h : m.Holds R xs ys) (hR : ∀ x y, R x y → R' x y) : m.Holds R' xs ys := by
  intro a b hab
  obtain ⟨x, y, hx, hy, hxy⟩ := h a b hab
  exact ⟨x, y, hx, hy, hR x y hxy⟩

theorem symm (h : m.Holds R xs ys) (hR : ∀ x y, R x y → R' y x) : m.symm.Holds R' ys xs := by
  intro a b hab
  obtain ⟨x, y, hx, hy, hxy⟩ := h b a hab
  exact ⟨y, x, hy, hx, hR x y hxy⟩

theorem grown (h : m.Holds R xs ys) (hx : Grown xs xs') (hy : Grown ys ys') :
    m.Holds R xs' ys' := by
  intro a b hab
  obtain ⟨x, y, hxa, hyb, hxy⟩ := h a b hab
  exact ⟨x, y, hx a x hxa, hy b y hyb, hxy⟩

theorem lt_left (h : m.Holds R xs ys) {a b : Nat} (hab : m.rel a b) : a < xs.size := by
  obtain ⟨x, y, hx, -, -⟩ := h a b hab
  exact (Array.getElem?_eq_some_iff.mp hx).1

theorem lt_right (h : m.Holds R xs ys) {a b : Nat} (hab : m.rel a b) : b < ys.size := by
  obtain ⟨x, y, -, hy, -⟩ := h a b hab
  exact (Array.getElem?_eq_some_iff.mp hy).1

theorem le_add (h : m.Holds R xs ys) : m ≤ m.add xs.size ys.size :=
  fun _ _ hab => .inr ⟨Nat.ne_of_lt (h.lt_left hab), Nat.ne_of_lt (h.lt_right hab), hab⟩

theorem push (h : m.Holds R xs ys) (hR : ∀ x y, R x y → R' x y) {x y : α} (hxy : R' x y) :
    (m.add xs.size ys.size).Holds R' (xs.push x) (ys.push y) := by
  rintro a b (⟨rfl, rfl⟩ | ⟨-, -, hab⟩)
  · exact ⟨x, y, Array.getElem?_push_size, Array.getElem?_push_size, hxy⟩
  · exact ((h.imp hR).grown (.push xs x) (.push ys y)) a b hab

theorem modify (h : m.Holds R xs ys) {i j : Nat} (hij : m.rel i j) {f g : α → α}
    (hR : ∀ x y, R x y → R (f x) (g y)) : m.Holds R (xs.modify i f) (ys.modify j g) := by
  intro a b hab
  obtain ⟨x, y, hx, hy, hxy⟩ := h a b hab
  by_cases ha : i = a
  · obtain rfl := ha
    obtain rfl := m.right_unique hij hab
    exact ⟨f x, g y, by simp [Array.getElem?_modify, hx], by simp [Array.getElem?_modify, hy],
      hR x y hxy⟩
  · have hb : j ≠ b := by
      rintro rfl
      exact ha (m.left_unique hij hab)
    exact ⟨x, y, by simp [Array.getElem?_modify, ha, hx], by simp [Array.getElem?_modify, hb, hy],
      hxy⟩

end Holds

end Matching

end DocTemplate
