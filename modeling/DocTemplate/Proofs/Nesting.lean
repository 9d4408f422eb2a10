import DocTemplate.Group.Expansion

namespace DocTemplate

namespace Side

def other : Side → Side
  | left => right
  | right => left

def along {α : Type} : Side → List α → List α
  | left, items => items.reverse
  | right, items => items

@[simp] theorem other_left : left.other = right := rfl

@[simp] theorem other_right : right.other = left := rfl

@[simp] theorem entry_other (side : Side) : side.other.entry = side.exit := by cases side <;> rfl

@[simp] theorem exit_other (side : Side) : side.other.exit = side.entry := by cases side <;> rfl

@[simp] theorem exit_ne_entry (side : Side) : side.exit ≠ side.entry := by cases side <;> decide

@[simp] theorem selfClosing_ne_entry (side : Side) : TagPart.selfClosing ≠ side.entry := by
  cases side <;> decide

@[simp] theorem selfClosing_ne_exit (side : Side) : TagPart.selfClosing ≠ side.exit := by
  cases side <;> decide

theorem part_cases (side : Side) (part : TagPart) :
    part = side.entry ∨ part = side.exit ∨ part = .selfClosing := by
  cases side <;> cases part <;> simp [entry, exit]

variable {α β : Type}

@[simp] theorem along_along (side : Side) (items : List α) :
    side.along (side.along items) = items := by
  cases side <;> simp [along]

theorem filterMap_along (side : Side) (f : α → Option β) (items : List α) :
    (side.along items).filterMap f = side.along (items.filterMap f) := by
  cases side <;> simp [along, List.filterMap_reverse]

theorem mem_along {side : Side} {a : α} {items : List α} : a ∈ side.along items ↔ a ∈ items := by
  cases side <;> simp [along]

theorem along_perm (side : Side) (items : List α) : (side.along items).Perm items := by
  cases side
  · exact items.reverse_perm
  · exact .refl _

end Side

variable {α : Type} [DecidableEq α]

/-- The labels that are open after some brackets, innermost first, when `opened` were open before
them. Nothing is said when a bracket closes another label than the innermost one. -/
def nest (side : Side) : List α → List (α × TagPart) → Option (List α)
  | opened, [] => some opened
  | opened, (label, part) :: marks =>
    if part = side.entry then nest side (label :: opened) marks
    else if part = side.exit then
      match opened with
      | [] => none
      | innermost :: opened => if innermost = label then nest side opened marks else none
    else nest side opened marks

/-- The labels that brackets leave without having entered them, innermost first; `depth` were
entered before. -/
def exits (side : Side) : Nat → List (α × TagPart) → List α
  | _, [] => []
  | depth, (label, part) :: marks =>
    if part = side.entry then exits side (depth + 1) marks
    else if part = side.exit then
      match depth with
      | 0 => label :: exits side 0 marks
      | depth + 1 => exits side depth marks
    else exits side depth marks

def entered (side : Side) : Nat → List (α × TagPart) → Nat
  | depth, [] => depth
  | depth, (_, part) :: marks =>
    if part = side.entry then entered side (depth + 1) marks
    else if part = side.exit then entered side (depth - 1) marks
    else entered side depth marks

variable {side : Side}

@[simp] theorem nest_nil (opened : List α) : nest side opened [] = some opened := rfl

@[simp] theorem nest_entry (side : Side) (opened : List α) (label : α)
    (marks : List (α × TagPart)) :
    nest side opened ((label, side.entry) :: marks) = nest side (label :: opened) marks := by
  simp [nest]

@[simp] theorem nest_exit (side : Side) (opened : List α) (label : α) (marks : List (α × TagPart)) :
    nest side (label :: opened) ((label, side.exit) :: marks) = nest side opened marks := by
  simp [nest]

@[simp] theorem nest_exit_nil (side : Side) (label : α) (marks : List (α × TagPart)) :
    nest side [] ((label, side.exit) :: marks) = none := by
  simp [nest]

@[simp] theorem nest_selfClosing (opened : List α) (label : α) (marks : List (α × TagPart)) :
    nest side opened ((label, .selfClosing) :: marks) = nest side opened marks := by
  simp [nest]

theorem eq_cons_of_nest_exit {opened final : List α} {label : α} {marks : List (α × TagPart)}
    (h : nest side opened ((label, side.exit) :: marks) = some final) :
    ∃ rest, opened = label :: rest ∧ nest side rest marks = some final := by
  cases opened with
  | nil => simp at h
  | cons innermost rest =>
    by_cases hl : innermost = label
    · subst hl
      exact ⟨rest, rfl, by simpa using h⟩
    · simp [nest, hl] at h

theorem nest_append (opened : List α) (xs ys : List (α × TagPart)) :
    nest side opened (xs ++ ys) = (nest side opened xs).bind fun mid => nest side mid ys := by
  induction xs generalizing opened with
  | nil => rfl
  | cons mark xs ih =>
    obtain ⟨label, part⟩ := mark
    rcases side.part_cases part with rfl | rfl | rfl
    · simp [ih]
    · cases opened with
      | nil => simp
      | cons innermost opened => by_cases hl : innermost = label <;> simp [nest, hl, ih]
    · simp [ih]

theorem nest_append_eq_some {opened final : List α} {xs ys : List (α × TagPart)} :
    nest side opened (xs ++ ys) = some final ↔
      ∃ mid, nest side opened xs = some mid ∧ nest side mid ys = some final := by
  rw [nest_append, Option.bind_eq_some_iff]

theorem nest_extend {opened final : List α} {xs : List (α × TagPart)}
    (h : nest side opened xs = some final) (base : List α) :
    nest side (opened ++ base) xs = some (final ++ base) := by
  induction xs generalizing opened with
  | nil => simpa using h
  | cons mark xs ih =>
    obtain ⟨label, part⟩ := mark
    rcases side.part_cases part with rfl | rfl | rfl
    · simp only [nest_entry] at h ⊢
      exact ih h
    · obtain ⟨rest, rfl, hr⟩ := eq_cons_of_nest_exit h
      simp only [List.cons_append, nest_exit]
      exact ih hr
    · simp only [nest_selfClosing] at h ⊢
      exact ih h

theorem nest_of_closed {xs : List (α × TagPart)} (h : nest side [] xs = some [])
    (opened : List α) : nest side opened xs = some opened := by
  simpa using nest_extend h opened

theorem nest_skip {xs : List (α × TagPart)} (h : nest side [] xs = some []) (opened : List α)
    (ys : List (α × TagPart)) : nest side opened (xs ++ ys) = nest side opened ys := by
  rw [nest_append, nest_of_closed h, Option.bind_some]

theorem nest_swap {xs : List (α × TagPart)} (h : nest side [] xs = some []) (opened : List α)
    (ys zs : List (α × TagPart)) :
    nest side opened (xs ++ (ys ++ zs)) = nest side opened (ys ++ (xs ++ zs)) := by
  rw [nest_skip h, nest_append, nest_append]
  congr 1
  funext mid
  exact (nest_skip h mid zs).symm

/-- Reading back undoes what reading did. -/
theorem nest_reverse {opened final : List α} {xs : List (α × TagPart)}
    (h : nest side opened xs = some final) :
    nest side.other final xs.reverse = some opened := by
  induction xs generalizing opened with
  | nil => simpa using h.symm
  | cons mark xs ih =>
    obtain ⟨label, part⟩ := mark
    rw [List.reverse_cons, nest_append_eq_some]
    rcases side.part_cases part with rfl | rfl | rfl
    · rw [nest_entry] at h
      refine ⟨label :: opened, ih h, ?_⟩
      rw [← Side.exit_other, nest_exit, nest_nil]
    · obtain ⟨rest, rfl, hr⟩ := eq_cons_of_nest_exit h
      refine ⟨rest, ih hr, ?_⟩
      rw [← Side.entry_other, nest_entry, nest_nil]
    · rw [nest_selfClosing] at h
      exact ⟨opened, ih h, by rw [nest_selfClosing, nest_nil]⟩

theorem nest_along {xs : List (α × TagPart)} (h : nest .right [] xs = some ([] : List α))
    (side : Side) : nest side [] (side.along xs) = some ([] : List α) := by
  cases side with
  | left => exact nest_reverse h
  | right => exact h

theorem nest_of_along {xs : List (α × TagPart)} (side : Side)
    (h : nest side [] (side.along xs) = some ([] : List α)) :
    nest .right [] xs = some ([] : List α) := by
  cases side with
  | left => simpa [Side.along, Side.other] using nest_reverse h
  | right => exact h

theorem exists_exit {label : α} {opened final : List α} {xs : List (α × TagPart)} (within : List α)
    (h : nest side (within ++ label :: opened) xs = some final)
    (hl : final.length ≤ opened.length) :
    ∃ ys zs, xs = ys ++ (label, side.exit) :: zs ∧ nest side within ys = some [] ∧
      nest side opened zs = some final := by
  induction xs generalizing within with
  | nil =>
    simp only [nest_nil, Option.some.injEq] at h
    subst h
    simp at hl
    omega
  | cons mark xs ih =>
    obtain ⟨a, part⟩ := mark
    rcases side.part_cases part with rfl | rfl | rfl
    · rw [nest_entry, ← List.cons_append] at h
      obtain ⟨ys, zs, rfl, hy, hz⟩ := ih _ h
      exact ⟨(a, side.entry) :: ys, zs, rfl, by simpa using hy, hz⟩
    · obtain ⟨rest, he, hr⟩ := eq_cons_of_nest_exit h
      cases within with
      | nil =>
        obtain ⟨rfl, rfl⟩ := List.cons.inj he
        exact ⟨[], xs, rfl, rfl, hr⟩
      | cons b within =>
        obtain ⟨rfl, rfl⟩ := List.cons.inj he
        obtain ⟨ys, zs, rfl, hy, hz⟩ := ih _ hr
        exact ⟨(b, side.exit) :: ys, zs, rfl, by simpa using hy, hz⟩
    · rw [nest_selfClosing] at h
      obtain ⟨ys, zs, rfl, hy, hz⟩ := ih _ h
      exact ⟨(a, .selfClosing) :: ys, zs, rfl, by simpa using hy, hz⟩

omit [DecidableEq α] in
theorem exits_append (depth : Nat) (xs ys : List (α × TagPart)) :
    exits side depth (xs ++ ys) = exits side depth xs ++ exits side (entered side depth xs) ys := by
  induction xs generalizing depth with
  | nil => rfl
  | cons mark xs ih =>
    obtain ⟨label, part⟩ := mark
    rcases side.part_cases part with rfl | rfl | rfl
    · simp [exits, entered, ih]
    · cases depth <;> simp [exits, entered, ih]
    · simp [exits, entered, ih]

/-- What is open before some brackets is what they leave, on top of what they do not touch; what is
open after them is what they enter, on top of the same. -/
theorem exists_base {opened final : List α} {xs : List (α × TagPart)} (new : List α)
    (h : nest side (new ++ opened) xs = some final) :
    ∃ base news, opened = exits side new.length xs ++ base ∧ final = news ++ base ∧
      news.length = entered side new.length xs ∧
      nest side (new ++ exits side new.length xs) xs = some news := by
  induction xs generalizing new opened with
  | nil => exact ⟨opened, new, by simp [exits], by simpa using h.symm, rfl, by simp [exits]⟩
  | cons mark xs ih =>
    obtain ⟨label, part⟩ := mark
    rcases side.part_cases part with rfl | rfl | rfl
    · rw [nest_entry, ← List.cons_append] at h
      obtain ⟨base, news, ho, hf, hl, hn⟩ := ih _ h
      exact ⟨base, news, by simpa [exits] using ho, hf, by simpa [entered] using hl,
        by simpa [exits] using hn⟩
    · obtain ⟨rest, he, hr⟩ := eq_cons_of_nest_exit h
      cases new with
      | nil =>
        obtain rfl : opened = label :: rest := he
        obtain ⟨base, news, ho, hf, hl, hn⟩ := ih [] hr
        refine ⟨base, news, ?_, hf, by simpa [entered] using hl, by simpa [exits] using hn⟩
        simpa [exits] using ho
      | cons a new =>
        obtain ⟨rfl, rfl⟩ := List.cons.inj he
        obtain ⟨base, news, ho, hf, hl, hn⟩ := ih _ hr
        exact ⟨base, news, by simpa [exits] using ho, hf, by simpa [entered] using hl,
          by simpa [exits] using hn⟩
    · rw [nest_selfClosing] at h
      obtain ⟨base, news, ho, hf, hl, hn⟩ := ih _ h
      exact ⟨base, news, by simpa [exits] using ho, hf, by simpa [entered] using hl,
        by simpa [exits] using hn⟩

/-- Two runs of brackets, read to both sides from one place in brackets that nest, close when they
leave the same labels and nothing that they enter is open at their ends. -/
theorem nest_around_iff {opened final : List α} {xs ys : List (α × TagPart)}
    (h : nest .right opened (xs.reverse ++ ys) = some final) :
    nest .right [] (xs.reverse ++ ys) = some [] ↔
      exits .left 0 xs = exits .right 0 ys ∧ entered .left 0 xs = 0 ∧ entered .right 0 ys = 0 := by
  constructor
  · intro hc
    obtain ⟨mid, hx, hy⟩ := nest_append_eq_some.mp hc
    have hx' := nest_reverse hx
    rw [List.reverse_reverse, Side.other_right] at hx'
    obtain ⟨base, news, ho, hf, hn, -⟩ := exists_base [] hx'
    obtain ⟨base', news', ho', hf', hn', -⟩ := exists_base [] hy
    obtain ⟨rfl, rfl⟩ := List.append_eq_nil_iff.mp hf.symm
    obtain ⟨rfl, rfl⟩ := List.append_eq_nil_iff.mp hf'.symm
    rw [List.append_nil] at ho ho'
    exact ⟨ho.symm.trans ho', hn.symm, hn'.symm⟩
  · rintro ⟨hs, hx, hy⟩
    obtain ⟨mid, hxs, hys⟩ := nest_append_eq_some.mp h
    have hxs' := nest_reverse hxs
    rw [List.reverse_reverse, Side.other_right] at hxs'
    obtain ⟨-, news, -, -, hn, hclosed⟩ := exists_base [] hxs'
    obtain ⟨-, news', -, -, hn', hclosed'⟩ := exists_base [] hys
    rw [List.length_nil, hx, List.length_eq_zero_iff] at hn
    rw [List.length_nil, hy, List.length_eq_zero_iff] at hn'
    subst hn hn'
    rw [List.nil_append, List.length_nil] at hclosed hclosed'
    rw [hs] at hclosed
    exact nest_append_eq_some.mpr ⟨_, nest_reverse hclosed, hclosed'⟩

end DocTemplate
