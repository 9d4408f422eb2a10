import Mathlib.Data.List.Basic
import DocTemplate.Text.Bytes

namespace DocTemplate

theorem byteLength_eq_utf8ByteSize (cs : List Char) :
    byteLength cs = (String.ofList cs).utf8ByteSize := by
  induction cs with
  | nil => rfl
  | cons c cs ih =>
    have hcons : String.ofList (c :: cs) = String.singleton c ++ String.ofList cs := by
      simp
    rw [byteLength, ih, hcons, String.utf8ByteSize_append, String.utf8ByteSize_singleton]

section

variable {lead text rest cs xs : List Char} {n : Nat}

theorem byteLength_pos {cs : List Char} (h : cs ≠ []) : 0 < byteLength cs := by
  cases cs with
  | nil => exact absurd rfl h
  | cons c cs => exact Nat.add_pos_left c.utf8Size_pos _

theorem length_le_byteLength (cs : List Char) : cs.length ≤ byteLength cs := by
  induction cs with
  | nil => exact Nat.le_refl _
  | cons c cs ih =>
    have hpos := c.utf8Size_pos
    rw [List.length_cons, byteLength]
    omega

theorem IsPrefix.eq_of_byteLength {xs ys cs : List Char} (hx : xs <+: cs) (hy : ys <+: cs)
    (h : byteLength xs = byteLength ys) : xs = ys := by
  obtain ⟨rest, rfl⟩ | ⟨rest, rfl⟩ := List.prefix_or_prefix_of_prefix hx hy
  all_goals
    have hrest : rest = [] := by
      by_contra hne
      have := byteLength_pos hne
      rw [byteLength_append] at h
      omega
    simp [hrest]

theorem exists_append_of_byteLength_lt {xs ys cs : List Char} (hx : xs <+: cs) (hy : ys <+: cs)
    (h : byteLength xs < byteLength ys) : ∃ more, more ≠ [] ∧ ys = xs ++ more := by
  obtain ⟨more, rfl⟩ | ⟨more, rfl⟩ := List.prefix_or_prefix_of_prefix hx hy
  · refine ⟨more, ?_, rfl⟩
    rintro rfl
    rw [List.append_nil] at h
    exact Nat.lt_irrefl _ h
  · rw [byteLength_append] at h
    omega

theorem dropBytes?_append (lead rest : List Char) :
    dropBytes? (lead ++ rest) (byteLength lead) = some rest := by
  induction lead with
  | nil => exact dropBytes?.eq_1 rest
  | cons c lead ih =>
    obtain ⟨k, hk⟩ := Nat.exists_eq_add_of_lt c.utf8Size_pos
    rw [byteLength, List.cons_append, hk, Nat.zero_add, Nat.add_right_comm, dropBytes?, hk,
      if_neg (by omega)]
    rw [show k + byteLength lead + 1 - (0 + k + 1) = byteLength lead by omega, ih]

theorem takeBytes?_append (text rest : List Char) :
    takeBytes? (text ++ rest) (byteLength text) = some text := by
  induction text with
  | nil => exact takeBytes?.eq_1 _
  | cons c text ih =>
    obtain ⟨k, hk⟩ := Nat.exists_eq_add_of_lt c.utf8Size_pos
    rw [byteLength, List.cons_append, hk, Nat.zero_add, Nat.add_right_comm, takeBytes?, hk,
      if_neg (by omega)]
    rw [show k + byteLength text + 1 - (0 + k + 1) = byteLength text by omega, ih]
    rfl

theorem byteLength_of_takeBytes? (h : takeBytes? cs n = some xs) : byteLength xs = n := by
  induction cs generalizing n xs with
  | nil =>
    cases n with
    | zero => obtain rfl := Option.some.inj h; rfl
    | succ n => cases h
  | cons c cs ih =>
    cases n with
    | zero => obtain rfl := Option.some.inj h; rfl
    | succ n =>
      rw [takeBytes?] at h
      split at h
      next => cases h
      next hn =>
        obtain ⟨ys, hys, rfl⟩ := Option.map_eq_some_iff.mp h
        rw [byteLength, ih hys]
        omega

theorem sliceBytes?_eq_some_iff :
    sliceBytes? (lead ++ text ++ rest) (byteLength lead) (byteLength lead + n) = some text ↔
      n = byteLength text := by
  rw [sliceBytes?, if_neg (by omega), List.append_assoc, dropBytes?_append, Option.bind_some,
    Nat.add_sub_cancel_left]
  refine ⟨fun h => (byteLength_of_takeBytes? h).symm, ?_⟩
  rintro rfl
  exact takeBytes?_append text rest

end

end DocTemplate
