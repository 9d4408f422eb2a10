import Mathlib.Algebra.BigOperators.Group.List.Basic
import Mathlib.Data.List.Perm.Basic
import DocTemplate.Builtin.Call
import DocTemplate.Proofs.Number.Amount

namespace DocTemplate

namespace Decimal

variable {a b : Decimal} {scale : Int} {ds es : List Decimal}

theorem value_mk_unscaledAt (h : a.scale ≤ scale) :
    (⟨a.unscaledAt scale, scale⟩ : Decimal).value = a.value := by
  rw [value, unscaledAt_eq h, mul_assoc, ← zpow_add₀ (by norm_num), add_neg_cancel, zpow_zero,
    mul_one]

theorem value_raise (a : Decimal) (scale : Int) : (a.raise scale).value = a.value := by
  rw [raise]
  split
  next h => exact value_mk_unscaledAt h.le
  next => rfl

theorem scale_raise (a : Decimal) (scale : Int) : (a.raise scale).scale = max a.scale scale := by
  rw [raise]
  split
  next h => exact (max_eq_right h.le).symm
  next h => exact (max_eq_left (not_lt.mp h)).symm

theorem value_add (a b : Decimal) : (a.add b).value = a.value + b.value := by
  rw [add]
  split
  next hb => rw [value_raise, value_eq_zero_iff.mpr (isZero_iff.mp hb), add_zero]
  split
  next ha => rw [value_raise, value_eq_zero_iff.mpr (isZero_iff.mp ha), zero_add]
  · have hsum : (⟨a.unscaledAt (max a.scale b.scale) + b.unscaledAt (max a.scale b.scale),
        max a.scale b.scale⟩ : Decimal).value =
        (⟨a.unscaledAt (max a.scale b.scale), max a.scale b.scale⟩ : Decimal).value +
          (⟨b.unscaledAt (max a.scale b.scale), max a.scale b.scale⟩ : Decimal).value := by
      simp only [value, Int.cast_add, add_mul]
    rw [hsum, value_mk_unscaledAt (le_max_left _ _), value_mk_unscaledAt (le_max_right _ _)]

theorem scale_add (a b : Decimal) : (a.add b).scale = max a.scale b.scale := by
  rw [add]
  split
  · exact scale_raise a b.scale
  split
  · exact (scale_raise b a.scale).trans (max_comm _ _)
  · rfl

theorem eq_of_value_of_scale (hv : a.value = b.value) (hs : a.scale = b.scale) : a = b := by
  have hunscaled : a.unscaled = b.unscaled := by
    rw [value, value, hs, mul_left_inj' (by positivity)] at hv
    exact_mod_cast hv
  cases a
  cases b
  cases hunscaled
  cases hs
  rfl

theorem add_swap (d a b : Decimal) : (d.add a).add b = (d.add b).add a := by
  refine eq_of_value_of_scale ?_ ?_
  · rw [value_add, value_add, value_add, value_add, add_right_comm]
  · rw [scale_add, scale_add, scale_add, scale_add, max_right_comm]

theorem value_foldl_add (d : Decimal) (ds : List Decimal) :
    (ds.foldl add d).value = d.value + (ds.map value).sum := by
  induction ds generalizing d with
  | nil => rw [List.foldl_nil, List.map_nil, List.sum_nil, add_zero]
  | cons a ds ih => rw [List.foldl_cons, ih, value_add, List.map_cons, List.sum_cons, add_assoc]

instance : RightCommutative add := ⟨add_swap⟩

end Decimal

namespace Number

variable {n : Number} {ns ms : List Number}

def isFinite : Number → Bool
  | float x => x.isFinite
  | double x => x.isFinite
  | _ => true

theorem isSome_toDecimal? (n : Number) : n.toDecimal?.isSome = n.isFinite := by
  cases n with
  | float x => exact x.isSome_toDecimal?
  | double x => exact x.isSome_toDecimal?
  | _ => rfl

def decimalTotal (ns : List Number) : Decimal :=
  (ns.filterMap toDecimal?).foldl Decimal.add (.ofInt 0)

def exactSum? (ns : List Number) : Option ℚ :=
  (ns.mapM toDecimal?).map fun ds => (ds.map Decimal.value).sum

theorem value_decimalTotal (ns : List Number) :
    (decimalTotal ns).value = ((ns.filterMap toDecimal?).map Decimal.value).sum := by
  rw [decimalTotal, Decimal.value_foldl_add, Decimal.value_ofInt, Int.cast_zero, zero_add]

theorem decimalTotal_perm (h : ns.Perm ms) : decimalTotal ns = decimalTotal ms :=
  (h.filterMap _).foldl_eq _

theorem mapM_toDecimal? (h : ∀ n ∈ ns, n.isFinite = true) :
    ns.mapM toDecimal? = some (ns.filterMap toDecimal?) := by
  induction ns with
  | nil => rfl
  | cons n ns ih =>
    have hn := h n List.mem_cons_self
    rw [← isSome_toDecimal?, Option.isSome_iff_exists] at hn
    obtain ⟨d, hd⟩ := hn
    rw [List.mapM_cons, hd, ih fun m hm => h m (List.mem_cons_of_mem _ hm),
      List.filterMap_cons_some hd]
    rfl

theorem isFinite_of_mapM {ds : List Decimal} (h : ns.mapM toDecimal? = some ds) (hn : n ∈ ns) :
    n.isFinite = true := by
  induction ns generalizing ds with
  | nil => cases hn
  | cons m ns ih =>
    simp only [List.mapM_cons, Option.bind_eq_bind, Option.bind_eq_some_iff] at h
    obtain ⟨d, hd, es, hes, -⟩ := h
    rcases List.mem_cons.mp hn with rfl | hn
    · rw [← isSome_toDecimal?, hd]
      rfl
    · exact ih hes hn

/-- The total is the sum of all numbers just when no number is left out. -/
theorem exactSum?_eq_iff :
    exactSum? ns = some (decimalTotal ns).value ↔ ∀ n ∈ ns, n.isFinite = true := by
  rw [value_decimalTotal, exactSum?]
  constructor
  · intro h n hn
    obtain ⟨ds, hds, -⟩ := Option.map_eq_some_iff.mp h
    exact isFinite_of_mapM hds hn
  · intro h
    rw [mapM_toDecimal? h, Option.map_some]

end Number

namespace Value

def number? : Value → Option Number
  | number n => some n
  | _ => none

def numbers (items : List Value) : List Number := items.filterMap number?

/-- All elements that are not null are numbers, and one of them is a decimal. -/
structure Summable (items : List Value) : Prop where
  numbers : ∀ v ∈ items, v.isNull = true ∨ v.isNumber = true
  decimal : ∃ v ∈ items, v.isDecimal = true

variable {items others : List Value} {v : Value}

theorem Summable.perm (h : Summable items) (hp : others.Perm items) : Summable others where
  numbers v hv := h.numbers v (hp.mem_iff.mp hv)
  decimal := h.decimal.imp fun _ hv => ⟨hp.mem_iff.mpr hv.1, hv.2⟩

theorem numbers_filter (items : List Value) :
    numbers (items.filter (!·.isNull)) = numbers items := by
  rw [numbers, numbers, List.filterMap_filter]
  refine List.filterMap_congr fun v _ => ?_
  split
  next => rfl
  next h =>
    have hnull : v.isNull = true := by simpa using h
    unfold isNull at hnull
    split at hnull
    · rfl
    · cases hnull

end Value

namespace Builtin

open Value

variable {items : List Value}

theorem total_of_summable (h : Summable items) :
    total items = .ok (.number (.decimal (Number.decimalTotal (numbers items)))) := by
  have hbad : (items.filter (!·.isNull)).find? (!·.isNumber) = none := by
    refine List.find?_eq_none.mpr fun v hv => ?_
    obtain ⟨hv, hnull⟩ := List.mem_filter.mp hv
    simpa using (h.numbers v hv).resolve_left (by simpa using hnull)
  have hdecimal : (numbers items).any Number.isDecimal = true := by
    obtain ⟨v, hv, hd⟩ := h.decimal
    unfold isDecimal at hd
    split at hd
    next d => exact List.any_eq_true.mpr ⟨.decimal d, List.mem_filterMap.mpr ⟨_, hv, rfl⟩, rfl⟩
    next => cases hd
  have hnumbers : (items.filter (!·.isNull)).filterMap number? = numbers items :=
    numbers_filter items
  rw [total, hbad]
  change (if ((items.filter (!·.isNull)).filterMap number?).any Number.isDecimal then _
    else _) = _
  rw [hnumbers, if_pos hdecimal]
  exact congrArg (fun ns => Except.ok (number (.decimal (Number.decimalTotal ns)))) hnumbers

theorem call_sum (settings : Settings) (invoke : Invoke) (h : Summable items) :
    call settings invoke .sum [.list items] =
      pure (.number (.decimal (Number.decimalTotal (numbers items)))) := by
  have hsum : sumOrZero (.list items) = total items := rfl
  rw [call, hsum, total_of_summable h]
  rfl

/-- The total of a list of numbers with a decimal among them is a decimal, the same one in every
order of the list. It is the sum of the decimals of the finite numbers, and so the sum of the
decimals of all of them if and only if no number is infinite or not a number. -/
theorem call_sum_exact_iff (settings : Settings) (invoke : Invoke) (h : Summable items) :
    ∃ d : Decimal,
      (∀ others : List Value, others.Perm items →
        call settings invoke .sum [.list others] = pure (.number (.decimal d))) ∧
      d.value = (((numbers items).filterMap Number.toDecimal?).map Decimal.value).sum ∧
      (Number.exactSum? (numbers items) = some d.value ↔
        ∀ n ∈ numbers items, n.isFinite = true) := by
  refine ⟨Number.decimalTotal (numbers items), fun others hp => ?_, Number.value_decimalTotal _,
    Number.exactSum?_eq_iff⟩
  have hnumbers : (numbers others).Perm (numbers items) := hp.filterMap _
  rw [call_sum settings invoke (h.perm hp), Number.decimalTotal_perm hnumbers]

def infinityAmong : List Value :=
  [.number (.decimal ⟨15, 1⟩), .null, .number (.double (.infinity false)), .number (.int 2)]

/-- The infinity is left out. -/
theorem call_sum_exact_iff_infinity :
    Summable infinityAmong ∧
      ∃ d : Decimal,
        call ⟨.standard, none, default⟩ (fun _ _ => pure .null) .sum [.list infinityAmong] =
          pure (.number (.decimal d)) ∧
        d.value = 7 / 2 ∧ Number.exactSum? (numbers infinityAmong) ≠ some d.value := by
  have hitems : Summable infinityAmong :=
    ⟨by simp [infinityAmong, isNull, isNumber], _, List.mem_cons_self, rfl⟩
  have hinfinite : Number.double (.infinity false) ∈ numbers infinityAmong :=
    List.mem_cons_of_mem _ List.mem_cons_self
  obtain ⟨d, hcall, hvalue, hiff⟩ :=
    call_sum_exact_iff ⟨.standard, none, default⟩ (fun _ _ => pure .null) hitems
  refine ⟨hitems, d, hcall _ (.refl _), ?_, fun hsum => ?_⟩
  · rw [hvalue]
    change ([Decimal.value ⟨15, 1⟩, Decimal.value (.ofInt 2)] : List ℚ).sum = 7 / 2
    norm_num [Decimal.value, Decimal.ofInt]
  · exact absurd (hiff.mp hsum _ hinfinite) (by decide)

end Builtin

end DocTemplate
