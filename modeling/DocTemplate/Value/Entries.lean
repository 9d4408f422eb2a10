namespace DocTemplate

structure Entries (α : Type) where
  toList : List (String × α)
  deriving Repr, Inhabited

namespace Entries

variable {α : Type}

def empty : Entries α := ⟨[]⟩

def size (e : Entries α) : Nat := e.toList.length

def isEmpty (e : Entries α) : Bool := e.toList.isEmpty

def keys (e : Entries α) : List String := e.toList.map Prod.fst

def get? (e : Entries α) (key : String) : Option α := e.toList.lookup key

def contains (e : Entries α) (key : String) : Bool := (e.get? key).isSome

def put (key : String) (value : α) : List (String × α) → List (String × α)
  | [] => [(key, value)]
  | (k, v) :: rest => if k = key then (key, value) :: rest else (k, v) :: put key value rest

def insert (e : Entries α) (key : String) (value : α) : Entries α := ⟨put key value e.toList⟩

def ofList (pairs : List (String × α)) : Entries α :=
  pairs.foldl (fun e (key, value) => e.insert key value) empty

theorem lookup_put (key key' : String) (value : α) (pairs : List (String × α)) :
    (put key value pairs).lookup key' =
      if key' = key then some value else pairs.lookup key' := by
  induction pairs with
  | nil =>
    by_cases h : key' = key
    · simp [put, h]
    · simp [put, List.lookup_cons, h, beq_eq_false_iff_ne.mpr h]
  | cons pair pairs ih =>
    obtain ⟨k, v⟩ := pair
    by_cases hk : k = key
    · subst hk
      by_cases h : key' = k
      · simp [put, h]
      · simp [put, List.lookup_cons, h, beq_eq_false_iff_ne.mpr h]
    · by_cases h : key' = k
      · subst h
        simp [put, hk]
      · simp [put, List.lookup_cons, hk, beq_eq_false_iff_ne.mpr h, ih]

theorem get?_insert (e : Entries α) (key key' : String) (value : α) :
    (e.insert key value).get? key' = if key' = key then some value else e.get? key' :=
  lookup_put key key' value e.toList

end Entries

end DocTemplate
