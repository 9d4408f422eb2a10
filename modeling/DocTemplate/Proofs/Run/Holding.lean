import DocTemplate.Value.Scope

namespace DocTemplate

def Atom.isPlain : Atom → Bool
  | host _ | function _ | rewriter _ => false
  | _ => true

namespace Value

mutual

def closures : Value → List Closure
  | .atom (.function c) => [c]
  | .atom _ => []
  | .list items => closuresOfItems items
  | .map _ => []

def closuresOfItems : List Value → List Closure
  | [] => []
  | v :: vs => closures v ++ closuresOfItems vs

end

def Within (known : Closure → Prop) (v : Value) : Prop := ∀ c ∈ v.closures, known c

variable {known known' : Closure → Prop} {v : Value} {items : List Value}

theorem Within.mono (h : v.Within known) (hk : ∀ c, known c → known' c) : v.Within known' :=
  fun c hc => hk c (h c hc)

theorem within_of_closures (h : v.closures = []) : v.Within known := by
  intro c hc
  rw [h] at hc
  cases hc

theorem within_function {c : Closure} : (function c).Within known ↔ known c := by
  simp [Within, closures]

theorem within_map (cell : Nat) : (map cell).Within known := within_of_closures rfl

theorem within_null : null.Within known := within_of_closures rfl

theorem closuresOfItems_eq (items : List Value) :
    closuresOfItems items = items.flatMap closures := by
  induction items with
  | nil => rfl
  | cons v items ih => rw [closuresOfItems, List.flatMap_cons, ih]

theorem within_list : (list items).Within known ↔ ∀ v ∈ items, v.Within known := by
  simp only [Within, closures, closuresOfItems_eq, List.mem_flatMap]
  constructor
  · exact fun h v hv c hc => h c ⟨v, hv, hc⟩
  · exact fun h c ⟨v, hv, hc⟩ => h v hv c hc

/-- The value names no cell, so it is the same in all stores. -/
inductive CellFree : Value → Prop
  | atom {a : Atom} (h : a.isPlain) : CellFree (.atom a)
  | list {items : List Value} (h : ∀ v ∈ items, CellFree v) : CellFree (.list items)

theorem CellFree.within (h : v.CellFree) : v.Within known := by
  induction h with
  | @atom a h => cases a <;> first | exact within_of_closures rfl | cases h
  | list _ ih => exact within_list.mpr ih

/-- What holds of all values that name no cell, and of a list just when it holds of its items. -/
structure Hereditary (P : Value → Prop) : Prop where
  cellFree : ∀ v : Value, v.CellFree → P v
  list : ∀ items : List Value, P (.list items) ↔ ∀ v ∈ items, P v

theorem hereditary_within (known : Closure → Prop) : Hereditary (Within known) :=
  ⟨fun _ h => h.within, fun _ => within_list⟩

theorem cellFree_ofConstant (value : Constant) : (ofConstant value).CellFree := by
  cases value with
  | literal l => cases l <;> exact .atom rfl
  | _ => exact .atom rfl

end Value

namespace Entries

def All (P : Value → Prop) (e : Entries Value) : Prop := ∀ pair ∈ e.toList, P pair.2

variable {P Q : Value → Prop} {e : Entries Value} {key : String} {value : Value}

theorem All.mono (h : e.All P) (hPQ : ∀ v, P v → Q v) : e.All Q :=
  fun pair hp => hPQ pair.2 (h pair hp)

theorem All.empty : All P .empty := nofun

theorem mem_put {pairs : List (String × Value)} {pair : String × Value}
    (h : pair ∈ put key value pairs) : pair = (key, value) ∨ pair ∈ pairs := by
  induction pairs with
  | nil => exact .inl (List.mem_singleton.mp h)
  | cons first pairs ih =>
    rw [put.eq_def] at h
    dsimp only at h
    split at h
    · cases List.mem_cons.mp h with
      | inl he => exact .inl he
      | inr hm => exact .inr (List.mem_cons_of_mem _ hm)
    · cases List.mem_cons.mp h with
      | inl he => exact .inr (he ▸ List.mem_cons_self)
      | inr hm => exact (ih hm).imp_right (List.mem_cons_of_mem _)

theorem All.insert (h : e.All P) (hv : P value) : (e.insert key value).All P := by
  intro pair hp
  cases mem_put hp with
  | inl he =>
    rw [he]
    exact hv
  | inr hm => exact h pair hm

theorem All.ofList {pairs : List (String × Value)} (h : ∀ pair ∈ pairs, P pair.2) :
    All P (.ofList pairs) := by
  have hf : ∀ e : Entries Value, e.All P →
      All P (pairs.foldl (fun e pair => e.insert pair.1 pair.2) e) := by
    induction pairs with
    | nil => exact fun e he => he
    | cons pair pairs ih =>
      intro e he
      exact ih (fun p hp => h p (List.mem_cons_of_mem _ hp)) _
        (he.insert (h pair List.mem_cons_self))
  exact hf _ .empty

theorem All.get? (h : e.All P) (hg : e.get? key = some value) : P value := by
  obtain ⟨pairs⟩ := e
  rw [Entries.get?] at hg
  induction pairs with
  | nil => cases hg
  | cons pair pairs ih =>
    obtain ⟨k, v⟩ := pair
    rw [List.lookup_cons] at hg
    split at hg
    · obtain rfl := Option.some.inj hg
      exact h (k, v) List.mem_cons_self
    · exact ih (fun p hp => h p (List.mem_cons_of_mem _ hp)) hg

def Within (known : Closure → Prop) (e : Entries Value) : Prop :=
  ∀ pair ∈ e.toList, pair.2.Within known

variable {known : Closure → Prop}

def closures (e : Entries Value) : List Closure := e.toList.flatMap fun pair => pair.2.closures

theorem Within.ofList {pairs : List (String × Value)} (h : ∀ pair ∈ pairs, pair.2.Within known) :
    Within known (.ofList pairs) :=
  All.ofList h

theorem Within.get? (h : e.Within known) (hg : e.get? key = some value) : value.Within known :=
  All.get? h hg

end Entries

namespace Store

structure All (P : Value → Prop) (s : Store) : Prop where
  maps : ∀ (i : Nat) (entries : Entries Value), s.maps[i]? = some entries → entries.All P
  hosts : ∀ (i : Nat) (object : HostObject), s.hosts[i]? = some object → object.fields.All P
  scopes : ∀ (i : Nat) (scope : Scope), s.scopes[i]? = some scope → scope.names.All P

variable {P Q : Value → Prop} {s : Store} {scope : Nat} {name : String} {v : Value}

namespace All

theorem mono (h : s.All P) (hPQ : ∀ v, P v → Q v) : s.All Q :=
  ⟨fun i e he => (h.maps i e he).mono hPQ, fun i o ho => (h.hosts i o ho).mono hPQ,
    fun i sc hs => (h.scopes i sc hs).mono hPQ⟩

theorem empty : All P .empty := by
  refine ⟨fun i e he => ?_, fun i o ho => ?_, fun i sc hs => ?_⟩
  · exact absurd he (by simp [Store.empty])
  · exact absurd ho (by simp [Store.empty])
  · exact absurd hs (by simp [Store.empty])

theorem entries (h : s.All P) (cell : Nat) : (s.entries cell).All P := by
  rw [Store.entries, Array.getD_eq_getD_getElem?]
  cases he : s.maps[cell]? with
  | none => exact .empty
  | some entries => exact h.maps cell entries he

theorem fields (h : s.All P) (cell : Nat) : (s.fields cell).All P := by
  rw [Store.fields]
  cases ho : s.hosts[cell]? with
  | none => exact .empty
  | some object => exact h.hosts cell object ho

theorem names (h : s.All P) (scope : Nat) : (s.names scope).All P := by
  rw [Store.names]
  cases hs : s.scopes[scope]? with
  | none => exact .empty
  | some sc => exact h.scopes scope sc hs

theorem lookup? (h : s.All P) (hl : s.lookup? scope name = some v) : P v :=
  (h.names scope).get? hl

theorem lookupAt? {distance : Nat} (h : s.All P) (hl : s.lookupAt? scope distance name = some v) :
    P v := by
  obtain ⟨outer, _, hv⟩ := Option.bind_eq_some_iff.mp hl
  exact h.lookup? hv

theorem newMap {entries : Entries Value} (h : s.All P) (he : entries.All P) :
    (s.newMap entries).2.All P := by
  refine ⟨fun i e hi => ?_, h.hosts, h.scopes⟩
  rw [Store.newMap, Array.getElem?_push] at hi
  split at hi
  · obtain rfl := Option.some.inj hi
    exact he
  · exact h.maps i e hi

theorem newRewriter (h : s.All P) (kind : RewriterKind) : (s.newRewriter kind).2.All P :=
  ⟨h.maps, h.hosts, h.scopes⟩

theorem newScope (h : s.All P) (parent : Option Nat) : (s.newScope parent).2.All P := by
  refine ⟨h.maps, h.hosts, fun i sc hi => ?_⟩
  rw [Store.newScope, Array.getElem?_push] at hi
  split at hi
  · obtain rfl := Option.some.inj hi
    exact .empty
  · exact h.scopes i sc hi

theorem define (h : s.All P) (scope : Nat) (name : String) (hv : P v) :
    (s.define scope name v).All P := by
  refine ⟨h.maps, h.hosts, fun i sc hi => ?_⟩
  rw [Store.define, Array.getElem?_modify] at hi
  split at hi
  · obtain ⟨old, ho, rfl⟩ := Option.map_eq_some_iff.mp hi
    exact (h.scopes i old ho).insert hv
  · exact h.scopes i sc hi

theorem defineAll {pairs : List (String × Value)} (h : s.All P) (scope : Nat)
    (hp : ∀ pair ∈ pairs, P pair.2) : (s.defineAll scope pairs).All P := by
  induction pairs generalizing s with
  | nil => exact h
  | cons pair pairs ih =>
    exact ih (h.define scope pair.1 (hp pair List.mem_cons_self))
      fun p hm => hp p (List.mem_cons_of_mem _ hm)

theorem release (h : s.All P) (first : Nat) : (s.release first).All P := by
  refine ⟨h.maps, h.hosts, fun i sc hi => ?_⟩
  rw [Store.release, Array.getElem?_mapIdx] at hi
  obtain ⟨old, ho, rfl⟩ := Option.map_eq_some_iff.mp hi
  split
  · exact .empty
  · exact h.scopes i old ho

end All

structure Within (known : Closure → Prop) (s : Store) : Prop where
  maps : ∀ (i : Nat) (entries : Entries Value), s.maps[i]? = some entries → entries.Within known
  hosts : ∀ (i : Nat) (object : HostObject), s.hosts[i]? = some object → object.fields.Within known
  scopes : ∀ (i : Nat) (scope : Scope), s.scopes[i]? = some scope → scope.names.Within known

variable {known known' : Closure → Prop}

theorem Within.all (h : s.Within known) : s.All (·.Within known) := ⟨h.maps, h.hosts, h.scopes⟩

theorem All.within (h : s.All (·.Within known)) : s.Within known := ⟨h.maps, h.hosts, h.scopes⟩

theorem Within.mono (h : s.Within known) (hk : ∀ c, known c → known' c) : s.Within known' :=
  (h.all.mono fun _ hv => hv.mono hk).within

theorem Within.empty : Within known .empty := All.empty.within

def closures (s : Store) : List Closure :=
  s.maps.toList.flatMap Entries.closures ++
    s.hosts.toList.flatMap (fun object => object.fields.closures) ++
      s.scopes.toList.flatMap fun scope => scope.names.closures

theorem within_closures (s : Store) : s.Within (· ∈ s.closures) := by
  have hmem {α : Type} {xs : Array α} {f : α → Entries Value} {i : Nat} {x : α}
      (hx : xs[i]? = some x) {pair : String × Value} (hp : pair ∈ (f x).toList) {c : Closure}
      (hc : c ∈ pair.2.closures) : c ∈ xs.toList.flatMap fun x => (f x).closures :=
    List.mem_flatMap.mpr ⟨x, (Array.mem_of_getElem? hx).val, List.mem_flatMap.mpr ⟨pair, hp, hc⟩⟩
  refine ⟨fun i e he pair hp c hc => ?_, fun i o ho pair hp c hc => ?_,
    fun i sc hs pair hp c hc => ?_⟩
  · exact List.mem_append_left _ (List.mem_append_left _ (hmem (f := id) he hp hc))
  · exact List.mem_append_left _ (List.mem_append_right _ (hmem ho hp hc))
  · exact List.mem_append_right _ (hmem hs hp hc)

theorem Within.known_of_closures (h : s.Within known) {c : Closure} (hc : c ∈ s.closures) :
    known c := by
  have hmem {α : Type} {xs : Array α} {f : α → Entries Value}
      (hx : ∀ (i : Nat) (x : α), xs[i]? = some x → (f x).Within known)
      (hc : c ∈ xs.toList.flatMap fun x => (f x).closures) : known c := by
    obtain ⟨x, hm, hc⟩ := List.mem_flatMap.mp hc
    obtain ⟨pair, hp, hc⟩ := List.mem_flatMap.mp hc
    obtain ⟨i, hi⟩ := Array.mem_iff_getElem?.mp (Array.mem_toList_iff.mp hm)
    exact hx i x hi pair hp c hc
  obtain hc | hc := List.mem_append.mp hc
  · obtain hc | hc := List.mem_append.mp hc
    · exact hmem (f := id) h.maps hc
    · exact hmem h.hosts hc
  · exact hmem h.scopes hc

theorem Within.entries (h : s.Within known) (cell : Nat) : (s.entries cell).Within known :=
  h.all.entries cell

theorem Within.lookup? (h : s.Within known) (hl : s.lookup? scope name = some v) :
    v.Within known :=
  h.all.lookup? hl

theorem Within.lookupAt? {distance : Nat} (h : s.Within known)
    (hl : s.lookupAt? scope distance name = some v) : v.Within known :=
  h.all.lookupAt? hl

theorem Within.newMap {entries : Entries Value} (h : s.Within known) (he : entries.Within known) :
    (s.newMap entries).2.Within known :=
  (h.all.newMap he).within

theorem Within.newRewriter (h : s.Within known) (kind : RewriterKind) :
    (s.newRewriter kind).2.Within known :=
  (h.all.newRewriter kind).within

theorem Within.newScope (h : s.Within known) (parent : Option Nat) :
    (s.newScope parent).2.Within known :=
  (h.all.newScope parent).within

theorem Within.define (h : s.Within known) (scope : Nat) (name : String) (hv : v.Within known) :
    (s.define scope name v).Within known :=
  (h.all.define scope name hv).within

theorem Within.defineAll {pairs : List (String × Value)} (h : s.Within known) (scope : Nat)
    (hp : ∀ pair ∈ pairs, pair.2.Within known) : (s.defineAll scope pairs).Within known :=
  (h.all.defineAll scope hp).within

end Store

end DocTemplate
