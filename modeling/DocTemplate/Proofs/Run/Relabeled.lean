import DocTemplate.Proofs.Run.Keeping
import DocTemplate.Proofs.Scope.Relabel

namespace DocTemplate

variable {ρ : Relabeling} {marked : Nat → Bool}

def Closure.relabel (ρ : Relabeling) (c : Closure) : Closure := { c with body := c.body.relabel ρ }

def Atom.relabel (ρ : Relabeling) : Atom → Atom
  | function c => function (c.relabel ρ)
  | a => a

theorem Atom.toText_relabel (a : Atom) : (a.relabel ρ).toText = a.toText := by
  cases a <;> rfl

namespace Value

mutual

def relabel (ρ : Relabeling) : Value → Value
  | atom a => atom (a.relabel ρ)
  | list items => list (relabelAll ρ items)
  | map cell => map cell

def relabelAll (ρ : Relabeling) : List Value → List Value
  | [] => []
  | v :: vs => relabel ρ v :: relabelAll ρ vs

end

theorem relabelAll_eq (ρ : Relabeling) (vs : List Value) :
    relabelAll ρ vs = vs.map (relabel ρ) := by
  induction vs with
  | nil => rfl
  | cons v vs ih => rw [relabelAll, ih, List.map_cons]

theorem relabel_list (ρ : Relabeling) (items : List Value) :
    (list items).relabel ρ = list (items.map (relabel ρ)) := by
  rw [relabel, relabelAll_eq]

theorem CellFree.relabel_eq {v : Value} (h : v.CellFree) : v.relabel ρ = v := by
  induction h with
  | @atom a h => cases a <;> first | rfl | cases h
  | @list items _ ih =>
    rw [relabel_list]
    exact congrArg Value.list ((List.map_congr_left ih).trans items.map_id)

mutual

theorem relabel_of_closures : (v : Value) → v.closures = [] → v.relabel ρ = v
  | .atom a, h => by cases a <;> first | rfl | cases h
  | .list items, h => congrArg list (relabelAll_of_closures items h)
  | .map _, _ => rfl

theorem relabelAll_of_closures : (vs : List Value) → closuresOfItems vs = [] → relabelAll ρ vs = vs
  | [], _ => rfl
  | v :: vs, h => by
    obtain ⟨hv, hvs⟩ := List.append_eq_nil_iff.mp h
    rw [relabelAll, relabel_of_closures v hv, relabelAll_of_closures vs hvs]

end

end Value

namespace Snapshot

mutual

def relabel (ρ : Relabeling) : Snapshot → Snapshot
  | atom a => atom (a.relabel ρ)
  | list items => list (relabelAll ρ items)
  | map entries => map (relabelEntries ρ entries)

def relabelAll (ρ : Relabeling) : List Snapshot → List Snapshot
  | [] => []
  | v :: vs => relabel ρ v :: relabelAll ρ vs

def relabelEntries (ρ : Relabeling) : List (String × Snapshot) → List (String × Snapshot)
  | [] => []
  | (key, v) :: rest => (key, relabel ρ v) :: relabelEntries ρ rest

end

theorem relabelEntries_eq (ρ : Relabeling) (entries : List (String × Snapshot)) :
    relabelEntries ρ entries = entries.map fun entry => (entry.1, entry.2.relabel ρ) := by
  induction entries with
  | nil => rfl
  | cons entry entries ih => rw [relabelEntries, ih, List.map_cons]

mutual

def closures : Snapshot → List Closure
  | atom (.function c) => [c]
  | atom _ => []
  | list items => closuresOfItems items
  | map entries => closuresOfEntries entries

def closuresOfItems : List Snapshot → List Closure
  | [] => []
  | v :: vs => closures v ++ closuresOfItems vs

def closuresOfEntries : List (String × Snapshot) → List Closure
  | [] => []
  | (_, v) :: rest => closures v ++ closuresOfEntries rest

end

mutual

theorem relabel_of_closures : (v : Snapshot) → v.closures = [] → v.relabel ρ = v
  | atom a, h => by cases a <;> first | rfl | cases h
  | list items, h => congrArg list (relabelAll_of_closures items h)
  | map entries, h => congrArg map (relabelEntries_of_closures entries h)

theorem relabelAll_of_closures :
    (vs : List Snapshot) → closuresOfItems vs = [] → relabelAll ρ vs = vs
  | [], _ => rfl
  | v :: vs, h => by
    obtain ⟨hv, hvs⟩ := List.append_eq_nil_iff.mp h
    rw [relabelAll, relabel_of_closures v hv, relabelAll_of_closures vs hvs]

theorem relabelEntries_of_closures : (entries : List (String × Snapshot)) →
    closuresOfEntries entries = [] → relabelEntries ρ entries = entries
  | [], _ => rfl
  | (key, v) :: rest, h => by
    obtain ⟨hv, hrest⟩ := List.append_eq_nil_iff.mp h
    rw [relabelEntries, relabel_of_closures v hv, relabelEntries_of_closures rest hrest]

end

mutual

theorem toText_relabel : (v : Snapshot) → (v.relabel ρ).toText = v.toText
  | atom a => a.toText_relabel
  | list items => by rw [relabel, toText, toText, texts_relabel items]
  | map entries => by rw [relabel, toText, toText, entryTexts_relabel entries]

theorem texts_relabel : (vs : List Snapshot) → texts (relabelAll ρ vs) = texts vs
  | [] => rfl
  | v :: vs => by rw [relabelAll, texts, texts, toText_relabel v, texts_relabel vs]

theorem entryTexts_relabel : (entries : List (String × Snapshot)) →
    entryTexts (relabelEntries ρ entries) = entryTexts entries
  | [] => rfl
  | (key, v) :: rest => by
    rw [relabelEntries, entryTexts, entryTexts, toText_relabel v, entryTexts_relabel rest]

end

theorem outputText_relabel (v : Snapshot) : (v.relabel ρ).outputText = v.outputText := by
  cases v with
  | atom a => cases a <;> rfl
  | list items => exact toText_relabel (.list items)
  | map entries => exact toText_relabel (.map entries)

end Snapshot

/-- Entries with new names in their values, and in their keys if they are those of a scope of the
variable. -/
def Entries.relabel (ρ : Relabeling) (own : Bool) (e : Entries Value) : Entries Value :=
  ⟨e.toList.map fun entry => (ρ.key own entry.1, entry.2.relabel ρ)⟩

namespace Entries

variable {own : Bool} {e : Entries Value}

theorem get?_relabel (e : Entries Value) (name : String) :
    (e.relabel ρ own).get? (ρ.key own name) = (e.get? name).map (·.relabel ρ) := by
  obtain ⟨pairs⟩ := e
  change (pairs.map _).lookup _ = (pairs.lookup name).map _
  induction pairs with
  | nil => rfl
  | cons pair pairs ih =>
    rw [List.map_cons, List.lookup_cons, List.lookup_cons, ih]
    by_cases h : name = pair.1
    · simp [h]
    · have hk : ρ.key own name ≠ ρ.key own pair.1 := fun hk => h ((ρ.key_inj own).mp hk)
      simp [beq_eq_false_iff_ne.mpr h, beq_eq_false_iff_ne.mpr hk]

theorem relabel_insert (e : Entries Value) (name : String) (v : Value) :
    (e.insert name v).relabel ρ own = (e.relabel ρ own).insert (ρ.key own name) (v.relabel ρ) := by
  obtain ⟨pairs⟩ := e
  refine congrArg Entries.mk ?_
  change (put name v pairs).map _ = put _ _ (pairs.map _)
  induction pairs with
  | nil => rfl
  | cons pair pairs ih =>
    obtain ⟨k, w⟩ := pair
    rw [put, List.map_cons, put]
    by_cases h : k = name
    · simp [h]
    · have hk : ρ.key own k ≠ ρ.key own name := fun hk => h ((ρ.key_inj own).mp hk)
      simp [h, hk, ih]

theorem contains_relabel (e : Entries Value) (name : String) :
    (e.relabel ρ own).contains (ρ.key own name) = e.contains name := by
  rw [contains, contains, get?_relabel, Option.isSome_map]

theorem isEmpty_relabel (e : Entries Value) : (e.relabel ρ own).isEmpty = e.isEmpty :=
  List.isEmpty_map

theorem size_relabel (e : Entries Value) : (e.relabel ρ own).size = e.size := List.length_map _

theorem relabel_ofList (pairs : List (String × Value)) :
    (ofList pairs).relabel ρ own =
      ofList (pairs.map fun pair => (ρ.key own pair.1, pair.2.relabel ρ)) := by
  have hf : ∀ e : Entries Value,
      (pairs.foldl (fun e pair => e.insert pair.1 pair.2) e).relabel ρ own =
        (pairs.map fun pair => (ρ.key own pair.1, pair.2.relabel ρ)).foldl
          (fun e pair => e.insert pair.1 pair.2) (e.relabel ρ own) := by
    induction pairs with
    | nil => exact fun e => rfl
    | cons pair pairs ih =>
      intro e
      rw [List.foldl_cons, ih, relabel_insert]
      rfl
  exact hf empty

end Entries

/-- The store with new names; `marked` are the scopes of the variable. -/
def Store.relabel (ρ : Relabeling) (marked : Nat → Bool) (s : Store) : Store where
  maps := s.maps.map (·.relabel ρ false)
  hosts := s.hosts.map fun object => { object with fields := object.fields.relabel ρ false }
  scopes := s.scopes.mapIdx fun i scope =>
    { scope with names := scope.names.relabel ρ (marked i) }
  rewriters := s.rewriters
  notes := s.notes.map (·.relabel ρ)

namespace Store

variable {s : Store}

theorem entries_relabel (s : Store) (cell : Nat) :
    (s.relabel ρ marked).entries cell = (s.entries cell).relabel ρ false := by
  simp only [entries, relabel, Array.getD_eq_getD_getElem?, Array.getElem?_map]
  cases s.maps[cell]? <;> rfl

theorem fields_relabel (s : Store) (cell : Nat) :
    (s.relabel ρ marked).fields cell = (s.fields cell).relabel ρ false := by
  simp only [fields, relabel, Array.getElem?_map]
  cases s.hosts[cell]? <;> rfl

theorem names_relabel (s : Store) (scope : Nat) :
    (s.relabel ρ marked).names scope = (s.names scope).relabel ρ (marked scope) := by
  simp only [names, relabel, Array.getElem?_mapIdx]
  cases s.scopes[scope]? <;> rfl

theorem parent?_relabel (s : Store) (scope : Nat) :
    (s.relabel ρ marked).parent? scope = s.parent? scope := by
  simp only [parent?, relabel, Array.getElem?_mapIdx]
  cases s.scopes[scope]? <;> rfl

theorem ancestor?_relabel (s : Store) (scope distance : Nat) :
    (s.relabel ρ marked).ancestor? scope distance = s.ancestor? scope distance := by
  induction distance generalizing scope with
  | zero => rfl
  | succ distance ih =>
    rw [ancestor?, ancestor?, parent?_relabel]
    exact congrArg _ (funext ih)

theorem lookup?_relabel (s : Store) (scope : Nat) (name : String) :
    (s.relabel ρ marked).lookup? scope (ρ.key (marked scope) name) =
      (s.lookup? scope name).map (·.relabel ρ) := by
  rw [lookup?, names_relabel, Entries.get?_relabel, lookup?]

theorem size_scopes_relabel (s : Store) :
    (s.relabel ρ marked).scopes.size = s.scopes.size := Array.size_mapIdx

theorem size_maps_relabel (s : Store) : (s.relabel ρ marked).maps.size = s.maps.size :=
  Array.size_map

theorem relabel_define (s : Store) (scope : Nat) (name : String) (v : Value) :
    (s.define scope name v).relabel ρ marked =
      (s.relabel ρ marked).define scope (ρ.key (marked scope) name) (v.relabel ρ) := by
  simp only [define, relabel, mk.injEq, true_and, and_true]
  refine Array.ext_getElem? fun i => ?_
  simp only [Array.getElem?_mapIdx, Array.getElem?_modify]
  by_cases h : scope = i
  · subst h
    rw [if_pos rfl, if_pos rfl]
    cases s.scopes[scope]? with
    | none => rfl
    | some sc =>
      exact congrArg (fun names => some (Scope.mk names sc.parent)) (Entries.relabel_insert ..)
  · rw [if_neg h, if_neg h]

theorem relabel_defineAll (s : Store) (scope : Nat) (pairs : List (String × Value)) :
    (s.defineAll scope pairs).relabel ρ marked =
      (s.relabel ρ marked).defineAll scope
        (pairs.map fun pair => (ρ.key (marked scope) pair.1, pair.2.relabel ρ)) := by
  induction pairs generalizing s with
  | nil => rfl
  | cons pair pairs ih =>
    change ((s.define scope pair.1 pair.2).defineAll scope pairs).relabel ρ marked = _
    rw [ih, relabel_define]
    rfl

theorem relabel_newScope (s : Store) (parent : Option Nat) :
    (s.newScope parent).2.relabel ρ marked = ((s.relabel ρ marked).newScope parent).2 := by
  simp only [newScope, relabel, Array.mapIdx_push, mk.injEq, true_and, and_true]
  rfl

theorem relabel_newMap (s : Store) (e : Entries Value) :
    (s.relabel ρ marked).newMap (e.relabel ρ false) =
      ((s.newMap e).1.relabel ρ, (s.newMap e).2.relabel ρ marked) := by
  simp only [newMap, relabel, Array.size_map, Array.map_push]
  rfl

theorem relabel_congr {marked' : Nat → Bool} (h : ∀ i < s.scopes.size, marked' i = marked i) :
    s.relabel ρ marked' = s.relabel ρ marked := by
  simp only [relabel, mk.injEq, true_and, and_true]
  refine Array.ext_getElem? fun i => ?_
  simp only [Array.getElem?_mapIdx]
  cases hs : s.scopes[i]? with
  | none => rfl
  | some sc =>
    obtain ⟨hi, -⟩ := Array.getElem?_eq_some_iff.mp hs
    simp only [Option.map_some, h i hi]

end Store

namespace Value

mutual

theorem snapshotWith_relabel {ofMap ofMap' : Nat → Option Snapshot}
    (h : ∀ cell, ofMap' cell = (ofMap cell).map (·.relabel ρ)) : (v : Value) →
    (v.relabel ρ).snapshotWith ofMap' = (v.snapshotWith ofMap).map (·.relabel ρ)
  | .atom _ => rfl
  | .list items => by
    rw [relabel, snapshotWith, snapshotWith, snapshotsWith_relabel h items, Option.map_map,
      Option.map_map]
    rfl
  | .map cell => h cell

theorem snapshotsWith_relabel {ofMap ofMap' : Nat → Option Snapshot}
    (h : ∀ cell, ofMap' cell = (ofMap cell).map (·.relabel ρ)) : (vs : List Value) →
    snapshotsWith ofMap' (relabelAll ρ vs) =
      (snapshotsWith ofMap vs).map (Snapshot.relabelAll ρ)
  | [] => rfl
  | v :: vs => by
    rw [relabelAll, snapshotsWith, snapshotsWith, snapshotWith_relabel h v,
      snapshotsWith_relabel h vs]
    cases v.snapshotWith ofMap with
    | none => rfl
    | some first => cases snapshotsWith ofMap vs <;> rfl

end

end Value

section

variable {α β α' β' : Type} {g : α → α'} {k : β → β'}

theorem mapM_map {f : α → Option β} {f' : α' → Option β'} (h : ∀ a, f' (g a) = (f a).map k)
    (xs : List α) : (xs.map g).mapM f' = (xs.mapM f).map (List.map k) := by
  induction xs with
  | nil => rfl
  | cons x xs ih =>
    rw [List.map_cons, List.mapM_cons, List.mapM_cons, ih, h]
    cases f x with
    | none => rfl
    | some b => cases xs.mapM f <;> rfl

theorem allM_map {f : α → Option Bool} {f' : α' → Option Bool} (h : ∀ a, f' (g a) = f a)
    (xs : List α) : (xs.map g).allM f' = xs.allM f := by
  induction xs with
  | nil => rfl
  | cons x xs ih => rw [List.map_cons, List.allM, List.allM, ih, h]

end

namespace Store

variable {s : Store}

theorem mapSnapshot?_relabel (s : Store) (depth cell : Nat) :
    (s.relabel ρ marked).mapSnapshot? depth cell =
      (s.mapSnapshot? depth cell).map (·.relabel ρ) := by
  induction depth generalizing cell with
  | zero => rfl
  | succ depth ih =>
    rw [mapSnapshot?, mapSnapshot?, entries_relabel]
    have hm : ∀ entry : String × Value,
        (do return (entry.1, ← (entry.2.relabel ρ).snapshotWith
            ((s.relabel ρ marked).mapSnapshot? depth))) =
          (do return (entry.1, ← entry.2.snapshotWith (s.mapSnapshot? depth))).map
            fun entry : String × Snapshot => (entry.1, entry.2.relabel ρ) := by
      intro entry
      rw [Value.snapshotWith_relabel ih]
      cases entry.2.snapshotWith (s.mapSnapshot? depth) <;> rfl
    rw [Entries.relabel, mapM_map hm, Option.bind_eq_bind, Option.bind_eq_bind, Option.bind_map,
      Option.map_bind]
    refine Option.bind_congr fun entries _ => ?_
    exact congrArg (some ∘ Snapshot.map) (Snapshot.relabelEntries_eq ρ entries).symm

theorem snapshot?_relabel (s : Store) (v : Value) :
    (s.relabel ρ marked).snapshot? (v.relabel ρ) = (s.snapshot? v).map (·.relabel ρ) := by
  rw [snapshot?, snapshot?, size_maps_relabel]
  exact Value.snapshotWith_relabel (s.mapSnapshot?_relabel _) v

theorem text?_relabel (s : Store) (v : Value) :
    (s.relabel ρ marked).text? (v.relabel ρ) = s.text? v := by
  rw [text?, text?, snapshot?_relabel, Option.map_map]
  exact congrArg (Option.map · (s.snapshot? v)) (funext Snapshot.toText_relabel)

theorem outputText?_relabel (s : Store) (v : Value) :
    (s.relabel ρ marked).outputText? (v.relabel ρ) = s.outputText? v := by
  rw [outputText?, outputText?, snapshot?_relabel, Option.map_map]
  exact congrArg (Option.map · (s.snapshot? v)) (funext Snapshot.outputText_relabel)

theorem isTruthy_relabel (s : Store) (v : Value) :
    (s.relabel ρ marked).isTruthy (v.relabel ρ) = s.isTruthy v := by
  cases v with
  | atom a => cases a <;> rfl
  | list items => cases items <;> rfl
  | map cell =>
    change (!((s.relabel ρ marked).entries cell).isEmpty) = _
    rw [entries_relabel, Entries.isEmpty_relabel]
    rfl

end Store

theorem Atom.equals_relabel (a b : Atom) : (a.relabel ρ).equals (b.relabel ρ) = a.equals b := by
  cases a with
  | function c =>
    cases b with
    | function d =>
      change Closure.same (c.relabel ρ) (d.relabel ρ) = c.same d
      simp [Closure.same, Closure.relabel]
    | _ => rfl
  | _ => cases b <;> rfl

namespace Value

mutual

theorem equalsWith_relabel {ofMaps ofMaps' : Nat → Nat → Option Bool}
    (h : ∀ c d, ofMaps' c d = ofMaps c d) : (v w : Value) →
    (v.relabel ρ).equalsWith ofMaps' (w.relabel ρ) = v.equalsWith ofMaps w
  | .atom a, .atom b => congrArg some (a.equals_relabel b)
  | .list xs, .list ys => by
    rw [relabel, relabel, equalsWith, equalsWith, allEqualWith_relabel h xs ys, relabelAll_eq,
      relabelAll_eq, List.length_map, List.length_map]
  | .map c, .map d => by rw [relabel, relabel, equalsWith, equalsWith, h]
  | .atom _, .list _ | .atom _, .map _ | .list _, .atom _ | .list _, .map _ | .map _, .atom _
  | .map _, .list _ => rfl

theorem allEqualWith_relabel {ofMaps ofMaps' : Nat → Nat → Option Bool}
    (h : ∀ c d, ofMaps' c d = ofMaps c d) : (vs ws : List Value) →
    allEqualWith ofMaps' (relabelAll ρ vs) (relabelAll ρ ws) = allEqualWith ofMaps vs ws
  | v :: vs, w :: ws => by
    rw [relabelAll, relabelAll, allEqualWith, allEqualWith, equalsWith_relabel h v w,
      allEqualWith_relabel h vs ws]
  | [], [] | [], _ :: _ | _ :: _, [] => rfl

end

theorem compare?_relabel (v w : Value) : (v.relabel ρ).compare? (w.relabel ρ) = v.compare? w := by
  cases v with
  | atom a =>
    cases w with
    | atom b => cases a <;> cases b <;> rfl
    | _ => rfl
  | _ => cases w <;> rfl

theorem typeName_relabel (v : Value) : (v.relabel ρ).typeName = v.typeName := by
  cases v with
  | atom a => cases a <;> rfl
  | _ => rfl

theorem isNull_relabel (v : Value) : (v.relabel ρ).isNull = v.isNull := by
  cases v with
  | atom a => cases a <;> rfl
  | _ => rfl

theorem isDecimal_relabel (v : Value) : (v.relabel ρ).isDecimal = v.isDecimal := by
  cases v with
  | atom a => cases a <;> rfl
  | _ => rfl

theorem isCallable_relabel (v : Value) : (v.relabel ρ).isCallable = v.isCallable := by
  cases v with
  | atom a => cases a <;> rfl
  | _ => rfl

theorem isOrderable_relabel (v : Value) : (v.relabel ρ).isOrderable = v.isOrderable := by
  cases v with
  | atom a => cases a <;> rfl
  | _ => rfl

theorem str?_relabel (v : Value) : (v.relabel ρ).str? = v.str? := by
  cases v with
  | atom a => cases a <;> rfl
  | _ => rfl

theorem eq_number_of_relabel {v : Value} {n : Number} (h : v.relabel ρ = number n) :
    v = number n := by
  cases v with
  | atom a => cases a <;> first | exact h | cases h
  | _ => cases h

theorem compare_relabel (v w : Value) : (v.relabel ρ).compare (w.relabel ρ) = v.compare w := by
  rw [compare, compare, compare?_relabel, isOrderable_relabel, isNull_relabel, typeName_relabel,
    typeName_relabel]

end Value

namespace Store

theorem mapsEqual?_relabel (s : Store) (depth c d : Nat) :
    (s.relabel ρ marked).mapsEqual? depth c d = s.mapsEqual? depth c d := by
  induction depth generalizing c d with
  | zero => rfl
  | succ depth ih =>
    rw [mapsEqual?, mapsEqual?, entries_relabel, entries_relabel]
    dsimp only
    rw [Entries.size_relabel, Entries.size_relabel]
    refine ite_congr rfl (fun _ => allM_map (fun entry => ?_) _) fun _ => rfl
    dsimp only
    rw [Entries.get?_relabel]
    cases (s.entries d).get? entry.1 with
    | none => rfl
    | some y => exact Value.equalsWith_relabel ih y entry.2

theorem equals?_relabel (s : Store) (v w : Value) :
    (s.relabel ρ marked).equals? (v.relabel ρ) (w.relabel ρ) = s.equals? v w := by
  rw [equals?, equals?, size_maps_relabel]
  exact Value.equalsWith_relabel (s.mapsEqual?_relabel _) v w

end Store

end DocTemplate
