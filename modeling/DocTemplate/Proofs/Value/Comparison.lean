import Mathlib.Data.List.Forall2
import Mathlib.Tactic.Choose
import Mathlib.Tactic.IntervalCases
import DocTemplate.Proofs.Run.Pictures
import DocTemplate.Proofs.Value.Equality

namespace DocTemplate

variable {P : Number → Prop} {s : Store}

namespace Entries

variable {key : String} {value : Value} {pairs : List (String × Value)} {e : Entries Value}

theorem nodup_put (h : (pairs.map Prod.fst).Nodup) :
    ((put key value pairs).map Prod.fst).Nodup := by
  induction pairs with
  | nil => exact List.nodup_singleton key
  | cons pair pairs ih =>
    obtain ⟨k, v⟩ := pair
    obtain ⟨hk, hn⟩ := List.nodup_cons.mp h
    by_cases hkey : k = key
    · rw [put, if_pos hkey, ← hkey]
      exact h
    · rw [put, if_neg hkey]
      refine List.nodup_cons.mpr ⟨fun hmem => ?_, ih hn⟩
      obtain ⟨p, hp, hpk⟩ := List.mem_map.mp hmem
      cases mem_put hp with
      | inl he => exact hkey (hpk.symm.trans (congrArg Prod.fst he))
      | inr hm => exact hk (List.mem_map.mpr ⟨p, hm, hpk⟩)

theorem nodup_ofList : (ofList pairs).keys.Nodup := by
  have hfold : ∀ e : Entries Value, e.keys.Nodup →
      (pairs.foldl (fun e pair => e.insert pair.1 pair.2) e).keys.Nodup := by
    induction pairs with
    | nil => exact fun e he => he
    | cons pair pairs ih => exact fun e he => ih _ (nodup_put he)
  exact hfold .empty List.nodup_nil

end Entries

def Store.Keyed (s : Store) : Prop := ∀ cell, (s.entries cell).keys.Nodup

theorem Store.keyed_of_forall (h : ∀ e ∈ s.maps, e.keys.Nodup) : s.Keyed := by
  intro cell
  rw [entries, Array.getD_eq_getD_getElem?]
  cases he : s.maps[cell]? with
  | none => exact List.nodup_nil
  | some e => exact h e (Array.mem_of_getElem? he)

/-- A value that is built up in finitely many steps, so that no map in it holds itself. The
numbers in it are of `P`. -/
inductive Value.Grounded (s : Store) (P : Number → Prop) : Value → Prop
  | atom {a : Atom} (h : a.NumberIn P) : Grounded s P (.atom a)
  | list {items : List Value} (h : ∀ v ∈ items, Grounded s P v) : Grounded s P (.list items)
  | map {cell : Nat} (hc : cell < s.maps.size)
      (h : ∀ e ∈ (s.entries cell).toList, Grounded s P e.2) : Grounded s P (.map cell)

theorem mapM_eq_some_iff {α β : Type} {f : α → Option β} {xs : List α} {ys : List β} :
    xs.mapM f = some ys ↔ List.Forall₂ (fun x y => f x = some y) xs ys := by
  induction xs generalizing ys with
  | nil => cases ys <;> simp
  | cons x xs ih =>
    simp only [List.mapM_cons, Option.bind_eq_bind, Option.bind_eq_some_iff, ih, Option.pure_def,
      Option.some.injEq, List.forall₂_cons_left_iff, exists_and_left, eq_comm (a := ys)]

namespace Value

variable {ofMap ofMap' : Nat → Option Snapshot} {v : Value} {A : Snapshot}

theorem snapshotsWith_eq (items : List Value) :
    snapshotsWith ofMap items = items.mapM (snapshotWith ofMap) := by
  induction items with
  | nil => rfl
  | cons v items ih => rw [snapshotsWith, ih, List.mapM_cons]

theorem snapshotWith_list_iff {items : List Value} :
    (list items).snapshotWith ofMap = some A ↔
      ∃ xs, A = .list xs ∧ List.Forall₂ (fun v x => v.snapshotWith ofMap = some x) items xs := by
  simp only [snapshotWith, snapshotsWith_eq, Option.map_eq_some_iff, mapM_eq_some_iff]
  exact exists_congr fun xs => and_comm.trans (and_congr_left' eq_comm)

end Value

def Entry.Drawn (ofMap : Nat → Option Snapshot) (entry : String × Value)
    (e : String × Snapshot) : Prop :=
  entry.1 = e.1 ∧ entry.2.snapshotWith ofMap = some e.2

namespace Store

variable {depth cell : Nat} {A : Snapshot}

theorem mapSnapshot?_succ_iff :
    s.mapSnapshot? (depth + 1) cell = some A ↔
      ∃ es, A = .map es ∧
        List.Forall₂ (Entry.Drawn (s.mapSnapshot? depth)) (s.entries cell).toList es := by
  have hentry : ∀ (entry : String × Value) (e : String × Snapshot),
      ((entry.2.snapshotWith (s.mapSnapshot? depth)).bind fun x => some (entry.1, x)) = some e ↔
        Entry.Drawn (s.mapSnapshot? depth) entry e := by
    intro entry e
    simp [Entry.Drawn, Option.bind_eq_some_iff, Prod.ext_iff, and_comm]
  simp only [mapSnapshot?, Option.bind_eq_bind, Option.bind_eq_some_iff, Option.pure_def,
    Option.some.injEq, mapM_eq_some_iff, hentry]
  exact exists_congr fun es => and_comm.trans (and_congr_left' eq_comm)

theorem exists_map (h : s.mapSnapshot? depth cell = some A) : ∃ es, A = .map es := by
  cases depth with
  | zero => cases h
  | succ depth =>
    obtain ⟨es, rfl, -⟩ := mapSnapshot?_succ_iff.mp h
    exact ⟨es, rfl⟩

end Store

theorem keys_eq_of_drawn {ofMap : Nat → Option Snapshot} {e : Entries Value}
    {es : List (String × Snapshot)} (h : List.Forall₂ (Entry.Drawn ofMap) e.toList es) :
    e.keys = es.map Prod.fst :=
  eq_of_forall₂_eq (List.forall₂_map_left_iff.mpr (List.forall₂_map_right_iff.mpr
    (h.imp fun _ _ hd => hd.1)))

theorem forall_mem_of_forall₂ {α β : Type} {R : α → β → Prop} {Q : β → Prop} {xs : List α}
    {ys : List β} (h : List.Forall₂ R xs ys) (hQ : ∀ x ∈ xs, ∀ y, R x y → Q y) :
    ∀ y ∈ ys, Q y := by
  have hflip : List.Forall₂ (fun y x => Q y ∧ R x y) ys xs :=
    (((List.forall₂_and_left _ _).mpr ⟨hQ, h⟩).imp fun x y hxy => ⟨hxy.1 y hxy.2, hxy.2⟩).flip
  exact ((List.forall₂_and_left _ _).mp hflip).1

theorem Value.Grounded.snapshotWith_mono {ofMap ofMap' : Nat → Option Snapshot} {v : Value}
    {A : Snapshot}
    (ho : ∀ c, (Value.map c).Grounded s P → ∀ A, ofMap c = some A → ofMap' c = some A)
    (h : v.Grounded s P) (hA : v.snapshotWith ofMap = some A) :
    v.snapshotWith ofMap' = some A := by
  induction h generalizing A with
  | atom _ => exact hA
  | list _ ih =>
    obtain ⟨xs, rfl, hxs⟩ := snapshotWith_list_iff.mp hA
    exact snapshotWith_list_iff.mpr ⟨xs, rfl,
      ((List.forall₂_and_left _ _).mpr ⟨ih, hxs⟩).imp fun _ _ h => h.1 h.2⟩
  | map hc hes _ => exact ho _ (.map hc hes) A hA

namespace Store

theorem mapSnapshot?_mono {m n c : Nat} (hc : (Value.map c).Grounded s P)
    (ho : ∀ c, (Value.map c).Grounded s P → ∀ A, s.mapSnapshot? m c = some A →
      s.mapSnapshot? n c = some A) (hA : s.mapSnapshot? (m + 1) c = some A) :
    s.mapSnapshot? (n + 1) c = some A := by
  obtain ⟨es, rfl, hes⟩ := mapSnapshot?_succ_iff.mp hA
  cases hc with
  | map _ hg =>
    exact mapSnapshot?_succ_iff.mpr ⟨es, rfl, ((List.forall₂_and_left _ _).mpr ⟨hg, hes⟩).imp
      fun _ _ h => ⟨h.2.1, h.1.snapshotWith_mono ho h.2.2⟩⟩

open Classical in
noncomputable def groundedCells (s : Store) (P : Number → Prop) : Finset Nat :=
  (Finset.range s.maps.size).filter fun c => (Value.map c).Grounded s P

theorem mem_groundedCells {c : Nat} : c ∈ s.groundedCells P ↔ (Value.map c).Grounded s P := by
  classical
  rw [groundedCells, Finset.mem_filter, Finset.mem_range, and_iff_right_of_imp]
  intro h
  cases h with
  | map hc _ => exact hc

/-- From some depth on no new picture is found. The depth is at most the count of maps, since a
search that finds nothing new at one depth finds nothing new at the next. -/
theorem exists_depth (s : Store) (P : Number → Prop) :
    ∃ depth ≤ s.maps.size, ∀ c, (Value.map c).Grounded s P → ∀ A,
      s.mapSnapshot? (depth + 1) c = some A → s.mapSnapshot? depth c = some A := by
  have hcard : (s.groundedCells P).card ≤ s.maps.size := by
    classical
    exact (Finset.card_filter_le _ _).trans_eq (Finset.card_range _)
  obtain ⟨depth, hle, hstop⟩ := search_stops (f := s.mapSnapshot?) (C := s.groundedCells P)
    (fun _ => rfl) fun m n hmn c hc A hA =>
      ⟨A, mapSnapshot?_mono (mem_groundedCells.mp hc) (fun c hc A hA => by
        obtain ⟨_, hB, rfl⟩ := hmn c (mem_groundedCells.mpr hc) A hA
        exact hB) hA, rfl⟩
  refine ⟨depth, hle.trans hcard, fun c hc A hA => ?_⟩
  obtain ⟨_, hB, rfl⟩ := hstop c (mem_groundedCells.mpr hc) A hA
  exact hB

end Store

namespace Value.Grounded

variable {v : Value} {A : Snapshot} {depth : Nat}

theorem exists_snapshot (hstop : ∀ c, (Value.map c).Grounded s P → ∀ A,
      s.mapSnapshot? (depth + 1) c = some A → s.mapSnapshot? depth c = some A)
    (h : v.Grounded s P) : ∃ A, v.snapshotWith (s.mapSnapshot? depth) = some A := by
  induction h with
  | @atom a _ => exact ⟨.atom a, rfl⟩
  | @list items _ ih =>
    choose! shown hshown using ih
    exact ⟨.list (items.map shown), snapshotWith_list_iff.mpr
      ⟨_, rfl, List.forall₂_map_right_iff.mpr (List.forall₂_same.mpr hshown)⟩⟩
  | @map cell hc hes ih =>
    choose! shown hshown using ih
    exact ⟨.map ((s.entries cell).toList.map fun e => (e.1, shown e)),
      hstop cell (.map hc hes) _ (Store.mapSnapshot?_succ_iff.mpr
        ⟨_, rfl, List.forall₂_map_right_iff.mpr
          (List.forall₂_same.mpr fun e he => ⟨rfl, hshown e he⟩)⟩)⟩

theorem proper (hs : s.Keyed) (h : v.Grounded s P)
    (hA : v.snapshotWith (s.mapSnapshot? depth) = some A) : A.Proper P := by
  induction h generalizing depth A with
  | atom ha =>
    obtain rfl := Option.some.inj hA
    exact .atom ha
  | list _ ih =>
    obtain ⟨xs, rfl, hxs⟩ := snapshotWith_list_iff.mp hA
    exact .list (forall_mem_of_forall₂ hxs fun v hv x hx => ih v hv hx)
  | @map cell hc hes ih =>
    cases depth with
    | zero => cases hA
    | succ depth =>
      obtain ⟨es, rfl, hdrawn⟩ := Store.mapSnapshot?_succ_iff.mp hA
      exact .map (keys_eq_of_drawn hdrawn ▸ hs cell)
        (forall_mem_of_forall₂ hdrawn fun e he x hx => ih e he hx.2)

end Value.Grounded

inductive Value.OfKind : Value → Snapshot → Prop
  | atom (a : Atom) : OfKind (.atom a) (.atom a)
  | list (items : List Value) (xs : List Snapshot) : OfKind (.list items) (.list xs)
  | map (cell : Nat) (es : List (String × Snapshot)) : OfKind (.map cell) (.map es)

theorem ofKind_of_snapshotWith {ofMap : Nat → Option Snapshot} {v : Value} {A : Snapshot}
    (hmap : ∀ c A, ofMap c = some A → ∃ es, A = .map es) (h : v.snapshotWith ofMap = some A) :
    v.OfKind A := by
  cases v with
  | atom a =>
    obtain rfl := Option.some.inj h
    exact .atom a
  | list items =>
    obtain ⟨xs, rfl, -⟩ := Value.snapshotWith_list_iff.mp h
    exact .list items xs
  | map c =>
    obtain ⟨es, rfl⟩ := hmap c A h
    exact .map c es

section

variable {ofMap : Nat → Option Snapshot} {ofMaps : Nat → Nat → Option Bool}
mutual

/-- Values are compared as their pictures are, where maps are. That a map is not looked into when
it is compared to itself makes no difference. -/
theorem equalsWith_eq (hP : ∀ n, P n → n.isNaN = false)
    (hmap : ∀ c A, ofMap c = some A → ∃ es, A = .map es)
    (ho : ∀ c d A B, ofMap c = some A → ofMap d = some B → A.Proper P → B.Proper P →
      ofMaps c d = some (A.equals B)) :
    {v w : Value} → {A B : Snapshot} → v.snapshotWith ofMap = some A →
    w.snapshotWith ofMap = some B → A.Proper P → B.Proper P →
    v.equalsWith ofMaps w = some (A.equals B)
  | .atom _, .atom _, _, _, hv, hw, _, _ => by
    obtain rfl := Option.some.inj hv
    obtain rfl := Option.some.inj hw
    rfl
  | .list _, .list _, _, _, hv, hw, hA, hB => by
    obtain ⟨as, rfl, has⟩ := Value.snapshotWith_list_iff.mp hv
    obtain ⟨bs, rfl, hbs⟩ := Value.snapshotWith_list_iff.mp hw
    rw [Value.equalsWith, Snapshot.equals, has.length_eq, hbs.length_eq]
    split
    · rename_i hlength
      rw [allEqualWith_eq hP hmap ho has hbs hA.items hB.items, beq_iff_eq.mpr hlength,
        Bool.true_and]
    · rename_i hlength
      rw [beq_eq_false_iff_ne.mpr hlength, Bool.false_and]
  | .map c, .map d, A, B, hv, hw, hA, hB => by
    rw [Value.equalsWith]
    split
    · rename_i hcd
      obtain rfl : A = B := Option.some.inj ((hv.symm.trans (hcd ▸ rfl)).trans hw)
      rw [hA.equals_self hP]
    · exact ho c d A B hv hw hA hB
  | .atom _, .list _, _, _, hv, hw, _, _ | .atom _, .map _, _, _, hv, hw, _, _
  | .list _, .atom _, _, _, hv, hw, _, _ | .list _, .map _, _, _, hv, hw, _, _
  | .map _, .atom _, _, _, hv, hw, _, _ | .map _, .list _, _, _, hv, hw, _, _ => by
    cases ofKind_of_snapshotWith hmap hv
    cases ofKind_of_snapshotWith hmap hw
    rfl

theorem allEqualWith_eq (hP : ∀ n, P n → n.isNaN = false)
    (hmap : ∀ c A, ofMap c = some A → ∃ es, A = .map es)
    (ho : ∀ c d A B, ofMap c = some A → ofMap d = some B → A.Proper P → B.Proper P →
      ofMaps c d = some (A.equals B)) :
    {vs ws : List Value} → {as bs : List Snapshot} →
    List.Forall₂ (fun v A => v.snapshotWith ofMap = some A) vs as →
    List.Forall₂ (fun w B => w.snapshotWith ofMap = some B) ws bs →
    (∀ A ∈ as, A.Proper P) → (∀ B ∈ bs, B.Proper P) →
    Value.allEqualWith ofMaps vs ws = some (Snapshot.itemsEqual as bs)
  | [], _, _, _, .nil, hws, _, _ => by
    cases hws <;> rfl
  | _ :: _, [], _, _, .cons _ _, .nil, _, _ => rfl
  | _ :: _, _ :: _, _, _, .cons hv hvs, .cons hw hws, hA, hB => by
    rw [List.forall_mem_cons] at hA hB
    rw [Value.allEqualWith, Snapshot.itemsEqual, equalsWith_eq hP hmap ho hv hw hA.1 hB.1,
      allEqualWith_eq hP hmap ho hvs hws hA.2 hB.2]
    cases Snapshot.equals _ _ <;> rfl

end

end

theorem lookup_drawn {ofMap : Nat → Option Snapshot} {pairs : List (String × Value)}
    {es : List (String × Snapshot)} (h : List.Forall₂ (Entry.Drawn ofMap) pairs es)
    (key : String) :
    Option.Rel (fun v A => v.snapshotWith ofMap = some A) (pairs.lookup key) (es.lookup key) := by
  induction h with
  | nil => exact .none
  | @cons entry e _ _ he _ ih =>
    obtain ⟨k, v⟩ := entry
    obtain ⟨k', A⟩ := e
    obtain ⟨rfl, hv⟩ : k = k' ∧ v.snapshotWith ofMap = some A := he
    rw [List.lookup_cons, List.lookup_cons]
    split
    · exact .some hv
    · exact ih

theorem allM_entries_eq (hP : ∀ n, P n → n.isNaN = false) {equal : Value → Value → Option Bool}
    {ofMap : Nat → Option Snapshot} {xs ys : Entries Value} {as bs : List (String × Snapshot)}
    (he : ∀ v w A B, v.snapshotWith ofMap = some A → w.snapshotWith ofMap = some B →
      A.Proper P → B.Proper P → equal v w = some (A.equals B))
    (has : List.Forall₂ (Entry.Drawn ofMap) xs.toList as)
    (hbs : List.Forall₂ (Entry.Drawn ofMap) ys.toList bs)
    (hA : ∀ e ∈ as, e.2.Proper P) (hB : ∀ e ∈ bs, e.2.Proper P) :
    (xs.toList.allM fun (key, x) =>
      match ys.get? key with
      | some y => equal y x
      | none => some false) = some (Snapshot.entriesEqual as bs) := by
  obtain ⟨pairs⟩ := xs
  dsimp only at has ⊢
  induction has with
  | nil => rfl
  | @cons entry e pairs as hd _ ih =>
    obtain ⟨key, x⟩ := entry
    obtain ⟨key', A⟩ := e
    obtain ⟨rfl, hx⟩ : key = key' ∧ x.snapshotWith ofMap = some A := hd
    obtain ⟨hA₁, hA⟩ := List.forall_mem_cons.mp hA
    have hfirst : (match ys.get? key with
        | some y => equal y x
        | none => some false) = some ((bs.lookup key).any A.equals) := by
      have hlookup := lookup_drawn hbs key
      rw [Entries.get?]
      generalize ys.toList.lookup key = found, hshown : bs.lookup key = shown at hlookup ⊢
      cases hlookup with
      | none => rfl
      | some hy =>
        have hB₁ := hB _ (mem_of_lookup hshown)
        exact (he _ _ _ _ hy hx hB₁ hA₁).trans (congrArg some (hB₁.equals_comm hP hA₁))
    rw [List.allM, hfirst, Snapshot.entriesEqual]
    cases (bs.lookup key).any A.equals with
    | false => rfl
    | true => exact ih hA

namespace Store

variable (hP : ∀ n, P n → n.isNaN = false)

include hP

theorem mapsEqual?_eq {depth : Nat} (more : Nat) {c d : Nat} {A B : Snapshot}
    (hc : s.mapSnapshot? depth c = some A) (hd : s.mapSnapshot? depth d = some B)
    (hA : A.Proper P) (hB : B.Proper P) : s.mapsEqual? (depth + more) c d = some (A.equals B) := by
  induction depth generalizing c d A B with
  | zero => cases hc
  | succ depth ih =>
    obtain ⟨as, rfl, has⟩ := mapSnapshot?_succ_iff.mp hc
    obtain ⟨bs, rfl, hbs⟩ := mapSnapshot?_succ_iff.mp hd
    have hlen : (s.entries c).size = as.length := has.length_eq
    have hlen' : (s.entries d).size = bs.length := hbs.length_eq
    rw [Nat.add_right_comm, mapsEqual?, Snapshot.equals, hlen, hlen']
    split
    · rename_i hlength
      rw [beq_iff_eq.mpr hlength, Bool.true_and]
      refine allM_entries_eq hP (fun v w A B hv hw hA hB => ?_) has hbs hA.values hB.values
      exact equalsWith_eq hP (fun c A h => exists_map h) (fun c d A B hc hd => ih hc hd)
        hv hw hA hB
    · rename_i hlength
      rw [beq_eq_false_iff_ne.mpr hlength, Bool.false_and]

/-- Equality of grounded values is that of their pictures. -/
theorem exists_picture (hs : s.Keyed) :
    ∃ picture : Value → Snapshot, ∀ v, v.Grounded s P →
      (picture v).Proper P ∧ ∀ w, w.Grounded s P →
        s.equals? v w = some ((picture v).equals (picture w)) := by
  obtain ⟨depth, hle, hstop⟩ := s.exists_depth P
  obtain ⟨more, hmore⟩ := Nat.exists_eq_add_of_le (hle.trans (Nat.le_mul_self _))
  choose! picture hpicture using fun (v : Value) (h : v.Grounded s P) => h.exists_snapshot hstop
  have hproper : ∀ v, v.Grounded s P → (picture v).Proper P :=
    fun v hv => hv.proper hs (hpicture v hv)
  refine ⟨picture, fun v hv => ⟨hproper v hv, fun w hw => ?_⟩⟩
  rw [equals?, hmore]
  exact equalsWith_eq hP (fun c A h => exists_map h)
    (fun c d A B hc hd => mapsEqual?_eq hP more hc hd) (hpicture v hv) (hpicture w hw)
    (hproper v hv) (hproper w hw)

end Store

def tieredNumbers : List Number :=
  [.int 1, .long 1, .decimal ⟨10, 1⟩, .double (.infinity false), .float (.infinity false)]

def tieredStore : Store :=
  { Store.empty with
    maps := #[
      .ofList [("one", .number (.int 1)), ("all", .list [.number (.double (.infinity false))])],
      .ofList [("all", .list [.number (.float (.infinity false))]), ("one", .number (.long 1))],
      .ofList [("one", .number (.decimal ⟨10, 1⟩)),
        ("all", .list [.number (.double (.infinity false))])]] }

theorem tieredStore_keyed : tieredStore.Keyed := by
  refine Store.keyed_of_forall fun e he => ?_
  simp only [tieredStore, List.mem_toArray, List.mem_cons, List.not_mem_nil, or_false] at he
  rcases he with rfl | rfl | rfl <;> exact Entries.nodup_ofList

theorem tieredNumbers_comparable (x y : Number) (hx : x ∈ tieredNumbers)
    (hy : y ∈ tieredNumbers) : x.Comparable y := by
  have hover : ∀ x ∈ tieredNumbers, ∀ y ∈ tieredNumbers, ¬x.Overflows y := by decide +kernel
  have hscale : ∀ x ∈ tieredNumbers, ∀ y ∈ tieredNumbers, ∀ d ∈ x.toDecimal?,
      ∀ e ∈ y.toDecimal?, (d.scale - e.scale).natAbs ≠ 10 := by decide +kernel
  exact ⟨hover x hx y hy, hover y hy x hx, fun d e hd he =>
    Decimal.not_spills (hscale x hx y hy d hd e he)⟩

def tieredValue (cell : Nat) : Value := .list [.map cell, .str "x"]

theorem tieredValue_grounded (cell : Nat) (hcell : cell < 3) :
    (tieredValue cell).Grounded tieredStore fun n => n ∈ tieredNumbers := by
  have hnumber : ∀ n ∈ tieredNumbers,
      (Value.number n).Grounded tieredStore fun n => n ∈ tieredNumbers := fun n hn => .atom hn
  have hitem : ∀ n ∈ tieredNumbers,
      (Value.list [.number n]).Grounded tieredStore fun n => n ∈ tieredNumbers :=
    fun n hn => .list (List.forall_mem_singleton.mpr (hnumber n hn))
  have hmap : (Value.map cell).Grounded tieredStore fun n => n ∈ tieredNumbers := by
    refine .map hcell ?_
    interval_cases cell
    · exact List.forall_mem_cons.mpr
        ⟨hnumber _ (by decide), List.forall_mem_singleton.mpr (hitem _ (by decide))⟩
    · exact List.forall_mem_cons.mpr
        ⟨hitem _ (by decide), List.forall_mem_singleton.mpr (hnumber _ (by decide))⟩
    · exact List.forall_mem_cons.mpr
        ⟨hnumber _ (by decide), List.forall_mem_singleton.mpr (hitem _ (by decide))⟩
  exact .list (List.forall_mem_cons.mpr ⟨hmap, List.forall_mem_singleton.mpr (.atom trivial)⟩)

/-- Among grounded values of which no number is NaN the comparison has an end, and equality is
reflexive and symmetric. It is transitive where all numbers are comparable. -/
theorem equals_equivalence (hs : s.Keyed) (hP : ∀ n, P n → n.isNaN = false) {a b c : Value}
    (ha : a.Grounded s P) (hb : b.Grounded s P) (hc : c.Grounded s P) :
    s.equals? a a = some true ∧
    (∃ r, s.equals? a b = some r ∧ s.equals? b a = some r) ∧
    ((∀ x y, P x → P y → x.Comparable y) → s.equals? a b = some true →
      s.equals? b c = some true → s.equals? a c = some true) := by
  obtain ⟨picture, hpicture⟩ := s.exists_picture hP hs
  obtain ⟨hA, heqa⟩ := hpicture a ha
  obtain ⟨hB, heqb⟩ := hpicture b hb
  obtain ⟨hC, -⟩ := hpicture c hc
  refine ⟨?_, ⟨_, heqa b hb, ?_⟩, fun hcomp hab hbc => ?_⟩
  · rw [heqa a ha, hA.equals_self hP]
  · rw [heqb a ha, hB.equals_comm hP hA]
  · rw [heqa b hb] at hab
    rw [heqb c hc] at hbc
    rw [heqa c hc, hA.equals_trans hP hcomp hB hC (Option.some.inj hab) (Option.some.inj hbc)]

theorem equals_equivalence_tiered :
    tieredStore.equals? (tieredValue 0) (tieredValue 0) = some true ∧
    (∃ r, tieredStore.equals? (tieredValue 0) (tieredValue 1) = some r ∧
      tieredStore.equals? (tieredValue 1) (tieredValue 0) = some r) ∧
    tieredStore.equals? (tieredValue 0) (tieredValue 2) = some true := by
  have h := equals_equivalence tieredStore_keyed (P := fun n => n ∈ tieredNumbers)
    (by decide) (tieredValue_grounded 0 (by decide))
    (tieredValue_grounded 1 (by decide)) (tieredValue_grounded 2 (by decide))
  exact ⟨h.1, h.2.1, h.2.2 tieredNumbers_comparable (by decide +kernel) (by decide +kernel)⟩

end DocTemplate
