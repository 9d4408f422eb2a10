import Mathlib.Data.List.Forall2
import Mathlib.Data.List.Nodup
import DocTemplate.Proofs.Number.Amount
import DocTemplate.Value.Equality

namespace DocTemplate

namespace Atom

variable {P : Number → Prop} {a b c : Atom}

inductive Identity where
  | null
  | bool (b : Bool)
  | number (amount : Number.Amount)
  | str (s : String)
  | date (d : Date)
  | dateTime (d : DateTime)
  | zoned (instant : Int) (nano : Nat)
  | host (cell : Nat)
  | function (node : Nat) (params : List String) (scope : Nat)
  | native (f : Native)
  | rewriter (serial : Nat)

def identity? : Atom → Option Identity
  | null => some .null
  | bool b => some (.bool b)
  | number n => n.amount?.map .number
  | str s => some (.str s)
  | date d => some (.date d)
  | dateTime d => some (.dateTime d)
  | zoned z => some (.zoned z.instant z.local_.time.nano)
  | host object => some (.host object.cell)
  | function f => some (.function f.body.site.id f.params f.scope)
  | native f => some (.native f)
  | rewriter r => some (.rewriter r.serial)

def NumberIn (P : Number → Prop) : Atom → Prop
  | number n => P n
  | _ => True

theorem NumberIn.imp {Q : Number → Prop} (h : a.NumberIn P) (hPQ : ∀ n, P n → Q n) :
    a.NumberIn Q := by
  cases a with
  | number n => exact hPQ n h
  | _ => trivial

def Comparable (a b : Atom) : Prop := ∀ x y, a = number x → b = number y → x.Comparable y

theorem equals_iff (ha : a.NumberIn fun n => n.isNaN = false)
    (hb : b.NumberIn fun n => n.isNaN = false) (h : a.Comparable b) :
    a.equals b = true ↔ a.identity? = b.identity? := by
  cases a <;> cases b
  case number.number x y =>
    rw [equals, Number.equals_iff ha hb (h x y rfl rfl), identity?, identity?]
    exact (Option.map_injective fun _ _ => Identity.number.inj).eq_iff.symm
  all_goals simp [equals, identity?, ZonedDateTime.compare, Closure.same, and_assoc]

theorem comparable_self (a : Atom) : a.Comparable a := by
  rintro x y rfl hy
  cases hy
  exact x.comparable_self

theorem equals_self (h : a.NumberIn fun n => n.isNaN = false) : a.equals a = true :=
  (equals_iff h h a.comparable_self).mpr rfl

theorem equals_symm (ha : a.NumberIn fun n => n.isNaN = false)
    (hb : b.NumberIn fun n => n.isNaN = false) (h : a.equals b = true) : b.equals a = true := by
  by_cases hn : ∃ x y, a = number x ∧ b = number y
  · obtain ⟨x, y, rfl, rfl⟩ := hn
    exact (Number.equals_comm y x).trans h
  · have hab : a.Comparable b := fun x y hx hy => absurd ⟨x, y, hx, hy⟩ hn
    have hba : b.Comparable a := fun x y hx hy => absurd ⟨y, x, hy, hx⟩ hn
    exact (equals_iff hb ha hba).mpr ((equals_iff ha hb hab).mp h).symm

theorem equals_trans (ha : a.NumberIn fun n => n.isNaN = false)
    (hb : b.NumberIn fun n => n.isNaN = false) (hc : c.NumberIn fun n => n.isNaN = false)
    (hab : a.Comparable b) (hbc : b.Comparable c) (hac : a.Comparable c)
    (h : a.equals b = true) (h' : b.equals c = true) : a.equals c = true :=
  (equals_iff ha hc hac).mpr
    (((equals_iff ha hb hab).mp h).trans ((equals_iff hb hc hbc).mp h'))

end Atom

section

variable {α : Type} {key : String} {x : α} {pairs : List (String × α)}

theorem mem_of_lookup (h : pairs.lookup key = some x) : (key, x) ∈ pairs := by
  obtain ⟨before, after, rfl, -⟩ := List.lookup_eq_some_iff.mp h
  exact List.mem_append_right _ List.mem_cons_self

theorem lookup_of_mem (hn : (pairs.map Prod.fst).Nodup) (h : (key, x) ∈ pairs) :
    pairs.lookup key = some x := by
  obtain ⟨before, after, rfl⟩ := List.mem_iff_append.mp h
  refine List.lookup_eq_some_iff.mpr ⟨before, after, rfl, fun p hp => ?_⟩
  rw [List.map_append, List.map_cons, List.nodup_append] at hn
  exact bne_iff_ne.mpr fun he =>
    hn.2.2 p.1 (List.mem_map_of_mem hp) key List.mem_cons_self he.symm

end

namespace Snapshot

mutual

/-- Equality of pictures: items by position, entries by key. -/
def equals : Snapshot → Snapshot → Bool
  | atom a, atom b => a.equals b
  | list xs, list ys => xs.length == ys.length && itemsEqual xs ys
  | map es, map fs => es.length == fs.length && entriesEqual es fs
  | _, _ => false

def itemsEqual : List Snapshot → List Snapshot → Bool
  | x :: xs, y :: ys => equals x y && itemsEqual xs ys
  | _, _ => true

def entriesEqual : List (String × Snapshot) → List (String × Snapshot) → Bool
  | [], _ => true
  | (key, x) :: es, fs => (fs.lookup key).any (equals x) && entriesEqual es fs

end

variable {P : Number → Prop} {A B C : Snapshot} {xs ys : List Snapshot}
variable {es fs : List (String × Snapshot)}

theorem equals_list_iff :
    (list xs).equals (list ys) = true ↔
      xs.length = ys.length ∧
        ∀ (i : Nat) (hx : i < xs.length) (hy : i < ys.length), xs[i].equals ys[i] = true := by
  have hitems : xs.length = ys.length ∧ itemsEqual xs ys = true ↔
      List.Forall₂ (fun x y => x.equals y = true) xs ys := by
    induction xs generalizing ys with
    | nil => cases ys <;> simp [itemsEqual]
    | cons x xs ih =>
      cases ys with
      | nil => simp
      | cons y ys =>
        rw [List.forall₂_cons, ← ih, itemsEqual, Bool.and_eq_true, List.length_cons,
          List.length_cons, Nat.add_right_cancel_iff, and_left_comm]
  rw [equals, Bool.and_eq_true, beq_iff_eq, hitems, List.forall₂_iff_get]
  rfl

theorem equals_map_iff :
    (map es).equals (map fs) = true ↔
      es.length = fs.length ∧
        ∀ e ∈ es, ∃ y, fs.lookup e.1 = some y ∧ e.2.equals y = true := by
  have hentries : entriesEqual es fs = true ↔
      ∀ e ∈ es, ∃ y, fs.lookup e.1 = some y ∧ e.2.equals y = true := by
    induction es with
    | nil => simp [entriesEqual]
    | cons e es ih =>
      rw [entriesEqual, Bool.and_eq_true, ih, Option.any_eq_true, List.forall_mem_cons]
  rw [equals, Bool.and_eq_true, beq_iff_eq, hentries]

inductive Proper (P : Number → Prop) : Snapshot → Prop
  | atom {a : Atom} (h : a.NumberIn P) : Proper P (atom a)
  | list {xs : List Snapshot} (h : ∀ x ∈ xs, Proper P x) : Proper P (list xs)
  | map {es : List (String × Snapshot)} (hn : (es.map Prod.fst).Nodup)
      (h : ∀ e ∈ es, Proper P e.2) : Proper P (map es)

theorem Proper.items (h : (Snapshot.list xs).Proper P) : ∀ x ∈ xs, x.Proper P := by
  cases h with
  | list h => exact h

theorem Proper.values (h : (Snapshot.map es).Proper P) : ∀ e ∈ es, e.2.Proper P := by
  cases h with
  | map _ h => exact h

theorem perm_keys (hn : (es.map Prod.fst).Nodup) (hlength : es.length = fs.length)
    (h : ∀ e ∈ es, ∃ y, fs.lookup e.1 = some y ∧ e.2.equals y = true) :
    (es.map Prod.fst).Perm (fs.map Prod.fst) := by
  have hsub : es.map Prod.fst ⊆ fs.map Prod.fst := by
    intro key hkey
    obtain ⟨e, he, rfl⟩ := List.mem_map.mp hkey
    obtain ⟨y, hy, -⟩ := h e he
    exact List.mem_map.mpr ⟨_, mem_of_lookup hy, rfl⟩
  exact (hn.subperm hsub).perm_of_length_le (by rw [List.length_map, List.length_map, hlength])

section

variable (hP : ∀ n, P n → n.isNaN = false)

include hP

theorem Proper.equals_self (hA : A.Proper P) : A.equals A = true := by
  induction hA with
  | atom h => exact Atom.equals_self (h.imp hP)
  | list _ ih => exact equals_list_iff.mpr ⟨rfl, fun i hx _ => ih _ (List.getElem_mem hx)⟩
  | map hn _ ih =>
    exact equals_map_iff.mpr ⟨rfl, fun e he => ⟨e.2, lookup_of_mem hn he, ih e he⟩⟩

theorem Proper.equals_symm (hA : A.Proper P) (hB : B.Proper P) (h : A.equals B = true) :
    B.equals A = true := by
  induction hA generalizing B with
  | atom ha =>
    cases hB with
    | atom hb => exact Atom.equals_symm (ha.imp hP) (hb.imp hP) h
    | _ => cases h
  | list _ ih =>
    cases hB with
    | list hys =>
      obtain ⟨hlength, hitems⟩ := equals_list_iff.mp h
      exact equals_list_iff.mpr ⟨hlength.symm, fun i hy hx =>
        ih _ (List.getElem_mem hx) (hys _ (List.getElem_mem hy)) (hitems i hx hy)⟩
    | _ => cases h
  | @map es hn _ ih =>
    cases hB with
    | @map fs hn' hfs =>
      obtain ⟨hlength, hentries⟩ := equals_map_iff.mp h
      refine equals_map_iff.mpr ⟨hlength.symm, fun f hf => ?_⟩
      have hkey : f.1 ∈ es.map Prod.fst :=
        (perm_keys hn hlength hentries).mem_iff.mpr (List.mem_map_of_mem hf)
      obtain ⟨e, he, hef⟩ := List.mem_map.mp hkey
      obtain ⟨y, hy, hey⟩ := hentries e he
      rw [hef, lookup_of_mem hn' hf] at hy
      obtain rfl := Option.some.inj hy
      exact ⟨e.2, hef ▸ lookup_of_mem hn he, ih e he (hfs f hf) hey⟩
    | _ => cases h

theorem Proper.equals_trans (hcomp : ∀ x y, P x → P y → x.Comparable y) (hA : A.Proper P)
    (hB : B.Proper P) (hC : C.Proper P) (h : A.equals B = true) (h' : B.equals C = true) :
    A.equals C = true := by
  induction hA generalizing B C with
  | @atom a ha =>
    cases hB with
    | @atom b hb =>
      cases hC with
      | @atom c hc =>
        have hatoms : ∀ {a b : Atom}, a.NumberIn P → b.NumberIn P → a.Comparable b := by
          rintro _ _ hx hy x y rfl rfl
          exact hcomp x y hx hy
        exact Atom.equals_trans (ha.imp hP) (hb.imp hP) (hc.imp hP) (hatoms ha hb) (hatoms hb hc)
          (hatoms ha hc) h h'
      | _ => cases h'
    | _ => cases h
  | list _ ih =>
    cases hB with
    | list hys =>
      cases hC with
      | list hzs =>
        obtain ⟨hxy, hitems⟩ := equals_list_iff.mp h
        obtain ⟨hyz, hitems'⟩ := equals_list_iff.mp h'
        refine equals_list_iff.mpr ⟨hxy.trans hyz, fun i hx hz => ?_⟩
        have hy := hxy ▸ hx
        exact ih _ (List.getElem_mem hx) (hys _ (List.getElem_mem hy))
          (hzs _ (List.getElem_mem hz)) (hitems i hx hy) (hitems' i hy hz)
      | _ => cases h'
    | _ => cases h
  | map _ _ ih =>
    cases hB with
    | map _ hfs =>
      cases hC with
      | map _ hgs =>
        obtain ⟨hlength, hentries⟩ := equals_map_iff.mp h
        obtain ⟨hlength', hentries'⟩ := equals_map_iff.mp h'
        refine equals_map_iff.mpr ⟨hlength.trans hlength', fun e he => ?_⟩
        obtain ⟨y, hy, hey⟩ := hentries e he
        obtain ⟨z, hz, hyz⟩ := hentries' (e.1, y) (mem_of_lookup hy)
        exact ⟨z, hz, ih e he (hfs _ (mem_of_lookup hy)) (hgs _ (mem_of_lookup hz)) hey hyz⟩
      | _ => cases h'
    | _ => cases h

theorem Proper.equals_comm (hA : A.Proper P) (hB : B.Proper P) : A.equals B = B.equals A :=
  Bool.eq_iff_iff.mpr ⟨hA.equals_symm hP hB, hB.equals_symm hP hA⟩

end

end Snapshot

end DocTemplate
