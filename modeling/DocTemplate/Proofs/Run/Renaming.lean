import Mathlib.Data.List.Forall2
import DocTemplate.Program.Nodes
import DocTemplate.Proofs.Run.Holding
import DocTemplate.Proofs.Run.Matching

namespace DocTemplate

namespace Expr

def isChange : Expr → Bool
  | assign .. | set .. => true
  | _ => false

/-- No part of the expression is an assignment. -/
def Steady (e : Expr) : Prop := ∀ part ∈ e.nodes, part.isChange = false

instance (e : Expr) : Decidable e.Steady := List.decidableBAll _ _

end Expr

/-- Which cells of one store stand for which of another. -/
structure Renaming where
  maps : Matching
  hosts : Matching
  scopes : Matching
  rewriters : Matching

namespace Renaming

structure Le (ρ ρ' : Renaming) : Prop where
  maps : ρ.maps ≤ ρ'.maps
  hosts : ρ.hosts ≤ ρ'.hosts
  scopes : ρ.scopes ≤ ρ'.scopes
  rewriters : ρ.rewriters ≤ ρ'.rewriters

instance : LE Renaming := ⟨Le⟩

variable {ρ ρ' ρ'' : Renaming}

theorem le_refl (ρ : Renaming) : ρ ≤ ρ :=
  ⟨fun _ _ h => h, fun _ _ h => h, fun _ _ h => h, fun _ _ h => h⟩

theorem le_trans (h : ρ ≤ ρ') (h' : ρ' ≤ ρ'') : ρ ≤ ρ'' :=
  ⟨fun a b hab => h'.maps a b (h.maps a b hab), fun a b hab => h'.hosts a b (h.hosts a b hab),
    fun a b hab => h'.scopes a b (h.scopes a b hab),
    fun a b hab => h'.rewriters a b (h.rewriters a b hab)⟩

def symm (ρ : Renaming) : Renaming :=
  ⟨ρ.maps.symm, ρ.hosts.symm, ρ.scopes.symm, ρ.rewriters.symm⟩

theorem Le.symm (h : ρ ≤ ρ') : ρ.symm ≤ ρ'.symm :=
  ⟨fun a b => h.maps b a, fun a b => h.hosts b a, fun a b => h.scopes b a,
    fun a b => h.rewriters b a⟩

def onLeft (ρ : Renaming) : Renaming :=
  ⟨ρ.maps.onLeft, ρ.hosts.onLeft, ρ.scopes.onLeft, ρ.rewriters.onLeft⟩

def within (s : Store) : Renaming :=
  ⟨.below s.maps.size, .below s.hosts.size, .below s.scopes.size, .below s.rewriters⟩

end Renaming

variable {ρ ρ' : Renaming}

inductive Atom.Alike (ρ : Renaming) : Atom → Atom → Prop
  | plain {a : Atom} (h : a.isPlain) : Alike ρ a a
  | host {typeName : String} {c d : Nat} (h : ρ.hosts.rel c d) :
      Alike ρ (.host ⟨typeName, c⟩) (.host ⟨typeName, d⟩)
  | function {params : List String} {body : Expr} {m n : Nat} (hb : body.Steady)
      (h : ρ.scopes.rel m n) : Alike ρ (.function ⟨params, body, m⟩) (.function ⟨params, body, n⟩)
  | rewriter {kind : RewriterKind} {m n : Nat} (h : ρ.rewriters.rel m n) :
      Alike ρ (.rewriter ⟨m, kind⟩) (.rewriter ⟨n, kind⟩)

namespace Atom.Alike

variable {a b : Atom}

theorem mono (hρ : ρ ≤ ρ') (h : a.Alike ρ b) : a.Alike ρ' b := by
  cases h with
  | plain hp => exact .plain hp
  | host hc => exact .host (hρ.hosts _ _ hc)
  | function hb hs => exact .function hb (hρ.scopes _ _ hs)
  | rewriter hr => exact .rewriter (hρ.rewriters _ _ hr)

theorem symm (h : a.Alike ρ b) : b.Alike ρ.symm a := by
  cases h with
  | plain hp => exact .plain hp
  | host hc => exact .host hc
  | function hb hs => exact .function hb hs
  | rewriter hr => exact .rewriter hr

theorem onLeft (h : a.Alike ρ b) : a.Alike ρ.onLeft a := by
  cases h with
  | plain hp => exact .plain hp
  | host hc => exact .host ⟨rfl, _, hc⟩
  | function hb hs => exact .function hb ⟨rfl, _, hs⟩
  | rewriter hr => exact .rewriter ⟨rfl, _, hr⟩

end Atom.Alike

inductive Value.Alike (ρ : Renaming) : Value → Value → Prop
  | atom {a b : Atom} (h : a.Alike ρ b) : Alike ρ (.atom a) (.atom b)
  | list {xs ys : List Value} (h : List.Forall₂ (Alike ρ) xs ys) : Alike ρ (.list xs) (.list ys)
  | map {c d : Nat} (h : ρ.maps.rel c d) : Alike ρ (.map c) (.map d)

namespace Value

theorem Alike.plain {a : Atom} (h : a.isPlain) : (Value.atom a).Alike ρ (.atom a) :=
  .atom (.plain h)

theorem Alike.plain_eq {a : Atom} {w : Value} (h : (Value.atom a).Alike ρ w) (ha : a.isPlain) :
    w = Value.atom a := by
  cases h with
  | atom h =>
    cases h with
    | plain => rfl
    | _ => cases ha

theorem CellFree.alike {v : Value} (h : v.CellFree) : v.Alike ρ v := by
  induction h with
  | atom h => exact .plain h
  | list _ ih => exact .list (List.forall₂_same.mpr ih)

mutual

theorem Alike.mono (hρ : ρ ≤ ρ') : {v w : Value} → v.Alike ρ w → v.Alike ρ' w
  | .atom _, _, .atom h => .atom (h.mono hρ)
  | .list _, _, .list h => .list (allAlike_mono hρ h)
  | .map _, _, .map h => .map (hρ.maps _ _ h)

theorem allAlike_mono (hρ : ρ ≤ ρ') :
    {vs ws : List Value} → List.Forall₂ (Alike ρ) vs ws → List.Forall₂ (Alike ρ') vs ws
  | [], _, .nil => .nil
  | _ :: _, _, .cons h hs => .cons (h.mono hρ) (allAlike_mono hρ hs)

end

mutual

theorem Alike.symm : {v w : Value} → v.Alike ρ w → w.Alike ρ.symm v
  | .atom _, _, .atom h => .atom h.symm
  | .list _, _, .list h => .list (allAlike_symm h)
  | .map _, _, .map h => .map h

theorem allAlike_symm :
    {vs ws : List Value} → List.Forall₂ (Alike ρ) vs ws → List.Forall₂ (Alike ρ.symm) ws vs
  | [], _, .nil => .nil
  | _ :: _, _, .cons h hs => .cons h.symm (allAlike_symm hs)

end

mutual

theorem Alike.onLeft : {v w : Value} → v.Alike ρ w → v.Alike ρ.onLeft v
  | .atom _, _, .atom h => .atom h.onLeft
  | .list _, _, .list h => .list (allAlike_onLeft h)
  | .map _, _, .map h => .map ⟨rfl, _, h⟩

theorem allAlike_onLeft :
    {vs ws : List Value} → List.Forall₂ (Alike ρ) vs ws → List.Forall₂ (Alike ρ.onLeft) vs vs
  | [], _, .nil => .nil
  | _ :: _, _, .cons h hs => .cons h.onLeft (allAlike_onLeft hs)

end

end Value

def Entry.Alike (ρ : Renaming) (p q : String × Value) : Prop := p.1 = q.1 ∧ p.2.Alike ρ q.2

theorem Entry.Alike.mono {p q : String × Value} (hρ : ρ ≤ ρ') (h : Entry.Alike ρ p q) :
    Entry.Alike ρ' p q :=
  ⟨h.1, h.2.mono hρ⟩

def Entries.Alike (ρ : Renaming) (e f : Entries Value) : Prop :=
  List.Forall₂ (Entry.Alike ρ) e.toList f.toList

namespace Entries.Alike

variable {e f : Entries Value} {key : String} {v w : Value}

theorem mono (hρ : ρ ≤ ρ') (h : e.Alike ρ f) : e.Alike ρ' f := h.imp fun _ _ => Entry.Alike.mono hρ

theorem symm (h : e.Alike ρ f) : f.Alike ρ.symm e :=
  (h.imp fun _ _ hp => (⟨hp.1.symm, hp.2.symm⟩ : Entry.Alike ρ.symm _ _)).flip

theorem onLeft (h : e.Alike ρ f) : e.Alike ρ.onLeft e := by
  obtain ⟨pairs⟩ := e
  obtain ⟨pairs'⟩ := f
  change List.Forall₂ (Entry.Alike ρ) pairs pairs' at h
  change List.Forall₂ _ pairs pairs
  induction h with
  | nil => exact .nil
  | cons hp _ ih => exact .cons ⟨rfl, hp.2.onLeft⟩ ih

theorem empty : Alike ρ .empty .empty := .nil

theorem get? (h : e.Alike ρ f) (key : String) :
    Option.Rel (Value.Alike ρ) (e.get? key) (f.get? key) := by
  obtain ⟨pairs⟩ := e
  obtain ⟨pairs'⟩ := f
  change List.Forall₂ (Entry.Alike ρ) pairs pairs' at h
  change Option.Rel _ (pairs.lookup key) (pairs'.lookup key)
  induction h with
  | nil => exact .none
  | @cons p q _ _ hp _ ih =>
    obtain ⟨k, v⟩ := p
    obtain ⟨k', w⟩ := q
    obtain ⟨rfl, hv⟩ : k = k' ∧ v.Alike ρ w := hp
    rw [List.lookup_cons, List.lookup_cons]
    split
    · exact .some hv
    · exact ih

theorem insert (h : e.Alike ρ f) (hv : v.Alike ρ w) :
    (e.insert key v).Alike ρ (f.insert key w) := by
  obtain ⟨pairs⟩ := e
  obtain ⟨pairs'⟩ := f
  change List.Forall₂ (Entry.Alike ρ) pairs pairs' at h
  change List.Forall₂ (Entry.Alike ρ) (put key v pairs) (put key w pairs')
  induction h with
  | nil => exact .cons ⟨rfl, hv⟩ .nil
  | @cons p q _ _ hp hrest ih =>
    obtain ⟨k, x⟩ := p
    obtain ⟨k', y⟩ := q
    obtain ⟨rfl, hx⟩ : k = k' ∧ x.Alike ρ y := hp
    rw [put, put]
    split
    · exact .cons ⟨rfl, hv⟩ hrest
    · exact .cons ⟨rfl, hx⟩ ih

theorem foldl_insert {pairs pairs' : List (String × Value)} (h : e.Alike ρ f)
    (hp : List.Forall₂ (Entry.Alike ρ) pairs pairs') :
    (pairs.foldl (fun e p => e.insert p.1 p.2) e).Alike ρ
      (pairs'.foldl (fun e p => e.insert p.1 p.2) f) := by
  induction hp generalizing e f with
  | nil => exact h
  | @cons p q _ _ hpq _ ih =>
    obtain ⟨hk, hv⟩ := hpq
    rw [List.foldl_cons, List.foldl_cons, hk]
    exact ih (h.insert hv)

theorem ofList {pairs pairs' : List (String × Value)}
    (hp : List.Forall₂ (Entry.Alike ρ) pairs pairs') :
    Alike ρ (.ofList pairs) (.ofList pairs') :=
  empty.foldl_insert hp

theorem size_eq (h : e.Alike ρ f) : e.size = f.size := h.length_eq

theorem isEmpty_eq (h : e.Alike ρ f) : e.isEmpty = f.isEmpty := by
  obtain ⟨pairs⟩ := e
  obtain ⟨pairs'⟩ := f
  change List.Forall₂ (Entry.Alike ρ) pairs pairs' at h
  cases h <;> rfl

end Entries.Alike

structure HostObject.Alike (ρ : Renaming) (o p : HostObject) : Prop where
  typeName : o.typeName = p.typeName
  fields : o.fields.Alike ρ p.fields

structure Scope.Alike (ρ : Renaming) (a b : Scope) : Prop where
  names : a.names.Alike ρ b.names
  parent : Option.Rel ρ.scopes.rel a.parent b.parent

namespace Scope.Alike

variable {a b : Scope}

theorem mono (hρ : ρ ≤ ρ') (h : a.Alike ρ b) : a.Alike ρ' b :=
  ⟨h.names.mono hρ, rel_imp h.parent fun _ _ => hρ.scopes _ _⟩

theorem symm (h : a.Alike ρ b) : b.Alike ρ.symm a := ⟨h.names.symm, rel_symm h.parent⟩

end Scope.Alike

/-- Cells that stand for one another hold what is alike. Nothing is said of other cells, nor of
the notes of host functions. -/
structure Store.Alike (ρ : Renaming) (s t : Store) : Prop where
  maps : ρ.maps.Holds (Entries.Alike ρ) s.maps t.maps
  hosts : ρ.hosts.Holds (HostObject.Alike ρ) s.hosts t.hosts
  scopes : ρ.scopes.Holds (Scope.Alike ρ) s.scopes t.scopes
  rewriters : ∀ m n, ρ.rewriters.rel m n → m < s.rewriters ∧ n < t.rewriters

/-- What the store holds stays, but for the names of the scope `changed`. -/
structure Store.Kept (changed : Option Nat) (s s' : Store) : Prop where
  maps : Grown s.maps s'.maps
  hosts : Grown s.hosts s'.hosts
  scopes : ∀ i scope, some i ≠ changed → s.scopes[i]? = some scope → s'.scopes[i]? = some scope
  scopeCount : s.scopes.size ≤ s'.scopes.size
  rewriters : s.rewriters ≤ s'.rewriters

namespace Store.Kept

variable {changed : Option Nat} {s s' s'' : Store}

theorem refl (changed : Option Nat) (s : Store) : Kept changed s s :=
  ⟨.refl _, .refl _, fun _ _ _ h => h, Nat.le_refl _, Nat.le_refl _⟩

theorem trans (h : Kept changed s s') (h' : Kept changed s' s'') : Kept changed s s'' :=
  ⟨h.maps.trans h'.maps, h.hosts.trans h'.hosts,
    fun i sc hi hsc => h'.scopes i sc hi (h.scopes i sc hi hsc),
    Nat.le_trans h.scopeCount h'.scopeCount, Nat.le_trans h.rewriters h'.rewriters⟩

theorem widen (h : Kept none s s') (changed : Option Nat) : Kept changed s s' :=
  ⟨h.maps, h.hosts, fun i sc _ hsc => h.scopes i sc nofun hsc, h.scopeCount, h.rewriters⟩

theorem narrow {i : Nat} (h : Kept none s s') (hi : s.scopes.size ≤ i)
    (h' : Kept (some i) s' s'') : Kept none s s'' := by
  refine ⟨h.maps.trans h'.maps, h.hosts.trans h'.hosts, fun j sc hj hsc => ?_,
    Nat.le_trans h.scopeCount h'.scopeCount, Nat.le_trans h.rewriters h'.rewriters⟩
  refine h'.scopes j sc (fun he => ?_) (h.scopes j sc hj hsc)
  have hlt : j < s.scopes.size := (Array.getElem?_eq_some_iff.mp hsc).1
  have heq : j = i := Option.some.inj he
  omega

end Store.Kept

namespace Store.Alike

variable {s t s' t' : Store}

theorem symm (h : s.Alike ρ t) : t.Alike ρ.symm s :=
  ⟨h.maps.symm fun _ _ => Entries.Alike.symm,
    h.hosts.symm fun _ _ ho => ⟨ho.typeName.symm, ho.fields.symm⟩,
    h.scopes.symm fun _ _ => Scope.Alike.symm, fun m n hr => (h.rewriters n m hr).symm⟩

theorem kept (h : s.Alike ρ t) (hs : Kept none s s') (ht : Kept none t t') : s'.Alike ρ t' where
  maps := h.maps.grown hs.maps ht.maps
  hosts := h.hosts.grown hs.hosts ht.hosts
  scopes := h.scopes.grown (fun i sc h => hs.scopes i sc nofun h)
    (fun i sc h => ht.scopes i sc nofun h)
  rewriters m n hr :=
    ⟨Nat.lt_of_lt_of_le (h.rewriters m n hr).1 hs.rewriters,
      Nat.lt_of_lt_of_le (h.rewriters m n hr).2 ht.rewriters⟩

theorem entries (h : s.Alike ρ t) {c d : Nat} (hc : ρ.maps.rel c d) :
    (s.entries c).Alike ρ (t.entries d) := by
  obtain ⟨e, f, he, hf, hef⟩ := h.maps c d hc
  simpa [Store.entries, he, hf] using hef

theorem lookup? (h : s.Alike ρ t) {m n : Nat} (hm : ρ.scopes.rel m n) (name : String) :
    Option.Rel (Value.Alike ρ) (s.lookup? m name) (t.lookup? n name) := by
  obtain ⟨a, b, ha, hb, hab⟩ := h.scopes m n hm
  simpa [Store.lookup?, Store.names, ha, hb] using hab.names.get? name

theorem ancestor? (h : s.Alike ρ t) {m n : Nat} (hm : ρ.scopes.rel m n) (distance : Nat) :
    Option.Rel ρ.scopes.rel (s.ancestor? m distance) (t.ancestor? n distance) := by
  induction distance generalizing m n with
  | zero => exact .some hm
  | succ distance ih =>
    obtain ⟨a, b, ha, hb, hab⟩ := h.scopes m n hm
    simp only [Store.ancestor?, Store.parent?, ha, hb, Option.bind_some]
    exact rel_bind hab.parent fun _ _ => ih

theorem lookupAt? (h : s.Alike ρ t) {m n : Nat} (hm : ρ.scopes.rel m n) (distance : Nat)
    (name : String) :
    Option.Rel (Value.Alike ρ) (s.lookupAt? m distance name) (t.lookupAt? n distance name) :=
  rel_bind (h.ancestor? hm distance) fun _ _ ho => h.lookup? ho name

theorem fields (h : s.Alike ρ t) {c d : Nat} (hc : ρ.hosts.rel c d) :
    (s.fields c).Alike ρ (t.fields d) := by
  obtain ⟨o, p, ho, hp, hop⟩ := h.hosts c d hc
  simpa [Store.fields, ho, hp] using hop.fields

end Store.Alike

namespace Renaming

variable {s t : Store}

def addMap (ρ : Renaming) (s t : Store) : Renaming :=
  { ρ with maps := ρ.maps.add s.maps.size t.maps.size }

def addScope (ρ : Renaming) (s t : Store) : Renaming :=
  { ρ with scopes := ρ.scopes.add s.scopes.size t.scopes.size }

def addRewriter (ρ : Renaming) (s t : Store) : Renaming :=
  { ρ with rewriters := ρ.rewriters.add s.rewriters t.rewriters }

theorem le_addMap (h : s.Alike ρ t) : ρ ≤ ρ.addMap s t :=
  ⟨h.maps.le_add, fun _ _ h => h, fun _ _ h => h, fun _ _ h => h⟩

theorem le_addScope (h : s.Alike ρ t) : ρ ≤ ρ.addScope s t :=
  ⟨fun _ _ h => h, fun _ _ h => h, h.scopes.le_add, fun _ _ h => h⟩

theorem le_addRewriter (h : s.Alike ρ t) : ρ ≤ ρ.addRewriter s t :=
  ⟨fun _ _ h => h, fun _ _ h => h, fun _ _ h => h, fun m n hr =>
    .inr ⟨Nat.ne_of_lt (h.rewriters m n hr).1, Nat.ne_of_lt (h.rewriters m n hr).2, hr⟩⟩

end Renaming

namespace Store

variable {s t : Store}

theorem Alike.cells (h : s.Alike ρ t) (hρ : ρ ≤ ρ') :
    ρ.maps.Holds (Entries.Alike ρ') s.maps t.maps ∧
      ρ.hosts.Holds (HostObject.Alike ρ') s.hosts t.hosts ∧
        ρ.scopes.Holds (Scope.Alike ρ') s.scopes t.scopes :=
  ⟨h.maps.imp fun _ _ he => he.mono hρ,
    h.hosts.imp fun _ _ ho => ⟨ho.typeName, ho.fields.mono hρ⟩,
    h.scopes.imp fun _ _ hs => hs.mono hρ⟩

theorem newMap_kept (s : Store) (entries : Entries Value) : Kept none s (s.newMap entries).2 :=
  ⟨.push _ _, .refl _, fun _ _ _ h => h, Nat.le_refl _, Nat.le_refl _⟩

theorem newRewriter_kept (s : Store) (kind : RewriterKind) :
    Kept none s (s.newRewriter kind).2 :=
  ⟨.refl _, .refl _, fun _ _ _ h => h, Nat.le_refl _, Nat.le_succ _⟩

theorem newScope_kept (s : Store) (parent : Option Nat) : Kept none s (s.newScope parent).2 :=
  ⟨.refl _, .refl _, fun i sc _ h => Grown.push _ _ i sc h, by simp [Store.newScope], Nat.le_refl _⟩

theorem define_kept (s : Store) (scope : Nat) (name : String) (v : Value) :
    Kept (some scope) s (s.define scope name v) := by
  refine ⟨.refl _, .refl _, fun i sc hi h => ?_, by simp [Store.define], Nat.le_refl _⟩
  have hne : scope ≠ i := fun he => hi (congrArg some he.symm)
  simpa [Store.define, Array.getElem?_modify, hne] using h

theorem defineAll_kept (s : Store) (scope : Nat) (pairs : List (String × Value)) :
    Kept (some scope) s (s.defineAll scope pairs) := by
  induction pairs generalizing s with
  | nil => exact .refl _ _
  | cons pair pairs ih => exact (define_kept s scope pair.1 pair.2).trans (ih _)

theorem Alike.newMap (h : s.Alike ρ t) {e f : Entries Value} (hef : e.Alike ρ f) :
    (s.newMap e).2.Alike (ρ.addMap s t) (t.newMap f).2 := by
  have hρ := Renaming.le_addMap h
  obtain ⟨-, hh, hs⟩ := h.cells hρ
  exact ⟨h.maps.push (fun _ _ he => he.mono hρ) (hef.mono hρ), hh, hs, h.rewriters⟩

theorem Alike.newRewriter (h : s.Alike ρ t) (kind : RewriterKind) :
    (s.newRewriter kind).2.Alike (ρ.addRewriter s t) (t.newRewriter kind).2 := by
  obtain ⟨hm, hh, hs⟩ := h.cells (Renaming.le_addRewriter h)
  refine ⟨hm, hh, hs, ?_⟩
  rintro m n (⟨rfl, rfl⟩ | ⟨-, -, hr⟩)
  · exact ⟨Nat.lt_succ_self _, Nat.lt_succ_self _⟩
  · exact ⟨Nat.lt_succ_of_lt (h.rewriters m n hr).1, Nat.lt_succ_of_lt (h.rewriters m n hr).2⟩

theorem Alike.newScope (h : s.Alike ρ t) {p q : Option Nat} (hp : Option.Rel ρ.scopes.rel p q) :
    (s.newScope p).2.Alike (ρ.addScope s t) (t.newScope q).2 := by
  have hρ := Renaming.le_addScope h
  obtain ⟨hm, hh, -⟩ := h.cells hρ
  exact ⟨hm, hh, h.scopes.push (fun _ _ he => he.mono hρ) (Scope.Alike.mono hρ ⟨.empty, hp⟩),
    h.rewriters⟩

theorem Alike.define (h : s.Alike ρ t) {m n : Nat} (hm : ρ.scopes.rel m n) (name : String)
    {v w : Value} (hv : v.Alike ρ w) : (s.define m name v).Alike ρ (t.define n name w) :=
  ⟨h.maps, h.hosts, h.scopes.modify hm fun _ _ hab => ⟨hab.names.insert hv, hab.parent⟩,
    h.rewriters⟩

theorem Alike.defineAll (h : s.Alike ρ t) {m n : Nat} (hm : ρ.scopes.rel m n)
    {pairs pairs' : List (String × Value)} (hp : List.Forall₂ (Entry.Alike ρ) pairs pairs') :
    (s.defineAll m pairs).Alike ρ (t.defineAll n pairs') := by
  induction hp generalizing s t with
  | nil => exact h
  | @cons p q _ _ hpq _ ih =>
    obtain ⟨k, v⟩ := p
    obtain ⟨k', w⟩ := q
    obtain ⟨rfl, hv⟩ : k = k' ∧ v.Alike ρ w := hpq
    exact ih (h.define hm k hv)

end Store

end DocTemplate
