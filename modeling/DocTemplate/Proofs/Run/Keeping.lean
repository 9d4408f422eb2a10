import DocTemplate.Proofs.Run.Holding
import DocTemplate.Run.Operator
import DocTemplate.Run.Property
import DocTemplate.Run.Stmt

namespace DocTemplate

namespace Value

theorem negate_cellFree {v w : Value} (h : v.negate = .ok w) : w.CellFree := by
  unfold negate at h
  split at h
  · obtain rfl := Except.ok.inj h
    exact .atom rfl
  · cases h

theorem arithmetic_cellFree {op : ArithOp} {a b : Number} {v : Value}
    (h : arithmetic op a b = .ok v) : v.CellFree := by
  unfold arithmetic at h
  split at h
  · obtain rfl := Except.ok.inj h
    exact .atom rfl
  · cases h

end Value

namespace Store.All

variable {P : Value → Prop} {s : Store} {v : Value}

theorem setEntry (h : s.All P) (cell : Nat) (key : String) (hv : P v) :
    (s.setEntry cell key v).All P := by
  refine ⟨fun i e hi => ?_, h.hosts, h.scopes⟩
  rw [Store.setEntry, Array.getElem?_modify] at hi
  split at hi
  · obtain ⟨old, ho, rfl⟩ := Option.map_eq_some_iff.mp hi
    exact (h.maps i old ho).insert hv
  · exact h.maps i e hi

theorem setFields {fields : Entries Value} (h : s.All P) (cell : Nat) (hf : fields.All P) :
    (s.setFields cell fields).All P := by
  refine ⟨h.maps, fun i o hi => ?_, h.scopes⟩
  rw [Store.setFields, Array.getElem?_modify] at hi
  split at hi
  · obtain ⟨old, ho, rfl⟩ := Option.map_eq_some_iff.mp hi
    exact hf
  · exact h.hosts i o hi

end Store.All

/-- What a field of a host object gives satisfies `P`, and so does all that an object holds after an
assignment, when all that it held before and what is assigned do. -/
structure Host.FieldsHold (host : Host) (P : Value → Prop) : Prop where
  get : ∀ {typeName name field}, host.field? typeName name = some field →
    ∀ {fields : Entries Value}, fields.All P → P (field.get fields)
  set : ∀ {typeName name field get set},
    host.field? typeName name = some ⟨field, get, some set⟩ →
      ∀ {fields v fields'}, set fields v = .ok fields' → fields.All P → P v → fields'.All P

namespace Run

variable {α β : Type}

def outcome (x : Run α) (s : Store) : Except Stop α × Store := x s

theorem ext {x y : Run α} (h : ∀ s, x.outcome s = y.outcome s) : x = y := funext h

@[simp] theorem outcome_read (f : Store → α) (s : Store) : (read f).outcome s = (.ok (f s), s) :=
  rfl

@[simp] theorem outcome_update (f : Store → α × Store) (s : Store) :
    (update f).outcome s = (.ok (f s).1, (f s).2) := rfl

theorem outcome_bind (x : Run α) (f : α → Run β) (s : Store) :
    (x >>= f).outcome s =
      match x.outcome s with
      | (.ok a, s') => (f a).outcome s'
      | (.error stop, s') => (.error stop, s') := by
  change (match x s with | (r, s') => ExceptT.bindCont f r s') = _
  rw [outcome]
  cases x s with
  | mk r s' => cases r <;> rfl

theorem outcome_bind_of_ok {x : Run α} {s s' : Store} {a : α} (h : x.outcome s = (.ok a, s'))
    (f : α → Run β) : (x >>= f).outcome s = (f a).outcome s' := by
  rw [outcome_bind, h]

theorem outcome_tryCatch (x : Run α) (handle : Stop → Run α) (s : Store) :
    (tryCatch x handle).outcome s =
      match x.outcome s with
      | (.error stop, s') => (handle stop).outcome s'
      | result => result := by
  simp only [tryCatch, tryCatchThe, MonadExceptOf.tryCatch, ExceptT.tryCatch, ExceptT.mk, outcome,
    bind, StateT.bind]
  cases x s with
  | mk r s' => cases r <;> rfl

theorem outcome_boundTo (token : Token) (x : Run α) (s : Store) :
    (boundTo token x).outcome s =
      match x.outcome s with
      | (.error (.raised cause), s') => (.error (.fault (token.fault cause)), s')
      | result => result := by
  rw [boundTo, outcome_tryCatch]
  cases x.outcome s with
  | mk r s' =>
    cases r with
    | ok a => rfl
    | error stop => cases stop <;> rfl

/-- A computation that changes no scopes, puts only known functions into the store, and gives what
satisfies `P`. -/
def Keeps (known : Closure → Prop) (x : Run α) (P : α → Prop) : Prop :=
  ∀ s : Store, s.Within known →
    (x.outcome s).2.scopes = s.scopes ∧ (x.outcome s).2.Within known ∧
      ∀ a, (x.outcome s).1 = .ok a → P a

namespace Keeps

variable {known : Closure → Prop} {P : α → Prop} {Q : β → Prop} {x : Run α}

theorem pure {a : α} (h : P a) : Keeps known (Pure.pure a) P := by
  intro s hs
  refine ⟨rfl, hs, fun b hb => ?_⟩
  obtain rfl := Except.ok.inj hb
  exact h

theorem throw (stop : Stop) : Keeps known (throwThe Stop stop : Run α) P :=
  fun _ hs => ⟨rfl, hs, nofun⟩

theorem raise (cause : RunCause) : Keeps known (Run.raise cause : Run α) P := .throw _

theorem fail (token : Token) (cause : RunCause) :
    Keeps known (Run.fail token cause : Run α) P := .throw _

theorem bind {f : α → Run β} (hx : Keeps known x P)
    (hf : ∀ a, P a → Keeps known (f a) Q) : Keeps known (x >>= f) Q := by
  intro s hs
  obtain ⟨hx₁, hx₂, hx₃⟩ := hx s hs
  rw [outcome_bind]
  cases hr : x.outcome s with
  | mk r s' =>
    rw [hr] at hx₁ hx₂ hx₃
    cases r with
    | error stop => exact ⟨hx₁, hx₂, nofun⟩
    | ok a =>
      obtain ⟨hf₁, hf₂, hf₃⟩ := hf a (hx₃ a rfl) s' hx₂
      exact ⟨hf₁.trans hx₁, hf₂, hf₃⟩

theorem read {f : Store → α} (h : ∀ s, s.Within known → P (f s)) :
    Keeps known (Run.read f) P := by
  intro s hs
  refine ⟨rfl, hs, fun b hb => ?_⟩
  obtain rfl := Except.ok.inj hb
  exact h s hs

theorem observe {f : Store → Option α} (h : ∀ s a, s.Within known → f s = some a → P a) :
    Keeps known (Run.observe f) P := by
  intro s hs
  rw [Run.observe, outcome_bind, outcome_read]
  dsimp only
  cases hf : f s with
  | none => exact ⟨rfl, hs, nofun⟩
  | some a =>
    refine ⟨rfl, hs, fun b hb => ?_⟩
    obtain rfl := Except.ok.inj hb
    exact h s a hs hf

theorem update {f : Store → α × Store}
    (h : ∀ s, s.Within known → (f s).2.scopes = s.scopes ∧ (f s).2.Within known ∧ P (f s).1) :
    Keeps known (Run.update f) P := by
  intro s hs
  obtain ⟨h₁, h₂, h₃⟩ := h s hs
  refine ⟨h₁, h₂, fun b hb => ?_⟩
  obtain rfl := Except.ok.inj hb
  exact h₃

theorem change {f : Store → Store}
    (h : ∀ s, s.Within known → (f s).scopes = s.scopes ∧ (f s).Within known) :
    Keeps known (Run.change f) fun _ => True :=
  fun s hs => ⟨(h s hs).1, (h s hs).2, fun _ _ => trivial⟩

theorem ofExcept {result : Except RunCause α} (h : ∀ a, result = .ok a → P a) :
    Keeps known (Run.ofExcept result) P := by
  cases result with
  | ok a => exact .pure (h a rfl)
  | error cause => exact .raise cause

theorem boundTo (token : Token) (hx : Keeps known x P) :
    Keeps known (Run.boundTo token x) P := by
  intro s hs
  have h := hx s hs
  rw [outcome_boundTo]
  split
  · rename_i cause s' hr
    rw [hr] at h
    exact ⟨h.1, h.2.1, nofun⟩
  · exact h

theorem mapM {γ : Type} {xs : List γ} {f : γ → Run α} (h : ∀ x ∈ xs, Keeps known (f x) P) :
    Keeps known (xs.mapM f) fun ys => ∀ y ∈ ys, P y := by
  induction xs with
  | nil => exact .pure nofun
  | cons x xs ih =>
    rw [List.mapM_cons]
    refine (h x List.mem_cons_self).bind fun y hy => ?_
    refine (ih fun x hx => h x (List.mem_cons_of_mem _ hx)).bind fun ys hys => ?_
    exact .pure (List.forall_mem_cons.mpr ⟨hy, hys⟩)

end Keeps

variable {known : Closure → Prop}

theorem negate_keeps (v : Value) : Keeps known (ofExcept v.negate) (·.Within known) :=
  .ofExcept fun _ hw => (Value.negate_cellFree hw).within

theorem arithmetic_keeps (op : ArithOp) (l r : Value) :
    Keeps known (arithmetic op l r) (·.Within known) := by
  unfold arithmetic
  split
  · exact .ofExcept fun v hv => (Value.arithmetic_cellFree hv).within
  · split
    · exact .raise _
    · split
      · refine .observe fun s v _ hv => ?_
        simp only [Option.bind_eq_bind, Option.pure_def, Option.bind_eq_some_iff,
          Option.some.injEq] at hv
        obtain ⟨_, _, _, _, rfl⟩ := hv
        exact Value.within_of_closures rfl
      · exact .raise _

theorem equals_keeps (l r : Value) : Keeps known (equals l r) fun _ => True :=
  .observe fun _ _ _ _ => trivial

theorem binary_keeps (op : BinaryOp) (l r : Value) :
    Keeps known (binary op l r) (·.Within known) := by
  cases op with
  | arith op => exact arithmetic_keeps op l r
  | order op =>
    refine Keeps.bind (P := fun _ => True) (.ofExcept fun _ _ => trivial) fun _ _ => ?_
    exact .pure (Value.within_of_closures rfl)
  | eq => exact (equals_keeps l r).bind fun _ _ => .pure (Value.within_of_closures rfl)
  | ne => exact (equals_keeps l r).bind fun _ _ => .pure (Value.within_of_closures rfl)

theorem isTruthy_keeps (v : Value) : Keeps known (isTruthy v) fun _ => True :=
  .read fun _ _ => trivial

theorem listProperty_hereditary {P : Value → Prop} {items : List Value} {name : String}
    {v : Value} (hP : Value.Hereditary P) (hi : ∀ item ∈ items, P item)
    (h : Value.listProperty? items name = some v) : P v := by
  unfold Value.listProperty? at h
  split at h
  · obtain rfl := Option.some.inj h
    exact hP.cellFree _ (.atom rfl)
  · obtain rfl := Option.some.inj h
    cases items with
    | nil => exact hP.cellFree _ (.atom rfl)
    | cons item items => exact hi item List.mem_cons_self
  · obtain rfl := Option.some.inj h
    cases hl : items.getLast? with
    | none => exact hP.cellFree _ (.atom rfl)
    | some item => exact hi item (List.mem_of_getLast? hl)
  · obtain rfl := Option.some.inj h
    exact hP.cellFree _ (.atom rfl)
  · cases h

theorem textProperty_cellFree {text name : String} {v : Value}
    (h : Value.textProperty? text name = some v) : v.CellFree := by
  unfold Value.textProperty? at h
  split at h
  · obtain rfl := Option.some.inj h
    exact .atom rfl
  · obtain rfl := Option.some.inj h
    exact .atom rfl
  · cases h

theorem elim_keeps {found : Option Value} {object : Value} {name : String}
    (h : ∀ v, found = some v → v.Within known) :
    Keeps known (found.elim (undefinedProperty object name) pure) (·.Within known) := by
  cases found with
  | none => exact .raise _
  | some v => exact .pure (h v rfl)

/-- The fields of host objects hold no functions but those that their objects hold and those in
what is assigned to them. -/
def FieldsKnown (host : Host) : Prop := ∀ known : Closure → Prop, host.FieldsHold (·.Within known)

theorem getProperty_keeps {host : Host} (hh : FieldsKnown host) {object : Value} (name : String)
    (ho : object.Within known) : Keeps known (getProperty host object name) (·.Within known) := by
  unfold getProperty
  split
  · exact .raise _
  · rename_i cell
    refine .read fun s hs => ?_
    cases hg : (s.entries cell).get? name with
    | none => exact Value.within_null
    | some v => exact (hs.entries cell).get? hg
  · exact elim_keeps fun v hv =>
      listProperty_hereditary (Value.hereditary_within known) (Value.within_list.mp ho) hv
  · exact elim_keeps fun v hv => (textProperty_cellFree hv).within
  · rename_i ref
    split
    · rename_i field hf
      exact .read fun s hs => (hh known).get hf (hs.all.fields ref.cell)
    · exact .raise _
  · exact .raise _

theorem setEntry_within {s : Store} {v : Value} (hs : s.Within known) (cell : Nat) (key : String)
    (hv : v.Within known) : (s.setEntry cell key v).Within known :=
  (hs.all.setEntry cell key hv).within

theorem changeFields_keeps (cell : Nat) {f : Entries Value → Except Stop (Entries Value)}
    (h : ∀ fields fields', f fields = .ok fields' → fields.Within known → fields'.Within known) :
    Keeps known (changeFields cell f) fun _ => True := by
  refine Keeps.bind (P := fun fields => fields.Within known)
    (.read fun s hs => hs.all.fields cell) fun fields hf => ?_
  split
  · rename_i fields' hchange
    exact .change fun s hs => ⟨rfl, (hs.all.setFields cell (h _ _ hchange hf)).within⟩
  · exact .throw _

theorem setProperty_keeps {host : Host} (hh : FieldsKnown host) (object : Value) (name : String)
    {v : Value} (hv : v.Within known) :
    Keeps known (setProperty host object name v) fun _ => True := by
  unfold setProperty
  split
  · exact .raise _
  · rename_i cell
    exact .change fun s hs => ⟨rfl, setEntry_within hs cell name hv⟩
  · rename_i ref
    split
    · exact .raise _
    · exact .raise _
    · rename_i field get set hf
      exact changeFields_keeps ref.cell fun fields fields' hset hk =>
        (hh known).set hf hset hk hv
  · exact .raise _

theorem loopItems_keeps (element : Token) {v : Value} (hv : v.Within known) :
    Keeps known (loopItems element v) fun items => ∀ item ∈ items, item.Within known := by
  unfold loopItems
  split
  · exact .pure (Value.within_list.mp hv)
  · rename_i cell
    refine Keeps.bind (P := fun entries => entries.Within known)
      (.read fun s hs => hs.entries cell) fun entries he => ?_
    refine .mapM fun pair hp => .update fun s hs => ⟨rfl, hs.newMap (.ofList fun p hm => ?_),
      Value.within_map _⟩
    simp only [List.mem_cons, List.not_mem_nil, or_false] at hm
    obtain rfl | rfl := hm
    · exact Value.within_of_closures rfl
    · exact he pair hp
  · exact .fail _ _

theorem copy_keeps (item : StreamItem) : Keeps known (copy item) fun _ => True := by
  cases item with
  | raw token => exact .pure trivial
  | sentinel => exact .pure trivial
  | group id => exact .throw _

theorem rewriteBody_keeps (ctx : Context) (keyword : Token) (r : RewriterRef)
    (body : List OutputToken) : Keeps known (rewriteBody ctx keyword r body) fun _ => True := by
  unfold rewriteBody
  split
  · exact .pure trivial
  · exact .fail _ _

end Run

end DocTemplate
