import DocTemplate.Proofs.Run.Relabeled

namespace DocTemplate

structure Host.FieldsRelabeled (host : Host) : Prop where
  get : ∀ {typeName name field}, host.field? typeName name = some field →
    ∀ (ρ : Relabeling) (fields : Entries Value),
      field.get (fields.relabel ρ false) = (field.get fields).relabel ρ
  set : ∀ {typeName name field get set},
    host.field? typeName name = some ⟨field, get, some set⟩ →
      ∀ (ρ : Relabeling) (fields : Entries Value) (v : Value),
        set (fields.relabel ρ false) (v.relabel ρ) = (set fields v).map (·.relabel ρ false)

namespace Run

variable {α β γ δ : Type} {ρ : Relabeling} {f : α → β} {g : γ → δ} {x : Run α} {y : Run β}

/-- On a store with new names `y` does what `x` does, and gives what `f` makes of its result. -/
def Mirrors (ρ : Relabeling) (f : α → β) (x : Run α) (y : Run β) : Prop :=
  ∀ (marked : Nat → Bool) (s : Store),
    y.outcome (s.relabel ρ marked) = ((x.outcome s).1.map f, (x.outcome s).2.relabel ρ marked)

namespace Mirrors

theorem pure (f : α → β) (a : α) : Mirrors ρ f (Pure.pure a) (Pure.pure (f a)) := fun _ _ => rfl

theorem throw (stop : Stop) :
    Mirrors ρ f (throwThe Stop stop : Run α) (throwThe Stop stop : Run β) := fun _ _ => rfl

theorem raise (cause : RunCause) : Mirrors ρ f (Run.raise cause) (Run.raise cause) := .throw _

theorem fail (token : Token) (cause : RunCause) :
    Mirrors ρ f (Run.fail token cause) (Run.fail token cause) := .throw _

theorem ofExcept (f : α → β) (r : Except RunCause α) :
    Mirrors ρ f (Run.ofExcept r) (Run.ofExcept (r.map f)) := by
  cases r with
  | ok a => exact .pure f a
  | error cause => exact .raise cause

theorem bind {k : α → Run γ} {k' : β → Run δ} (hx : Mirrors ρ f x y)
    (hk : ∀ a, Mirrors ρ g (k a) (k' (f a))) : Mirrors ρ g (x >>= k) (y >>= k') := by
  intro marked s
  rw [outcome_bind, outcome_bind, hx marked s]
  rcases x.outcome s with ⟨r, s'⟩
  cases r with
  | ok a => exact hk a marked s'
  | error stop => rfl

theorem boundTo (token : Token) (hx : Mirrors ρ f x y) :
    Mirrors ρ f (Run.boundTo token x) (Run.boundTo token y) := by
  intro marked s
  rw [outcome_boundTo, outcome_boundTo, hx marked s]
  rcases x.outcome s with ⟨r, s'⟩
  cases r with
  | ok a => rfl
  | error stop => cases stop <;> rfl

theorem read {h : Store → α} {h' : Store → β}
    (hh : ∀ marked s, h' (s.relabel ρ marked) = f (h s)) :
    Mirrors ρ f (Run.read h) (Run.read h') := by
  intro marked s
  rw [outcome_read, outcome_read, hh]
  rfl

theorem observe {h : Store → Option α} {h' : Store → Option β}
    (hh : ∀ marked s, h' (s.relabel ρ marked) = (h s).map f) :
    Mirrors ρ f (Run.observe h) (Run.observe h') := by
  refine bind (f := Option.map f) (.read hh) fun found => ?_
  cases found with
  | some a => exact .pure f a
  | none => exact .throw _

theorem update {h : Store → α × Store} {h' : Store → β × Store}
    (hh : ∀ marked s, h' (s.relabel ρ marked) = (f (h s).1, (h s).2.relabel ρ marked)) :
    Mirrors ρ f (Run.update h) (Run.update h') := by
  intro marked s
  rw [outcome_update, outcome_update, hh]
  rfl

theorem change {h h' : Store → Store}
    (hh : ∀ marked s, h' (s.relabel ρ marked) = (h s).relabel ρ marked) :
    Mirrors ρ id (Run.change h) (Run.change h') := by
  intro marked s
  exact congrArg (Prod.mk (Except.ok ())) (hh marked s)

theorem mapM {k : γ → Run α} {k' : δ → Run β} (hk : ∀ c, Mirrors ρ f (k c) (k' (g c)))
    (xs : List γ) : Mirrors ρ (List.map f) (xs.mapM k) ((xs.map g).mapM k') := by
  induction xs with
  | nil => exact .pure _ []
  | cons x xs ih =>
    rw [List.map_cons, List.mapM_cons, List.mapM_cons]
    exact (hk x).bind fun a => ih.bind fun as => .pure (List.map f) (a :: as)

end Mirrors

theorem concat_mirrors (v w : Value) :
    Mirrors ρ (Value.relabel ρ) (concat v w) (concat (v.relabel ρ) (w.relabel ρ)) := by
  refine .observe fun marked s => ?_
  rw [Store.text?_relabel, Store.text?_relabel]
  cases s.text? v with
  | none => rfl
  | some l => cases s.text? w <;> rfl

theorem negate_mirrors (v : Value) :
    Mirrors ρ (Value.relabel ρ) (ofExcept v.negate) (ofExcept (v.relabel ρ).negate) := by
  have hn : (v.relabel ρ).negate = v.negate.map (·.relabel ρ) := by
    cases v with
    | atom a => cases a <;> rfl
    | _ => rfl
  rw [hn]
  exact .ofExcept _ _

theorem arithmetic_mirrors (op : ArithOp) (v w : Value) :
    Mirrors ρ (Value.relabel ρ) (arithmetic op v w)
      (arithmetic op (v.relabel ρ) (w.relabel ρ)) := by
  by_cases hn : ∃ a b, v = .number a ∧ w = .number b
  · obtain ⟨a, b, rfl, rfl⟩ := hn
    have hr : (Value.arithmetic op a b).map (·.relabel ρ) = Value.arithmetic op a b := by
      unfold Value.arithmetic
      cases a.arithmetic op b <;> rfl
    have h := Mirrors.ofExcept (ρ := ρ) (Value.relabel ρ) (Value.arithmetic op a b)
    rw [hr] at h
    exact h
  · rw [arithmetic.eq_2 op v w fun a b hv hw => hn ⟨a, b, hv, hw⟩,
      arithmetic.eq_2 op _ _ fun a b hv hw =>
        hn ⟨a, b, Value.eq_number_of_relabel hv, Value.eq_number_of_relabel hw⟩]
    simp only [Value.isDecimal_relabel, Value.isNull_relabel, Value.str?_relabel]
    split
    · exact .raise _
    · split
      · exact concat_mirrors v w
      · exact .raise _

theorem equals_mirrors (v w : Value) :
    Mirrors ρ id (equals v w) (equals (v.relabel ρ) (w.relabel ρ)) := by
  refine .observe fun marked s => ?_
  rw [Store.equals?_relabel, Option.map_id, id]

theorem binary_mirrors (op : BinaryOp) (v w : Value) :
    Mirrors ρ (Value.relabel ρ) (binary op v w) (binary op (v.relabel ρ) (w.relabel ρ)) := by
  cases op with
  | arith op => exact arithmetic_mirrors op v w
  | order op =>
    rw [binary, binary, Value.compare_relabel]
    have h := Mirrors.ofExcept (ρ := ρ) id (v.compare w)
    rw [Except.map_id, id] at h
    exact h.bind fun o => .pure (Value.relabel ρ) (.bool (op.holds o))
  | eq => exact (equals_mirrors v w).bind fun b => .pure (Value.relabel ρ) (.bool b)
  | ne => exact (equals_mirrors v w).bind fun b => .pure (Value.relabel ρ) (.bool !b)

theorem isTruthy_mirrors (v : Value) :
    Mirrors ρ id (isTruthy v) (isTruthy (v.relabel ρ)) :=
  .read fun _ s => s.isTruthy_relabel v

theorem listProperty?_relabel (items : List Value) (name : String) :
    Value.listProperty? (items.map (·.relabel ρ)) name =
      (Value.listProperty? items name).map (·.relabel ρ) := by
  unfold Value.listProperty?
  split
  · rw [List.length_map]
    rfl
  · cases items <;> rfl
  · rw [List.getLast?_map]
    cases items.getLast? <;> rfl
  · cases items <;> rfl
  · rfl

theorem elim_mirrors (found : Option Value) (object : Value) (name : String) :
    Mirrors ρ (Value.relabel ρ) (found.elim (undefinedProperty object name) pure)
      ((found.map (·.relabel ρ)).elim (undefinedProperty (object.relabel ρ) name) pure) := by
  cases found with
  | none =>
    rw [Option.map_none, Option.elim_none, Option.elim_none, undefinedProperty, undefinedProperty,
      Value.typeName_relabel]
    exact .raise _
  | some v => exact .pure _ v

theorem getProperty_mirrors {host : Host} (hh : host.FieldsRelabeled) (object : Value)
    (name : String) :
    Mirrors ρ (Value.relabel ρ) (getProperty host object name)
      (getProperty host (object.relabel ρ) name) := by
  cases object with
  | map cell =>
    refine .read fun marked s => ?_
    have hg : ((s.entries cell).relabel ρ false).get? (ρ.key false name) = _ :=
      (s.entries cell).get?_relabel name
    rw [Store.entries_relabel]
    refine (congrArg (Option.getD · .null) hg).trans ?_
    cases (s.entries cell).get? name <;> rfl
  | list items =>
    have h := elim_mirrors (ρ := ρ) (Value.listProperty? items name) (.list items) name
    rw [← listProperty?_relabel, Value.relabel_list] at h
    rw [Value.relabel_list]
    exact h
  | atom a =>
    cases a with
    | str text =>
      have h := elim_mirrors (ρ := ρ) (Value.textProperty? text name) (.str text) name
      have ht : (Value.textProperty? text name).map (·.relabel ρ) =
          Value.textProperty? text name := by
        unfold Value.textProperty?
        split <;> rfl
      rw [ht] at h
      exact h
    | host ref =>
      simp only [Value.relabel, Atom.relabel, getProperty]
      cases hf : host.field? ref.typeName name with
      | none => exact .raise _
      | some field =>
        refine .read fun marked s => ?_
        rw [Store.fields_relabel]
        exact hh.get hf ρ _
    | null => exact .raise _
    | _ => exact .raise _

theorem setEntry_relabel (marked : Nat → Bool) (s : Store) (cell : Nat) (key : String) (v : Value) :
    (s.relabel ρ marked).setEntry cell key (v.relabel ρ) =
      (s.setEntry cell key v).relabel ρ marked := by
  simp only [Store.setEntry, Store.relabel, Store.mk.injEq, and_true]
  refine Array.ext_getElem? fun i => ?_
  simp only [Array.getElem?_map, Array.getElem?_modify]
  by_cases h : cell = i
  · subst h
    rw [if_pos rfl, if_pos rfl]
    cases s.maps[cell]? with
    | none => rfl
    | some e => exact congrArg some (e.relabel_insert key v).symm
  · rw [if_neg h, if_neg h]

theorem setFields_relabel (marked : Nat → Bool) (s : Store) (cell : Nat)
    (fields : Entries Value) :
    (s.relabel ρ marked).setFields cell (fields.relabel ρ false) =
      (s.setFields cell fields).relabel ρ marked := by
  simp only [Store.setFields, Store.relabel, Store.mk.injEq, true_and, and_true]
  refine Array.ext_getElem? fun i => ?_
  simp only [Array.getElem?_map, Array.getElem?_modify]
  by_cases h : cell = i
  · subst h
    rw [if_pos rfl, if_pos rfl]
    cases s.hosts[cell]? <;> rfl
  · rw [if_neg h, if_neg h]

theorem changeFields_mirrors (cell : Nat) {f g : Entries Value → Except Stop (Entries Value)}
    (h : ∀ fields, g (fields.relabel ρ false) = (f fields).map (·.relabel ρ false)) :
    Mirrors ρ id (changeFields cell f) (changeFields cell g) := by
  refine Mirrors.bind (f := (·.relabel ρ false)) (.read fun marked s => s.fields_relabel cell)
    fun fields => ?_
  rw [h]
  cases f fields with
  | ok fields' => exact .change fun marked s => setFields_relabel marked s cell fields'
  | error stop => exact .throw stop

theorem setProperty_mirrors {host : Host} (hh : host.FieldsRelabeled) (object : Value)
    (name : String) (v : Value) :
    Mirrors ρ id (setProperty host object name v)
      (setProperty host (object.relabel ρ) name (v.relabel ρ)) := by
  cases object with
  | map cell => exact .change fun marked s => setEntry_relabel marked s cell name v
  | list items =>
    rw [Value.relabel_list]
    exact .raise _
  | atom a =>
    cases a with
    | host ref =>
      simp only [Value.relabel, Atom.relabel, setProperty]
      rcases hf : host.field? ref.typeName name with _ | ⟨field, get, _ | set⟩
      · exact .raise _
      · exact .raise _
      · exact changeFields_mirrors ref.cell fun fields => hh.set hf ρ fields v
    | null => exact .raise _
    | _ => exact .raise _

theorem loopItems_mirrors (element : Token) (v : Value) :
    Mirrors ρ (List.map (·.relabel ρ)) (loopItems element v) (loopItems element (v.relabel ρ)) := by
  cases v with
  | list items =>
    rw [Value.relabel_list]
    exact .pure _ items
  | map cell =>
    refine Mirrors.bind (f := (·.relabel ρ false)) (.read fun marked s => s.entries_relabel cell)
      fun entries => .mapM (fun entry => ?_) entries.toList
    obtain ⟨key, value⟩ := entry
    refine .update fun marked s => ?_
    have he : (Entries.ofList [("key", .str key), ("value", value)]).relabel ρ false = _ :=
      Entries.relabel_ofList _
    exact (congrArg (s.relabel ρ marked).newMap he.symm).trans (s.relabel_newMap _)
  | atom a => cases a <;> exact .fail _ _

theorem copy_mirrors (item : StreamItem) : Mirrors ρ id (copy item) (copy item) := by
  cases item with
  | raw token => exact .pure id _
  | sentinel => exact .pure id _
  | group id => exact .throw _

theorem rewriteBody_mirrors (ctx : Context) (keyword : Token) (r : RewriterRef)
    (body : List OutputToken) :
    Mirrors ρ id (rewriteBody ctx keyword r body) (rewriteBody ctx keyword r body) := by
  unfold rewriteBody
  split
  · exact .pure id _
  · exact .fail _ _

end Run

end DocTemplate
