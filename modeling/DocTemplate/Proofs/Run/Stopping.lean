import DocTemplate.Proofs.Run.Native

namespace DocTemplate

namespace Stop

variable {among : Token → Prop}

/-- Without a place: a cause that no token is bound to yet, or no end at all. -/
inductive Loose : Stop → Prop
  | raised {cause : RunCause} (hk : cause.kind = .runtime) : Loose (.raised cause)
  | endless : Loose .endless

/-- With the place of one of these tokens, or no end at all. -/
inductive Bound (among : Token → Prop) : Stop → Prop
  | fault {token : Token} {cause : RunCause} (ht : among token) (hk : cause.kind = .runtime) :
      Bound among (.fault (token.fault cause))
  | endless : Bound among .endless

/-- What a call of a function stops with: something that went wrong inside of it and has its place,
or something that is wrong with the call and has none. -/
def OfCall (among : Token → Prop) (stop : Stop) : Prop := stop.Loose ∨ stop.Bound among

/-- What becomes of a stop when a token is bound to it. -/
def boundTo (token : Token) : Stop → Stop
  | raised cause => fault (token.fault cause)
  | stop => stop

theorem OfCall.boundTo {stop : Stop} {token : Token} (h : stop.OfCall among) (ht : among token) :
    (stop.boundTo token).Bound among := by
  rcases h with h | h
  · cases h with
    | raised hk => exact .fault ht hk
    | endless => exact .endless
  · cases h with
    | fault ht' hk => exact .fault ht' hk
    | endless => exact .endless

end Stop

namespace Run

variable {α β γ : Type}

theorem outcome_boundTo_error {token : Token} {x : Run α} {s : Store} {stop : Stop} :
    ((boundTo token x).outcome s).1 = .error stop ↔
      ∃ inner, (x.outcome s).1 = .error inner ∧ stop = inner.boundTo token := by
  rw [outcome_boundTo]
  cases hr : x.outcome s with
  | mk r s' =>
    cases r with
    | ok a => simp
    | error inner => cases inner <;> simp [Stop.boundTo, eq_comm]

/-- However the computation stops, it stops like this. -/
def StopsAs (E : Stop → Prop) (x : Run α) : Prop :=
  ∀ s stop, (x.outcome s).1 = .error stop → E stop

namespace StopsAs

variable {E : Stop → Prop} {x : Run α}

theorem pure (a : α) : StopsAs E (Pure.pure a : Run α) := fun _ _ => nofun

theorem throw {stop : Stop} (h : E stop) : StopsAs E (throwThe Stop stop : Run α) :=
  fun _ _ hr => Except.error.inj hr ▸ h

theorem raise {cause : RunCause} (hk : cause.kind = .runtime) :
    StopsAs Stop.Loose (Run.raise cause : Run α) := .throw (.raised hk)

theorem fail {among : Token → Prop} {token : Token} {cause : RunCause} (ht : among token)
    (hk : cause.kind = .runtime) : StopsAs (Stop.Bound among) (Run.fail token cause : Run α) :=
  .throw (.fault ht hk)

theorem read (f : Store → α) : StopsAs E (Run.read f) := fun _ _ => nofun

theorem update (f : Store → α × Store) : StopsAs E (Run.update f) := fun _ _ => nofun

theorem change (f : Store → Store) : StopsAs E (Run.change f) := fun _ _ => nofun

theorem bind {f : α → Run β} (hx : StopsAs E x) (hf : ∀ a, StopsAs E (f a)) :
    StopsAs E (x >>= f) := by
  intro s stop h
  rw [outcome_bind] at h
  cases hr : x.outcome s with
  | mk r s' =>
    rw [hr] at h
    cases r with
    | ok a => exact hf a s' stop h
    | error inner =>
      obtain rfl := Except.error.inj h
      exact hx s inner (congrArg Prod.fst hr)

theorem mapM {f : γ → Run α} (hf : ∀ c, StopsAs E (f c)) (cs : List γ) :
    StopsAs E (cs.mapM f) := by
  induction cs with
  | nil => exact .pure _
  | cons c cs ih =>
    rw [List.mapM_cons]
    exact (hf c).bind fun a => ih.bind fun as => .pure _

theorem observe (h : E .endless) (f : Store → Option α) : StopsAs E (Run.observe f) := by
  refine (StopsAs.read f).bind fun found => ?_
  cases found with
  | some a => exact .pure a
  | none => exact .throw h

theorem ofExcept {result : Except RunCause α}
    (h : ∀ cause, result = .error cause → cause.kind = .runtime) :
    StopsAs Stop.Loose (Run.ofExcept result) := by
  cases result with
  | ok a => exact .pure a
  | error cause => exact .raise (h cause rfl)

theorem boundTo {among : Token → Prop} {token : Token} (hx : StopsAs Stop.Loose x)
    (ht : among token) : StopsAs (Stop.Bound among) (Run.boundTo token x) := by
  intro s stop h
  obtain ⟨inner, hr, rfl⟩ := outcome_boundTo_error.mp h
  exact Stop.OfCall.boundTo (.inl (hx s inner hr)) ht

end StopsAs

theorem negate_stops (v : Value) : StopsAs Stop.Loose (ofExcept v.negate) := by
  refine .ofExcept fun cause h => ?_
  unfold Value.negate at h
  split at h
  · cases h
  · obtain rfl := Except.error.inj h
    rfl

theorem arithmetic_stops (op : ArithOp) (l r : Value) : StopsAs Stop.Loose (arithmetic op l r) := by
  unfold arithmetic
  split
  · refine .ofExcept fun cause h => ?_
    unfold Value.arithmetic at h
    split at h
    · cases h
    · obtain rfl := Except.error.inj h
      rfl
  · split
    · exact .raise rfl
    · split
      · exact .observe .endless _
      · exact .raise rfl

theorem compare_kind {l r : Value} {cause : RunCause} (h : l.compare r = .error cause) :
    cause.kind = .runtime := by
  unfold Value.compare at h
  split at h
  · cases h
  · split at h
    · obtain rfl := Except.error.inj h
      rfl
    · obtain rfl := Except.error.inj h
      rfl

theorem binary_stops (op : BinaryOp) (l r : Value) : StopsAs Stop.Loose (binary op l r) := by
  cases op with
  | arith op => exact arithmetic_stops op l r
  | order op => exact (StopsAs.ofExcept fun _ => compare_kind).bind fun _ => .pure _
  | eq => exact (StopsAs.observe .endless _).bind fun _ => .pure _
  | ne => exact (StopsAs.observe .endless _).bind fun _ => .pure _

theorem elim_stops (found : Option Value) (object : Value) (name : String) :
    StopsAs Stop.Loose (found.elim (undefinedProperty object name) pure) := by
  cases found with
  | none => exact .raise rfl
  | some v => exact .pure v

theorem getProperty_stops (host : Host) (object : Value) (name : String) :
    StopsAs Stop.Loose (getProperty host object name) := by
  unfold getProperty
  split
  · exact .raise rfl
  · exact .read _
  · exact elim_stops _ _ _
  · exact elim_stops _ _ _
  · split
    · exact .read _
    · exact .raise rfl
  · exact .raise rfl

/-- What is wrong with a value that a host object refuses has no place yet. -/
def RefusesLoosely (host : Host) : Prop :=
  ∀ {typeName name field get set}, host.field? typeName name = some ⟨field, get, some set⟩ →
    ∀ {fields v stop}, set fields v = .error stop → stop.Loose

theorem changeFields_stops {E : Stop → Prop} (cell : Nat)
    {f : Entries Value → Except Stop (Entries Value)}
    (h : ∀ fields stop, f fields = .error stop → E stop) : StopsAs E (changeFields cell f) := by
  refine (StopsAs.read _).bind fun fields => ?_
  split
  · exact .change _
  · rename_i stop hf
    exact .throw (h fields stop hf)

theorem setProperty_stops {host : Host} (hr : RefusesLoosely host) (object : Value) (name : String)
    (v : Value) : StopsAs Stop.Loose (setProperty host object name v) := by
  unfold setProperty
  split
  · exact .raise rfl
  · exact .change _
  · split
    · exact .raise rfl
    · exact .raise rfl
    · rename_i hf
      exact changeFields_stops _ fun _ _ => hr hf
  · exact .raise rfl

section

variable {among : Token → Prop} {ctx : Context} {token : Token}

theorem lookup_stops (node : Nat) (scope : Nat) (ht : among token) :
    StopsAs (Stop.Bound among) (lookup ctx node token scope) := by
  refine (StopsAs.read _).bind fun found => ?_
  cases found with
  | some v => exact .pure v
  | none => exact .fail ht rfl

theorem assign_stops (node : Nat) (v : Value) (scope : Nat) (ht : among token) :
    StopsAs (Stop.Bound among) (assign ctx node token v scope) := by
  refine (StopsAs.update _).bind fun known => ?_
  split
  · exact .pure _
  · exact .fail ht rfl

theorem loopItems_stops (v : Value) (ht : among token) :
    StopsAs (Stop.Bound among) (loopItems token v) := by
  unfold loopItems
  split
  · exact .pure _
  · exact (StopsAs.read _).bind fun entries => .mapM (fun pair => .update _) _
  · exact .fail ht rfl

theorem rewriteBody_stops (r : RewriterRef) (body : List OutputToken) (ht : among token) :
    StopsAs (Stop.Bound among) (rewriteBody ctx token r body) := by
  unfold rewriteBody
  split
  · exact .pure _
  · exact .fail ht rfl

theorem copy_stops {E : Stop → Prop} {item : StreamItem} (hi : item.group? = none) :
    StopsAs E (copy item) := by
  cases item with
  | raw token => exact .pure _
  | sentinel => exact .pure _
  | group id => cases hi

end

end Run

namespace Builtin

open Run

variable {settings : Settings} {invoke : Invoke}

theorem pureResult_stops (b : Builtin) (result : Except ArgumentCause Value) :
    StopsAs Stop.Loose (pureResult b result) := by
  cases result with
  | ok v => exact .pure v
  | error cause => exact .raise rfl

theorem withList_stops {b : Builtin} {list : Value} {k : List Value → Run Value}
    (hk : ∀ items, StopsAs Stop.Loose (k items)) : StopsAs Stop.Loose (withList b list k) := by
  unfold withList
  split
  · exact .pure _
  · split
    · exact hk _
    · exact .raise rfl

theorem call_stops_of_other {b : Builtin} {args : List Value}
    (hm : ∀ list f, b = .map → args = [list, f] → False)
    (hf : ∀ list f, b = .filter → args = [list, f] → False)
    (hr : ∀ list f, b = .reduce → args = [list, f] → False)
    (hi : ∀ list f initial, b = .reduce → args = [list, f, initial] → False) :
    StopsAs Stop.Loose (b.call settings invoke args) := by
  unfold call
  split
  · exact (hm _ _ rfl rfl).elim
  · exact (hf _ _ rfl rfl).elim
  · exact (hr _ _ rfl rfl).elim
  · exact (hi _ _ _ rfl rfl).elim
  · exact pureResult_stops _ _
  · exact withList_stops fun items => .observe .endless _
  · exact pureResult_stops _ _
  · exact pureResult_stops _ _
  · exact withList_stops fun items => (StopsAs.mapM (fun pair => .update _) _).bind fun _ => .pure _
  · exact withList_stops fun items => .pure _
  · exact .pure _
  · exact .pure _
  · exact pureResult_stops _ _
  · exact pureResult_stops _ _
  · exact pureResult_stops _ _
  · exact pureResult_stops _ _
  · exact pureResult_stops _ _
  · exact pureResult_stops _ _
  · exact .update _
  · exact .update _
  · exact .update _
  · exact .raise rfl
  · split
    · exact .update _
    · exact .raise rfl
  · exact .raise rfl

end Builtin

end DocTemplate
