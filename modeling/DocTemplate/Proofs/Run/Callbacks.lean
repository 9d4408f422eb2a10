import DocTemplate.Proofs.Run.Stopping

namespace DocTemplate

/-- A call that a native function makes, and the store by then. -/
structure Callback where
  callee : Value
  args : List Value
  store : Store

def Callback.result (invoke : Invoke) (c : Callback) : Except Stop Value :=
  ((invoke c.callee c.args).outcome c.store).1

namespace NativeProgram

variable {invoke : Invoke} {E F : Stop → Prop} {p : NativeProgram} {s : Store} {stop : Stop}

def callbacks (invoke : Invoke) : NativeProgram → Store → List Callback
  | done _, _ => []
  | change f next, s => callbacks invoke (next s) (f s)
  | call f args next, s =>
    ⟨f, args, s⟩ ::
      callbacks invoke (next ((invoke f args).outcome s).1) ((invoke f args).outcome s).2

/-- The program stops like this, or with what one of its calls stopped with. -/
def PassesOn : NativeProgram → (Stop → Prop) → Prop
  | done result, E => ∀ stop, result = .error stop → E stop
  | change _ next, E => ∀ s, (next s).PassesOn E
  | call _ _ next, E => ∀ result, (next result).PassesOn fun stop => E stop ∨ result = .error stop

/-- The same, and it stops as soon as one of its calls does. -/
def Relays : NativeProgram → (Stop → Prop) → Prop
  | done result, E => ∀ stop, result = .error stop → E stop
  | change _ next, E => ∀ s, (next s).Relays E
  | call _ _ next, E =>
    (∀ v, (next (.ok v)).Relays E) ∧ ∀ stop, next (.error stop) = done (.error stop)

theorem PassesOn.mono (hp : p.PassesOn E) (h : ∀ stop, E stop → F stop) : p.PassesOn F := by
  induction p generalizing E F with
  | done result => exact fun stop hr => h stop (hp stop hr)
  | change f next ih => exact fun s => ih s (hp s) h
  | call f args next ih =>
    exact fun result => ih result (hp result) fun stop => Or.imp_left (h stop)

theorem Relays.passesOn (hp : p.Relays E) : p.PassesOn E := by
  induction p with
  | done result => exact hp
  | change f next ih => exact fun s => ih s (hp s)
  | call f args next ih =>
    intro result
    cases result with
    | ok v => exact (ih (.ok v) (hp.1 v)).mono fun _ => .inl
    | error stop =>
      rw [hp.2 stop]
      exact fun _ hr => .inr hr

theorem PassesOn.stop_origin (hp : p.PassesOn E)
    (h : ((p.run invoke).outcome s).1 = .error stop) :
    E stop ∨ ∃ c ∈ p.callbacks invoke s, c.result invoke = .error stop := by
  induction p generalizing E s with
  | done result => exact .inl (hp stop h)
  | change f next ih => exact ih s (hp s) h
  | call f args next ih =>
    rcases ih _ (hp _) h with (hE | hr) | ⟨c, hc, hr⟩
    · exact .inl hE
    · exact .inr ⟨⟨f, args, s⟩, List.mem_cons_self, hr⟩
    · exact .inr ⟨c, List.mem_cons_of_mem _ hc, hr⟩

theorem Relays.stop_of_callback (hp : p.Relays E) {c : Callback} (hc : c ∈ p.callbacks invoke s)
    (h : c.result invoke = .error stop) : ((p.run invoke).outcome s).1 = .error stop := by
  induction p generalizing s with
  | done result => cases hc
  | change f next ih => exact ih s (hp s) hc
  | call f args next ih =>
    rw [outcome_run_call]
    rw [callbacks] at hc
    cases hr : ((invoke f args).outcome s).1 with
    | ok v =>
      rw [hr] at hc
      rcases List.mem_cons.mp hc with rfl | hc
      · cases hr.symm.trans h
      · exact ih (.ok v) (hp.1 v) hc
    | error inner =>
      rw [hr, hp.2] at hc
      obtain rfl := List.mem_singleton.mp hc
      rw [hp.2]
      exact hr.symm.trans h

theorem ofRun_relays {x : Run Value} (h : x.StopsAs E) : (ofRun x).Relays E :=
  fun s stop hr => h s stop hr

theorem ask_relays (f : Value) (args : List Value) {next : Value → NativeProgram}
    (h : ∀ v, (next v).Relays E) : (ask f args next).Relays E :=
  ⟨h, fun _ => rfl⟩

theorem askEach_relays (f : Value) (items : List Value) {next : List Value → NativeProgram}
    (h : ∀ vs, (next vs).Relays E) : (askEach f items next).Relays E := by
  induction items generalizing next with
  | nil => exact h []
  | cons item items ih => exact ask_relays f [item] fun v => ih fun vs => h (v :: vs)

theorem askWhich_relays (f : Value) (items kept : List Value) {next : List Value → NativeProgram}
    (h : ∀ vs, (next vs).Relays E) : (askWhich f items kept next).Relays E := by
  induction items generalizing kept with
  | nil => exact h _
  | cons item items ih => exact ask_relays f [item] fun _ _ => ih _

theorem askFold_relays (f : Value) (items : List Value) (accumulated : Value) :
    (askFold f items accumulated).Relays E := by
  induction items generalizing accumulated with
  | nil => exact fun _ => nofun
  | cons item items ih => exact ask_relays f [accumulated, item] ih

theorem overList_relays {b : Builtin} {list f : Value} {k : List Value → NativeProgram}
    (hk : ∀ items, (k items).Relays Stop.Loose) : (overList b list f k).Relays Stop.Loose := by
  have hraise : ∀ cause, (done (.error (.raised (.argument b cause)))).Relays Stop.Loose :=
    fun cause stop hr => Except.error.inj hr ▸ .raised rfl
  unfold overList
  split
  · exact fun _ => nofun
  · split
    · split
      · exact hk _
      · exact hraise _
    · exact hraise _

end NativeProgram

open NativeProgram in
theorem Builtin.program_relays (settings : Settings) (b : Builtin) (args : List Value) :
    (b.program settings args).Relays Stop.Loose := by
  unfold program
  split
  · exact overList_relays fun items => askEach_relays _ items fun vs _ => nofun
  · exact overList_relays fun items => askWhich_relays _ items [] fun vs _ => nofun
  · refine overList_relays fun items => ?_
    cases items with
    | nil => exact fun _ => nofun
    | cons first items => exact askFold_relays _ items first
  · split
    · exact fun _ => nofun
    · exact overList_relays fun items => askFold_relays _ items _
  · rename_i hm hf hr hi
    exact ofRun_relays (call_stops_of_other hm hf hr hi)

/-- Host functions say what is wrong in words that have no place, and hand on what went wrong in
the functions that they call. -/
theorem Native.program_passesOn {programs : Nat → List Value → NativeProgram}
    (hp : ∀ number args, (programs number args).PassesOn Stop.Loose) (settings : Settings)
    (f : Native) (args : List Value) :
    (f.program settings programs args).PassesOn Stop.Loose := by
  cases f with
  | builtin b => exact (b.program_relays settings args).passesOn
  | host f => exact hp f.number args

namespace Run

variable {ctx : Context} {programs : Nat → List Value → NativeProgram} {depth : Nat}

theorem apply_native (hh : ctx.host.Describes programs) {f : Native} {args : List Value}
    (ha : f.arity.accepts args.length) :
    apply ctx (depth + 1) (.native f) args =
      (f.program ctx.settings programs args).run (apply ctx depth) := by
  cases f with
  | builtin b =>
    simp only [apply, ha, if_true]
    exact (Builtin.run_program b args).symm
  | host f =>
    simp only [apply, ha, if_true]
    exact hh.functions f.number (apply ctx depth) args

end Run

end DocTemplate
