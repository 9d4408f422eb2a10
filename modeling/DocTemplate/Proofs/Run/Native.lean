import DocTemplate.Proofs.Outcome
import DocTemplate.Proofs.Run.Keeping

namespace DocTemplate

inductive NativeProgram where
  | done (result : Except Stop Value)
  /-- Changes the store, and goes on with what it was before. -/
  | change (f : Store → Store) (next : Store → NativeProgram)
  | call (f : Value) (args : List Value) (next : Except Stop Value → NativeProgram)

namespace NativeProgram

variable {known : Closure → Prop} {invoke : Invoke}

def run (invoke : Invoke) : NativeProgram → Run Value
  | done result => fun s => (result, s)
  | change f next => fun s => run invoke (next s) (f s)
  | call f args next => fun s =>
    run invoke (next ((invoke f args).outcome s).1) ((invoke f args).outcome s).2

theorem outcome_run_change (f : Store → Store) (next : Store → NativeProgram) (s : Store) :
    ((change f next).run invoke).outcome s = ((next s).run invoke).outcome (f s) := rfl

theorem outcome_run_call (f : Value) (args : List Value) (next : Except Stop Value → NativeProgram)
    (s : Store) :
    ((call f args next).run invoke).outcome s =
      ((next ((invoke f args).outcome s).1).run invoke).outcome ((invoke f args).outcome s).2 := rfl

/-- A program that works with known functions only, also as more of them become known. -/
def Confined : NativeProgram → (Closure → Prop) → Prop
  | done (.ok v), known => v.Within known
  | done (.error _), _ => True
  | change f next, known =>
    ∀ s : Store, s.Within known →
      (f s).scopes = s.scopes ∧ (f s).Within known ∧ (next s).Confined known
  | call f args next, known =>
    f.Within known ∧ (∀ v ∈ args, v.Within known) ∧
      ∀ known' : Closure → Prop, (∀ c, known c → known' c) →
        ∀ result : Except Stop Value, (∀ v, result = .ok v → v.Within known') →
          (next result).Confined known'

def ofRun (x : Run Value) : NativeProgram :=
  .change (fun s => (x.outcome s).2) fun s => .done (x.outcome s).1

theorem run_ofRun (x : Run Value) : (ofRun x).run invoke = x := rfl

theorem ofRun_confined {x : Run Value} (h : x.Keeps known (·.Within known)) :
    (ofRun x).Confined known := by
  intro s hs
  obtain ⟨h₁, h₂, h₃⟩ := h s hs
  refine ⟨h₁, h₂, ?_⟩
  change (done (x.outcome s).1).Confined known
  cases hr : (x.outcome s).1 with
  | ok v => exact h₃ v hr
  | error stop => trivial

def ask (f : Value) (args : List Value) (next : Value → NativeProgram) : NativeProgram :=
  .call f args fun
    | .ok v => next v
    | .error stop => .done (.error stop)

theorem run_ask (f : Value) (args : List Value) (next : Value → NativeProgram) :
    (ask f args next).run invoke = invoke f args >>= fun v => (next v).run invoke := by
  refine Run.ext fun s => ?_
  rw [Run.outcome_bind, ask, outcome_run_call]
  cases (invoke f args).outcome s with
  | mk r s' => cases r <;> rfl

theorem ask_confined {f : Value} {args : List Value} {next : Value → NativeProgram}
    (hf : f.Within known) (ha : ∀ v ∈ args, v.Within known)
    (hn : ∀ known' : Closure → Prop, (∀ c, known c → known' c) →
      ∀ v : Value, v.Within known' → (next v).Confined known') :
    (ask f args next).Confined known := by
  refine ⟨hf, ha, fun known' hk result hr => ?_⟩
  cases result with
  | ok v => exact hn known' hk v (hr v rfl)
  | error stop => trivial

def askEach (f : Value) : List Value → (List Value → NativeProgram) → NativeProgram
  | [], next => next []
  | item :: items, next => ask f [item] fun v => askEach f items fun vs => next (v :: vs)

theorem run_askEach (f : Value) (items : List Value) (next : List Value → NativeProgram) :
    (askEach f items next).run invoke =
      items.mapM (fun item => invoke f [item]) >>= fun vs => (next vs).run invoke := by
  induction items generalizing next with
  | nil => rfl
  | cons item items ih => simp only [askEach, run_ask, ih, List.mapM_cons, bind_assoc, pure_bind]

theorem askEach_confined {f : Value} {items : List Value} {next : List Value → NativeProgram}
    (hf : f.Within known) (hi : ∀ item ∈ items, item.Within known)
    (hn : ∀ known' : Closure → Prop, (∀ c, known c → known' c) →
      ∀ vs : List Value, (∀ v ∈ vs, v.Within known') → (next vs).Confined known') :
    (askEach f items next).Confined known := by
  induction items generalizing known next with
  | nil => exact hn known (fun _ h => h) [] nofun
  | cons item items ih =>
    refine ask_confined hf (fun v hv => hi v (List.mem_cons.mpr (.inl (List.mem_singleton.mp hv))))
      fun known₁ hk₁ v hv => ?_
    refine ih (hf.mono hk₁) (fun w hw => (hi w (List.mem_cons_of_mem _ hw)).mono hk₁)
      fun known₂ hk₂ vs hvs => ?_
    exact hn known₂ (fun c hc => hk₂ c (hk₁ c hc)) (v :: vs)
      (List.forall_mem_cons.mpr ⟨hv.mono hk₂, hvs⟩)

/-- Keeps the elements for which the function gives what counts as true; `kept` are those so far,
last one first. -/
def askWhich (f : Value) : List Value → List Value → (List Value → NativeProgram) → NativeProgram
  | [], kept, next => next kept.reverse
  | item :: items, kept, next => ask f [item] fun verdict =>
    .change id fun s =>
      askWhich f items (if s.isTruthy verdict then item :: kept else kept) next

theorem run_askWhich (f : Value) (items kept : List Value) (next : List Value → NativeProgram) :
    (askWhich f items kept next).run invoke =
      items.filterAuxM
        (fun item => invoke f [item] >>= fun verdict => Run.read fun s => s.isTruthy verdict) kept
        >>= fun kept => (next kept.reverse).run invoke := by
  induction items generalizing kept with
  | nil => rfl
  | cons item items ih =>
    simp only [askWhich, run_ask, List.filterAuxM, bind_assoc]
    refine bind_congr fun verdict => ?_
    refine Run.ext fun s => ?_
    rw [outcome_run_change, ih, Run.outcome_bind (Run.read _) _ s, Run.outcome_read]
    cases s.isTruthy verdict <;> rfl

theorem askWhich_confined {f : Value} {items kept : List Value}
    {next : List Value → NativeProgram} (hf : f.Within known)
    (hi : ∀ item ∈ items, item.Within known) (hkept : ∀ item ∈ kept, item.Within known)
    (hn : ∀ known' : Closure → Prop, (∀ c, known c → known' c) →
      ∀ vs : List Value, (∀ v ∈ vs, v.Within known') → (next vs).Confined known') :
    (askWhich f items kept next).Confined known := by
  induction items generalizing known kept with
  | nil => exact hn known (fun _ h => h) kept.reverse fun v hv => hkept v (List.mem_reverse.mp hv)
  | cons item items ih =>
    refine ask_confined hf (fun v hv => hi v (List.mem_cons.mpr (.inl (List.mem_singleton.mp hv))))
      fun known₁ hk₁ verdict _ s hs => ⟨rfl, hs, ?_⟩
    refine ih (hf.mono hk₁) (fun w hw => (hi w (List.mem_cons_of_mem _ hw)).mono hk₁)
      (fun w hw => ?_) fun known₂ hk₂ => hn known₂ fun c hc => hk₂ c (hk₁ c hc)
    split at hw
    · cases List.mem_cons.mp hw with
      | inl he =>
        rw [he]
        exact (hi item List.mem_cons_self).mono hk₁
      | inr hm => exact (hkept w hm).mono hk₁
    · exact (hkept w hw).mono hk₁

def askFold (f : Value) : List Value → Value → NativeProgram
  | [], accumulated => .done (.ok accumulated)
  | item :: items, accumulated => ask f [accumulated, item] (askFold f items)

theorem run_askFold (f : Value) (items : List Value) (accumulated : Value) :
    (askFold f items accumulated).run invoke = Builtin.folded invoke f accumulated items := by
  induction items generalizing accumulated with
  | nil => rfl
  | cons item items ih =>
    rw [askFold, run_ask, Builtin.folded, List.foldlM_cons]
    exact bind_congr fun v => ih v

theorem askFold_confined {f : Value} {items : List Value} {accumulated : Value}
    (hf : f.Within known) (hi : ∀ item ∈ items, item.Within known)
    (ha : accumulated.Within known) : (askFold f items accumulated).Confined known := by
  induction items generalizing known accumulated with
  | nil => exact ha
  | cons item items ih =>
    refine ask_confined hf (fun v hv => ?_) fun known₁ hk₁ v hv => ?_
    · simp only [List.mem_cons, List.not_mem_nil, or_false] at hv
      obtain rfl | rfl := hv
      · exact ha
      · exact hi _ List.mem_cons_self
    · exact ih (hf.mono hk₁) (fun w hw => (hi w (List.mem_cons_of_mem _ hw)).mono hk₁) hv

def overList (b : Builtin) (list f : Value) (k : List Value → NativeProgram) : NativeProgram :=
  if list.isNull then .done (.ok .null)
  else
    match Builtin.listArgument list with
    | .ok items =>
      match Builtin.functionArgument f with
      | .ok _ => k items
      | .error cause => .done (.error (.raised (.argument b cause)))
    | .error cause => .done (.error (.raised (.argument b cause)))

theorem run_overList (b : Builtin) (list f : Value) (k : List Value → NativeProgram) :
    (overList b list f k).run invoke =
      Builtin.withFunction b list f fun items => (k items).run invoke := by
  unfold overList Builtin.withFunction Builtin.withList
  split
  · rfl
  · cases Builtin.listArgument list with
    | error cause => rfl
    | ok items => cases Builtin.functionArgument f <;> rfl

theorem listArgument_hereditary {P : Value → Prop} {list : Value} {items : List Value}
    (hP : Value.Hereditary P) (h : P list) (hl : Builtin.listArgument list = .ok items) :
    ∀ item ∈ items, P item := by
  unfold Builtin.listArgument at hl
  split at hl
  · obtain rfl := Except.ok.inj hl
    exact (hP.list _).mp h
  · cases hl

theorem listArgument_within {list : Value} {items : List Value} (h : list.Within known)
    (hl : Builtin.listArgument list = .ok items) : ∀ item ∈ items, item.Within known :=
  listArgument_hereditary (Value.hereditary_within known) h hl

theorem overList_confined {b : Builtin} {list f : Value} {k : List Value → NativeProgram}
    (hl : list.Within known)
    (hk : ∀ items : List Value, (∀ item ∈ items, item.Within known) → (k items).Confined known) :
    (overList b list f k).Confined known := by
  unfold overList
  split
  · exact Value.within_null
  · split
    · rename_i items hi
      split
      · exact hk items (listArgument_within hl hi)
      · trivial
    · trivial

end NativeProgram

namespace Builtin

open NativeProgram Run

variable {known : Closure → Prop} {settings : Settings} {invoke : Invoke}

def program (settings : Settings) (b : Builtin) (args : List Value) : NativeProgram :=
  match b, args with
  | .map, [list, f] =>
    overList .map list f fun items => askEach f items fun vs => .done (.ok (.list vs))
  | .filter, [list, f] =>
    overList .filter list f fun items => askWhich f items [] fun vs => .done (.ok (.list vs))
  | .reduce, [list, f] =>
    overList .reduce list f fun
      | [] => .done (.ok .null)
      | first :: items => askFold f items first
  | .reduce, [list, f, initial] =>
    if list.isNull then .done (.ok initial)
    else overList .reduce list f fun items => askFold f items initial
  | b, args => ofRun (b.call settings (fun _ _ => pure .null) args)

theorem call_eq_of_other {b : Builtin} {args : List Value} (invoke' : Invoke)
    (hm : ∀ list f, b = .map → args = [list, f] → False)
    (hf : ∀ list f, b = .filter → args = [list, f] → False)
    (hr : ∀ list f, b = .reduce → args = [list, f] → False)
    (hi : ∀ list f initial, b = .reduce → args = [list, f, initial] → False) :
    b.call settings invoke args = b.call settings invoke' args := by
  unfold call
  split
  · exact (hm _ _ rfl rfl).elim
  · exact (hf _ _ rfl rfl).elim
  · exact (hr _ _ rfl rfl).elim
  · exact (hi _ _ _ rfl rfl).elim
  all_goals rfl

theorem run_program (b : Builtin) (args : List Value) :
    (b.program settings args).run invoke = b.call settings invoke args := by
  unfold program
  split
  · rename_i list f
    rw [run_overList]
    refine congrArg (withFunction .map list f) (funext fun items => ?_)
    exact run_askEach f items _
  · rename_i list f
    rw [run_overList]
    refine congrArg (withFunction .filter list f) (funext fun items => ?_)
    rw [run_askWhich, List.filterM, bind_assoc]
    exact bind_congr fun kept =>
      (pure_bind kept.reverse fun kept => (pure (Value.list kept) : Run Value)).symm
  · rename_i list f
    rw [run_overList]
    refine congrArg (withFunction .reduce list f) (funext fun items => ?_)
    cases items with
    | nil => rfl
    | cons first items => exact run_askFold f items first
  · rename_i list f initial
    change _ = reducedFrom invoke list f initial
    unfold reducedFrom
    split
    · rfl
    · rw [run_overList]
      refine congrArg (withFunction .reduce list f) (funext fun items => ?_)
      exact run_askFold f items initial
  · rename_i hm hf hr hi
    rw [run_ofRun]
    exact call_eq_of_other invoke hm hf hr hi

theorem pureResult_keeps (b : Builtin) {result : Except ArgumentCause Value}
    (h : ∀ v, result = .ok v → v.Within known) :
    Keeps known (pureResult b result) (·.Within known) := by
  cases result with
  | ok v => exact .pure (h v rfl)
  | error cause => exact .raise _

theorem sumOrZero_cellFree {v w : Value} (h : sumOrZero v = .ok w) : w.CellFree := by
  unfold sumOrZero at h
  split at h
  · obtain rfl := Except.ok.inj h
    exact .atom rfl
  · split at h
    · unfold total at h
      dsimp only at h
      split at h
      · cases h
      · split at h
        · obtain rfl := Except.ok.inj h
          exact .atom rfl
        · obtain rfl := Except.ok.inj h
          exact .atom rfl
    · cases h

theorem integers_cellFree {first stop v : Value} (h : integers first stop = .ok v) :
    v.CellFree := by
  obtain ⟨lo, _, h⟩ := bind_eq_ok.mp h
  obtain ⟨hi, _, h⟩ := bind_eq_ok.mp h
  obtain rfl := Except.ok.inj h
  refine .list fun item hm => ?_
  obtain ⟨i, _, rfl⟩ := List.mem_map.mp hm
  split
  · exact .atom rfl
  · exact .atom rfl

theorem convert_cellFree {target : NumberType} {v w : Value} (h : convert target v = .ok w) :
    w.CellFree := by
  unfold convert at h
  split at h
  · cases h
  · obtain rfl := Except.ok.inj h
    exact .atom rfl
  · split at h
    · obtain rfl := Except.ok.inj h
      exact .atom rfl
    · cases h

theorem textOrNull_cellFree (text : Option String) :
    ((text.map Value.str).getD .null).CellFree := by
  cases text with
  | none => exact .atom rfl
  | some text => exact .atom rfl

theorem formatAny_cellFree {symbols : NumberSymbols} {v pattern w : Value}
    (h : formatAny symbols v pattern = .ok w) : w.CellFree := by
  obtain ⟨pattern, _, h⟩ := bind_eq_ok.mp h
  split at h
  · obtain rfl := Except.ok.inj h
    exact .atom rfl
  · obtain ⟨text, _, h⟩ := bind_eq_ok.mp h
    obtain rfl := Except.ok.inj h
    exact textOrNull_cellFree text
  · obtain ⟨text, _, h⟩ := bind_eq_ok.mp h
    obtain rfl := Except.ok.inj h
    exact textOrNull_cellFree text
  · obtain ⟨text, _, h⟩ := bind_eq_ok.mp h
    obtain rfl := Except.ok.inj h
    exact textOrNull_cellFree text
  · obtain ⟨text, _, h⟩ := bind_eq_ok.mp h
    obtain rfl := Except.ok.inj h
    exact textOrNull_cellFree text
  · cases h

theorem formatDateOrNull_cellFree {v pattern w : Value} (h : formatDateOrNull v pattern = .ok w) :
    w.CellFree := by
  unfold formatDateOrNull at h
  split at h
  · obtain rfl := Except.ok.inj h
    exact .atom rfl
  · obtain ⟨pattern, _, h⟩ := bind_eq_ok.mp h
    obtain ⟨text, _, h⟩ := bind_eq_ok.mp h
    split at h
    · obtain rfl := Except.ok.inj h
      exact .atom rfl
    · cases h

theorem formatNumberOrEmpty_cellFree {symbols : NumberSymbols} {v pattern w : Value}
    (h : formatNumberOrEmpty symbols v pattern = .ok w) : w.CellFree := by
  unfold formatNumberOrEmpty at h
  split at h
  · obtain rfl := Except.ok.inj h
    exact .atom rfl
  · obtain ⟨pattern, _, h⟩ := bind_eq_ok.mp h
    obtain ⟨text, _, h⟩ := bind_eq_ok.mp h
    split at h
    · obtain rfl := Except.ok.inj h
      exact .atom rfl
    · cases h

theorem reversed_hereditary {P : Value → Prop} {v w : Value} (hP : Value.Hereditary P) (hv : P v)
    (h : reversed v = .ok w) : P w := by
  unfold reversed at h
  split at h
  · obtain rfl := Except.ok.inj h
    exact hv
  · obtain rfl := Except.ok.inj h
    exact hP.cellFree _ (.atom rfl)
  · obtain ⟨items, hi, rfl⟩ := map_eq_ok.mp h
    refine (hP.list _).mpr fun item hm => ?_
    exact listArgument_hereditary hP hv hi item (List.mem_reverse.mp hm)

theorem withList_keeps {b : Builtin} {list : Value} {k : List Value → Run Value}
    (hl : list.Within known)
    (hk : ∀ items : List Value, (∀ item ∈ items, item.Within known) →
      Keeps known (k items) (·.Within known)) :
    Keeps known (withList b list k) (·.Within known) := by
  unfold withList
  split
  · exact .pure Value.within_null
  · split
    · rename_i items hi
      exact hk items (listArgument_within hl hi)
    · exact .raise _

theorem joined_keeps {list separator : Value} (hl : list.Within known) :
    Keeps known (joined list separator) (·.Within known) := by
  refine withList_keeps hl fun items _ => .observe fun s v _ hv => ?_
  simp only [Option.bind_eq_bind, Option.pure_def, Option.bind_eq_some_iff,
    Option.some.injEq] at hv
  obtain ⟨_, _, _, _, rfl⟩ := hv
  exact Value.within_of_closures rfl

theorem placed_hereditary {P : Value → Prop} {count : Nat} {v : Value} (hP : Value.Hereditary P)
    (hv : P v) (i : Nat) : (placed count v i).All P := by
  refine .ofList fun pair hp => ?_
  simp only [List.mem_cons, List.not_mem_nil, or_false] at hp
  obtain rfl | rfl | rfl | rfl | rfl := hp
  · exact hP.cellFree _ (.atom rfl)
  · exact hv
  · exact hP.cellFree _ (.atom rfl)
  · exact hP.cellFree _ (.atom rfl)
  · exact hP.cellFree _ (.atom rfl)

theorem enumerated_keeps {list : Value} (hl : list.Within known) :
    Keeps known (enumerated list) (·.Within known) := by
  refine withList_keeps hl fun items hi => ?_
  refine Keeps.bind (.mapM (P := fun v => v.Within known) fun pair hp => ?_) fun vs hvs =>
    .pure (Value.within_list.mpr hvs)
  have hv : pair.1.Within known := hi pair.1 (List.fst_mem_of_mem_zipIdx hp)
  exact .update fun s hs =>
    ⟨rfl, hs.newMap (placed_hereditary (Value.hereditary_within known) hv pair.2),
      Value.within_map _⟩

theorem withoutNulls_keeps {list : Value} (hl : list.Within known) :
    Keeps known (withoutNulls list) (·.Within known) := by
  refine withList_keeps hl fun items hi => .pure (Value.within_list.mpr fun item hm => ?_)
  exact hi item (List.mem_filter.mp hm).1

theorem newRewriter_keeps (kind : RewriterKind) :
    Keeps known (newRewriter kind) (·.Within known) :=
  .update fun _ hs => ⟨rfl, hs.newRewriter kind, Value.within_of_closures rfl⟩

theorem call_keeps_of_other {b : Builtin} {args : List Value}
    (ha : ∀ v ∈ args, v.Within known)
    (hm : ∀ list f, b = .map → args = [list, f] → False)
    (hf : ∀ list f, b = .filter → args = [list, f] → False)
    (hr : ∀ list f, b = .reduce → args = [list, f] → False)
    (hi : ∀ list f initial, b = .reduce → args = [list, f, initial] → False) :
    Keeps known (b.call settings invoke args) (·.Within known) := by
  unfold call
  split
  · exact (hm _ _ rfl rfl).elim
  · exact (hf _ _ rfl rfl).elim
  · exact (hr _ _ rfl rfl).elim
  · exact (hi _ _ _ rfl rfl).elim
  · exact pureResult_keeps _ fun v hv => (sumOrZero_cellFree hv).within
  · exact joined_keeps (ha _ List.mem_cons_self)
  · exact pureResult_keeps _ fun v hv => (integers_cellFree hv).within
  · exact pureResult_keeps _ fun v hv =>
      reversed_hereditary (Value.hereditary_within known) (ha _ List.mem_cons_self) hv
  · exact enumerated_keeps (ha _ List.mem_cons_self)
  · exact withoutNulls_keeps (ha _ List.mem_cons_self)
  · exact .pure (Value.within_of_closures rfl)
  · exact .pure (Value.within_of_closures rfl)
  · exact pureResult_keeps _ fun v hv => (convert_cellFree hv).within
  · exact pureResult_keeps _ fun v hv => (formatAny_cellFree hv).within
  · exact pureResult_keeps _ fun v hv => (formatAny_cellFree hv).within
  · exact pureResult_keeps _ fun v hv => (formatDateOrNull_cellFree hv).within
  · exact pureResult_keeps _ fun v hv => (formatNumberOrEmpty_cellFree hv).within
  · exact pureResult_keeps _ fun v hv => (formatNumberOrEmpty_cellFree hv).within
  · exact newRewriter_keeps _
  · exact newRewriter_keeps _
  · exact newRewriter_keeps _
  · exact .raise _
  · split
    · exact newRewriter_keeps _
    · exact .raise _
  · exact .raise _

theorem program_confined (settings : Settings) (b : Builtin) {args : List Value}
    (ha : ∀ v ∈ args, v.Within known) : (b.program settings args).Confined known := by
  unfold program
  split
  · rename_i list f
    refine overList_confined (ha list (by simp)) fun items hi => ?_
    refine askEach_confined (ha f (by simp)) hi fun known' _ vs hvs => ?_
    exact Value.within_list.mpr hvs
  · rename_i list f
    refine overList_confined (ha list (by simp)) fun items hi => ?_
    refine askWhich_confined (ha f (by simp)) hi nofun fun known' _ vs hvs => ?_
    exact Value.within_list.mpr hvs
  · rename_i list f
    refine overList_confined (ha list (by simp)) fun items hi => ?_
    cases items with
    | nil => exact Value.within_null
    | cons first items =>
      exact askFold_confined (ha f (by simp)) (fun v hv => hi v (List.mem_cons_of_mem _ hv))
        (hi first List.mem_cons_self)
  · rename_i list f initial
    have hn : initial.Within known := ha initial (by simp)
    split
    · exact hn
    · exact overList_confined (ha list (by simp)) fun items hi =>
        askFold_confined (ha f (by simp)) hi hn
  · rename_i hm hf hr hi
    exact ofRun_confined (call_keeps_of_other ha hm hf hr hi)

end Builtin

/-- The host's functions are these programs. They, and the fields of its objects, make no functions
of the template up. -/
structure Host.Describes (host : Host) (programs : Nat → List Value → NativeProgram) : Prop where
  functions : ∀ number invoke args,
    host.functions number invoke args = (programs number args).run invoke
  confined : ∀ number args (known : Closure → Prop), (∀ v ∈ args, v.Within known) →
    (programs number args).Confined known
  fields : Run.FieldsKnown host

def Native.program (settings : Settings) (programs : Nat → List Value → NativeProgram) (f : Native)
    (args : List Value) : NativeProgram :=
  match f with
  | .builtin b => b.program settings args
  | .host f => programs f.number args

end DocTemplate
