import DocTemplate.Proofs.Run.Builtins
import DocTemplate.Proofs.Run.Mirrored

namespace DocTemplate

inductive ResultRel {ε α β : Type} (E : ε → ε → Prop) (R : α → β → Prop) :
    Except ε α → Except ε β → Prop
  | ok {a : α} {b : β} (h : R a b) : ResultRel E R (.ok a) (.ok b)
  | error {e e' : ε} (h : E e e') : ResultRel E R (.error e) (.error e')

namespace ResultRel

variable {ε ε' α β : Type} {E : ε → ε → Prop} {E' : ε' → ε' → Prop} {R R' : α → β → Prop}
variable {x : Except ε α} {y : Except ε β}

theorem imp (h : ResultRel E R x y) (hr : ∀ a b, R a b → R' a b) : ResultRel E R' x y := by
  cases h with
  | ok h => exact .ok (hr _ _ h)
  | error h => exact .error h

theorem mapError (h : ResultRel E R x y) {f : ε → ε'} (he : ∀ e e', E e e' → E' (f e) (f e')) :
    ResultRel E' R (x.mapError f) (y.mapError f) := by
  cases h with
  | ok h => exact .ok h
  | error h => exact .error (he _ _ h)

end ResultRel

/-- The same failure, up to the name of a variable in what is said and in the text that it is said
of. -/
inductive Stop.Reworded (old fresh : String) : Stop → Stop → Prop
  | same (stop : Stop) : Reworded old fresh stop stop
  | undefinedName (span : Span) :
      Reworded old fresh (.fault ⟨.undefinedName old, span, old⟩)
        (.fault ⟨.undefinedName fresh, span, fresh⟩)
  | notIterable (type : String) (span : Span) :
      Reworded old fresh (.fault ⟨.notIterable type, span, old⟩)
        (.fault ⟨.notIterable type, span, fresh⟩)

def Relabeling.Results (ρ : Relabeling) : Except Stop Value → Except Stop Value → Prop :=
  ResultRel (Stop.Reworded ρ.old ρ.fresh) fun v w => w = v.relabel ρ

/-- With new names in functions, the second program does what the first one does. It takes the
functions as they are, and when a call fails it does not ask for names. -/
inductive NativeProgram.Relabeled (ρ : Relabeling) : NativeProgram → NativeProgram → Prop
  | done {result result' : Except Stop Value} (h : ρ.Results result result') :
      Relabeled ρ (.done result) (.done result')
  | change {f f' : Store → Store} {next next' : Store → NativeProgram}
      (hf : ∀ marked s, f' (s.relabel ρ marked) = (f s).relabel ρ marked)
      (hn : ∀ marked s, Relabeled ρ (next s) (next' (s.relabel ρ marked))) :
      Relabeled ρ (.change f next) (.change f' next')
  | call (f : Value) (args : List Value) {next next' : Except Stop Value → NativeProgram}
      (hn : ∀ result result', ρ.Results result result' →
        Relabeled ρ (next result) (next' result')) :
      Relabeled ρ (.call f args next) (.call (f.relabel ρ) (args.map (Value.relabel ρ)) next')

/-- The host takes functions of the template as they are. -/
structure Host.Opaque (host : Host) (programs : Nat → List Value → NativeProgram) : Prop where
  functions : ∀ (ρ : Relabeling) number args,
    (programs number args).Relabeled ρ (programs number (args.map (Value.relabel ρ)))
  fields : host.FieldsRelabeled

namespace NativeProgram

variable {ρ : Relabeling}

theorem Relabeled.ok (v : Value) : Relabeled ρ (.done (.ok v)) (.done (.ok (v.relabel ρ))) :=
  .done (.ok rfl)

theorem Relabeled.list (vs : List Value) :
    Relabeled ρ (.done (.ok (.list vs))) (.done (.ok (.list (vs.map (Value.relabel ρ))))) := by
  rw [← Value.relabel_list]
  exact .ok _

theorem Relabeled.error (stop : Stop) :
    Relabeled ρ (.done (.error stop)) (.done (.error stop)) :=
  .done (.error (.same stop))

theorem Relabeled.ofRun {x y : Run Value} (h : Run.Mirrors ρ (Value.relabel ρ) x y) :
    Relabeled ρ (ofRun x) (ofRun y) := by
  refine .change (fun marked s => congrArg Prod.snd (h marked s)) fun marked s => .done ?_
  rw [h marked s]
  cases (x.outcome s).1 with
  | ok v => exact .ok rfl
  | error stop => exact .error (.same stop)

theorem Relabeled.ask (f : Value) (args : List Value) {next next' : Value → NativeProgram}
    (hn : ∀ v, Relabeled ρ (next v) (next' (v.relabel ρ))) :
    Relabeled ρ (ask f args next) (ask (f.relabel ρ) (args.map (Value.relabel ρ)) next') := by
  refine .call f args fun result result' h => ?_
  cases h with
  | ok h =>
    subst h
    exact hn _
  | error h => exact .done (.error h)

theorem Relabeled.askEach (f : Value) (items : List Value)
    {next next' : List Value → NativeProgram}
    (hn : ∀ vs, Relabeled ρ (next vs) (next' (vs.map (Value.relabel ρ)))) :
    Relabeled ρ (askEach f items next)
      (askEach (f.relabel ρ) (items.map (Value.relabel ρ)) next') := by
  induction items generalizing next next' with
  | nil => exact hn []
  | cons item items ih => exact .ask f [item] fun v => ih fun vs => hn (v :: vs)

theorem Relabeled.askWhich (f : Value) (items kept : List Value)
    {next next' : List Value → NativeProgram}
    (hn : ∀ vs, Relabeled ρ (next vs) (next' (vs.map (Value.relabel ρ)))) :
    Relabeled ρ (askWhich f items kept next)
      (askWhich (f.relabel ρ) (items.map (Value.relabel ρ)) (kept.map (Value.relabel ρ))
        next') := by
  induction items generalizing kept with
  | nil =>
    have h := hn kept.reverse
    rw [List.map_reverse] at h
    exact h
  | cons item items ih =>
    refine .ask f [item] fun verdict => .change (fun _ _ => rfl) fun marked s => ?_
    rw [Store.isTruthy_relabel]
    have h := ih (if s.isTruthy verdict then item :: kept else kept)
    rw [apply_ite (List.map (Value.relabel ρ)), List.map_cons] at h
    exact h

theorem Relabeled.askFold (f : Value) (items : List Value) (accumulated : Value) :
    Relabeled ρ (askFold f items accumulated)
      (askFold (f.relabel ρ) (items.map (Value.relabel ρ)) (accumulated.relabel ρ)) := by
  induction items generalizing accumulated with
  | nil => exact .ok accumulated
  | cons item items ih => exact .ask f [accumulated, item] ih

end NativeProgram

namespace Builtin

open NativeProgram Run

variable {ρ : Relabeling}

variable {settings : Settings} {call : Invoke} {b : Builtin}

end Builtin

end DocTemplate
