import DocTemplate.Proofs.Run.Erasure
import DocTemplate.Proofs.Scope.Live

namespace DocTemplate

/-- The scopes in a log are there, and each was made for one region only. -/
structure Store.Records (s : Store) (log : List Event) : Prop where
  fresh : ∀ region scope, .enter region scope ∈ log → scope < s.scopes.size
  once : ∀ region region' scope, .enter region scope ∈ log → .enter region' scope ∈ log →
    region = region'

namespace Store.Records

variable {s s' : Store} {log : List Event}

theorem mono (h : s.Records log) (hs : s.scopes.size ≤ s'.scopes.size) : s'.Records log :=
  ⟨fun region scope he => Nat.lt_of_lt_of_le (h.fresh region scope he) hs, h.once⟩

theorem use (h : s.Records log) (u : Use) : s.Records (.use u :: log) :=
  ⟨fun region scope he => h.fresh region scope ((List.mem_cons.mp he).resolve_left nofun),
    fun region region' scope he he' => h.once region region' scope
      ((List.mem_cons.mp he).resolve_left nofun) ((List.mem_cons.mp he').resolve_left nofun)⟩

theorem enter {region : Region} {scope : Nat} (h : s.Records log)
    (hn : ∀ region', .enter region' scope ∉ log) (hs : scope < s.scopes.size) :
    s.Records (.enter region scope :: log) := by
  refine ⟨fun region' scope' he => ?_, fun region₁ region₂ scope' he₁ he₂ => ?_⟩
  · cases List.mem_cons.mp he with
    | inl heq =>
      obtain ⟨rfl, rfl⟩ := Event.enter.inj heq
      exact hs
    | inr he => exact h.fresh region' scope' he
  · cases List.mem_cons.mp he₁ with
    | inl heq₁ =>
      obtain ⟨rfl, rfl⟩ := Event.enter.inj heq₁
      cases List.mem_cons.mp he₂ with
      | inl heq₂ => exact (Event.enter.inj heq₂).1.symm
      | inr hm₂ => exact absurd hm₂ (hn region₂)
    | inr hm₁ =>
      cases List.mem_cons.mp he₂ with
      | inl heq₂ =>
        obtain ⟨rfl, rfl⟩ := Event.enter.inj heq₂
        exact absurd hm₁ (hn region₁)
      | inr hm₂ => exact h.once region₁ region₂ scope' hm₁ hm₂

end Store.Records

/-- What holds all along a run. -/
structure Sound (scene : Scene) (s : Store) (log : List Event) : Prop where
  /-- The functions in the store were made in matching scopes. -/
  functions : s.Within (Closure.Fits scene s log)
  uses : ∀ u, .use u ∈ log → ∃ around locals,
    Stands scene log u.store u.scope around locals [⟨u.node, u.name, around, locals⟩]
  records : s.Records (log ++ scene.past)

section

variable {scene : Scene} {scope : Nat} {s s' : Store} {log : List Event}
  {around : List Region} {locals : List NameScope}

theorem Sound.later (h : Sound scene s log) (hg : s.Grows s')
    (hw : s'.Within (Closure.Fits scene s log)) : Sound scene s' log := by
  have hl : Later s log s' log := ⟨hg, fun _ h => h⟩
  exact ⟨hw.mono fun _ => hl.fits, h.uses, h.records.mono hg.size⟩

theorem later_cons (s : Store) (log : List Event) (e : Event) : Later s log s (e :: log) :=
  ⟨.refl s, fun _ h => List.mem_cons_of_mem _ h⟩

theorem Sound.use {u : Use} (h : Sound scene u.store log)
    (hp : Stands scene log u.store u.scope around locals [⟨u.node, u.name, around, locals⟩]) :
    Sound scene u.store (.use u :: log) := by
  have hl := later_cons u.store log (.use u)
  refine ⟨h.functions.mono fun _ => hl.fits, fun u' he => ?_, h.records.use u⟩
  cases List.mem_cons.mp he with
  | inl heq =>
    obtain rfl := Event.use.inj heq
    exact ⟨around, locals, hl.stands hp⟩
  | inr he =>
    obtain ⟨around', locals', hp'⟩ := h.uses u' he
    exact ⟨around', locals', hp'.mono (.refl _) hl.log⟩

theorem Sound.enter {region : Region} (h : Sound scene s log)
    (hn : ∀ region', .enter region' scope ∉ log ++ scene.past) (hs : scope < s.scopes.size) :
    Sound scene s (.enter region scope :: log) := by
  have hl := later_cons s log (.enter region scope)
  refine ⟨h.functions.mono fun _ => hl.fits, fun u he => ?_, h.records.enter hn hs⟩
  obtain ⟨around', locals', hp'⟩ := h.uses u ((List.mem_cons.mp he).resolve_left nofun)
  exact ⟨around', locals', hp'.mono (.refl _) hl.log⟩

end

abbrev Outcome (α : Type) := Store → List Event → α → Prop

/-- From this store and log the computation keeps the run sound, and what it gives satisfies
`P`. -/
def Traced.Safe {α : Type} (scene : Scene) (t : Traced α) (s : Store)
    (log : List Event) (P : Outcome α) : Prop :=
  Sound scene s log →
    Sound scene (t.outcome s log).2.1 (t.outcome s log).2.2 ∧
      Later s log (t.outcome s log).2.1 (t.outcome s log).2.2 ∧
        ∀ a, (t.outcome s log).1 = .ok a → P (t.outcome s log).2.1 (t.outcome s log).2.2 a

def Value.Fits (scene : Scene) : Outcome Value :=
  fun s log v => v.Within (Closure.Fits scene s log)

namespace Traced.Safe

variable {α β : Type} {scene : Scene} {s : Store} {log : List Event}
  {P : Outcome α} {Q : Outcome β}

theorem pure {a : α} (h : P s log a) : Safe scene (Pure.pure a) s log P := by
  refine fun hs => ⟨hs, .refl s log, fun b hb => ?_⟩
  obtain rfl := Except.ok.inj hb
  exact h

theorem bind {t : Traced α} {f : α → Traced β} (ht : Safe scene t s log P)
    (hf : ∀ s' log' a, Later s log s' log' → P s' log' a →
      Safe scene (f a) s' log' Q) :
    Safe scene (t >>= f) s log Q := by
  intro hs
  obtain ⟨ht₁, ht₂, ht₃⟩ := ht hs
  rw [outcome_bind]
  cases hr : t.outcome s log with
  | mk r σ =>
    obtain ⟨s', log'⟩ := σ
    rw [hr] at ht₁ ht₂ ht₃
    cases r with
    | error stop => exact ⟨ht₁, ht₂, nofun⟩
    | ok a =>
      obtain ⟨hf₁, hf₂, hf₃⟩ := hf s' log' a ht₂ (ht₃ a rfl) ht₁
      exact ⟨hf₁, ht₂.trans hf₂, hf₃⟩

theorem weaken {t : Traced α} {Q : Outcome α} (ht : Safe scene t s log P)
    (h : ∀ s' log' a, Later s log s' log' → P s' log' a → Q s' log' a) :
    Safe scene t s log Q := by
  intro hs
  obtain ⟨ht₁, ht₂, ht₃⟩ := ht hs
  exact ⟨ht₁, ht₂, fun a ha => h _ _ a ht₂ (ht₃ a ha)⟩

theorem ite {p : Prop} [Decidable p] {t u : Traced α} (ht : Safe scene t s log P)
    (hu : Safe scene u s log P) : Safe scene (if p then t else u) s log P := by
  split
  · exact ht
  · exact hu

theorem ofRun {x : Run α}
    (hx : s.Within (Closure.Fits scene s log) → s.Grows (x.outcome s).2 ∧
      (x.outcome s).2.Within (Closure.Fits scene s log) ∧
        ∀ a, (x.outcome s).1 = .ok a → P (x.outcome s).2 log a) :
    Safe scene (ofRun x) s log P := by
  intro hs
  obtain ⟨hx₁, hx₂, hx₃⟩ := hx hs.functions
  exact ⟨hs.later hx₁ hx₂, ⟨hx₁, fun _ h => h⟩, hx₃⟩

theorem ofKeeps {x : Run α} {K : α → Prop}
    (hx : x.Keeps (Closure.Fits scene s log) K)
    (h : ∀ s' a, Later s log s' log → K a → P s' log a) :
    Safe scene (Traced.ofRun x) s log P := by
  refine .ofRun fun hs => ?_
  obtain ⟨hx₁, hx₂, hx₃⟩ := hx s hs
  exact ⟨.of_scopes_eq hx₁, hx₂, fun a ha => h _ a ⟨.of_scopes_eq hx₁, fun _ h => h⟩ (hx₃ a ha)⟩

theorem ofKeepsValue {x : Run Value}
    (hx : x.Keeps (Closure.Fits scene s log) (·.Within (Closure.Fits scene s log))) :
    Safe scene (Traced.ofRun x) s log (Value.Fits scene) :=
  .ofKeeps hx fun _ _ hl hv => hl.within hv

theorem boundTo {t : Traced α} (token : Token) (ht : Safe scene t s log P) :
    Safe scene (Traced.boundTo token t) s log P := by
  intro hs
  have h := ht hs
  rw [outcome_boundTo]
  split
  · rename_i cause s' log' hr
    rw [hr] at h
    exact ⟨h.1, h.2.1, nofun⟩
  · exact h

theorem mapM {f : Value → Traced α} {xs : List Value}
    (hf : ∀ x s' log', Later s log s' log' → Value.Fits scene s' log' x →
      Safe scene (f x) s' log' fun _ _ _ => True)
    (hxs : ∀ x ∈ xs, Value.Fits scene s log x) :
    Safe scene (xs.mapM f) s log fun _ _ _ => True := by
  induction xs generalizing s log with
  | nil => exact .pure trivial
  | cons x xs ih =>
    rw [List.mapM_cons]
    refine (hf x s log (.refl s log) (hxs x List.mem_cons_self)).bind fun s₁ log₁ _ hl _ => ?_
    have hxs₁ : ∀ y ∈ xs, Value.Fits scene s₁ log₁ y :=
      fun y hy => hl.within (hxs y (List.mem_cons_of_mem _ hy))
    have hr := ih (fun y s' log' hl' => hf y s' log' (hl.trans hl')) hxs₁
    exact hr.bind fun _ _ _ _ _ => .pure trivial

end Traced.Safe

namespace NameScope

theorem eq_or_of_ready?_put {scope : NameScope} {name name' : String} {ready : Bool}
    (h : (scope.put name ready).ready? name' = some true) :
    name' = name ∨ scope.ready? name' = some true := by
  rw [ready?_put] at h
  split at h
  · rename_i he
    exact .inl he
  · exact .inr h

theorem mem_or_of_ready?_params {params : List String} {scope : NameScope} {name : String}
    (h : ready? (params.foldl (fun scope name => scope.put name true) scope) name = some true) :
    name ∈ params ∨ scope.ready? name = some true := by
  induction params generalizing scope with
  | nil => exact .inr h
  | cons p params ih =>
    cases ih h with
    | inl hm => exact .inl (List.mem_cons_of_mem _ hm)
    | inr hr =>
      cases eq_or_of_ready?_put hr with
      | inl he => exact .inl (List.mem_cons.mpr (.inl he))
      | inr hr => exact .inr hr

theorem mem_of_ready?_ofParams {params : List String} {name : String}
    (h : (ofParams params).ready? name = some true) : name ∈ params :=
  (mem_or_of_ready?_params h).resolve_right nofun

end NameScope

namespace Traced

variable {scene : Scene} {ctx : Context} {scope : Nat} {s : Store} {log : List Event}
  {around : List Region} {locals : List NameScope} {visits rest : List Visit}

theorem lookup_keeps (known : Closure → Prop) (node : Nat) (name : Token) :
    (Run.lookup ctx node name scope).Keeps known (·.Within known) := by
  refine Run.Keeps.bind (P := fun found => ∀ v, found = some v → v.Within known)
    (.read fun s hs v hv => ?_) fun found hf => ?_
  · split at hv
    · exact hs.lookupAt? hv
    · exact hs.lookup? hv
  · cases found with
    | some v => exact .pure (hf v rfl)
    | none => exact .fail _ _

theorem emit_use_safe {node : Nat} {name : String}
    (hp : Stands scene log s scope around locals [⟨node, name, around, locals⟩]) :
    Safe scene (emit fun s => .use ⟨node, name, scope, s⟩) s log fun _ _ _ => True :=
  fun hs => ⟨hs.use (u := ⟨node, name, scope, s⟩) hp, later_cons s log _, fun _ _ => trivial⟩

theorem lookup_safe {node : Nat} {name : Token}
    (hp : Stands scene log s scope around locals [⟨node, name.lexeme, around, locals⟩]) :
    Safe scene (lookup ctx node name scope) s log (Value.Fits scene) :=
  (emit_use_safe hp).bind fun _ _ _ _ _ => .ofKeepsValue (lookup_keeps _ node name)

theorem assign_grows {known : Closure → Prop} (node : Nat) (name : Token) {v : Value}
    (hs : s.Within known) (hv : v.Within known) :
    s.Grows ((Run.assign ctx node name v scope).outcome s).2 ∧
      ((Run.assign ctx node name v scope).outcome s).2.Within known := by
  have ha : ∀ scope, s.Grows (s.assign scope name.lexeme v).2 ∧
      (s.assign scope name.lexeme v).2.Within known := by
    intro scope
    rw [Store.assign]
    split
    · exact ⟨.define s scope name.lexeme v, hs.define scope name.lexeme hv⟩
    · exact ⟨.refl s, hs⟩
  have hk : ∀ (found : Bool) (s' : Store),
      (Run.outcome (if found then pure () else Run.fail name (.undefinedName name.lexeme)) s').2 =
        s' := by
    intro found s'
    cases found <;> rfl
  rw [Run.assign, Run.outcome_bind, Run.outcome_update]
  dsimp only
  rw [hk]
  split
  · rw [Store.assignAt]
    split
    · exact ha _
    · exact ⟨.refl s, hs⟩
  · exact ha _

theorem assign_safe {node : Nat} {name : Token} {v : Value}
    (hp : Stands scene log s scope around locals [⟨node, name.lexeme, around, locals⟩])
    (hf : Value.Fits scene s log v) :
    Safe scene (assign ctx node name v scope) s log fun _ _ _ => True := by
  refine (emit_use_safe hp).bind fun s' log' _ hl _ => .ofRun fun hs => ?_
  obtain ⟨hg, hw⟩ := assign_grows node name hs (hl.within hf)
  exact ⟨hg, hw, fun _ _ => trivial⟩

theorem innerScope_safe {region : Region} {names : List (String × Value)} {ready : NameScope}
    (hp : Stands scene log s scope around locals visits)
    (hn : ∀ pair ∈ names, Value.Fits scene s log pair.2)
    (hr : ∀ name, ready.ready? name = some true → name ∈ names.map Prod.fst) :
    Safe scene (innerScope region scope names) s log fun s' log' inner =>
      Stands scene log' s' inner (region :: around) (ready :: locals) visits := by
  intro hs
  have hnew : s.scopes.size < (s.newScope (some scope)).2.scopes.size := by
    rw [Store.newScope, Array.size_push]
    exact Nat.lt_succ_self _
  have hall := Store.Grows.defineAll (s.newScope (some scope)).2 s.scopes.size names
  have hg : s.Grows ((s.newScope (some scope)).2.defineAll s.scopes.size names) :=
    (Store.Grows.newScope s (some scope)).trans hall
  have hlt := Nat.lt_of_lt_of_le hnew hall.size
  have hw : ((s.newScope (some scope)).2.defineAll s.scopes.size names).Within
      (Closure.Fits scene s log) :=
    (hs.functions.newScope (some scope)).defineAll s.scopes.size hn
  have hfresh : ∀ region', .enter region' s.scopes.size ∉ log ++ scene.past :=
    fun region' he => Nat.lt_irrefl _ (hs.records.fresh region' _ he)
  have hl := later_cons ((s.newScope (some scope)).2.defineAll s.scopes.size names) log
    (.enter region s.scopes.size)
  refine ⟨(hs.later hg hw).enter hfresh hlt, ⟨hg, hl.log⟩, fun inner he => ?_⟩
  obtain rfl := Except.ok.inj he
  have hparent : (s.newScope (some scope)).2.parent? s.scopes.size = some scope := by
    rw [Store.parent?, Store.newScope, Array.getElem?_push_size]
    rfl
  exact hp.inner hg hl.log ((hall.parent _ hnew).trans hparent) hlt List.mem_cons_self
    fun name hn => Store.lookup?_defineAll hnew (hr name hn)

theorem emptyScope_safe {region : Region}
    (hp : Stands scene log s scope around locals visits) :
    Safe scene (innerScope region scope []) s log fun s' log' inner =>
      Stands scene log' s' inner (region :: around) ([] :: locals) visits :=
  innerScope_safe hp (fun _ hp => absurd hp List.not_mem_nil) fun _ hr => absurd hr nofun

theorem emptyScope_body_safe {α : Type} {region : Region} {body : Nat → Traced α}
    (hp : Stands scene log s scope around locals (visits ++ rest))
    (hb : ∀ s' log' inner, Stands scene log' s' inner (region :: around) ([] :: locals) visits →
      Safe scene (body inner) s' log' fun _ _ _ => True) :
    Safe scene (innerScope region scope [] >>= body) s log fun s' log' _ =>
      Stands scene log' s' scope around locals rest := by
  refine (emptyScope_safe hp.left).bind fun s₁ log₁ inner hl₁ hi => ?_
  refine (hb s₁ log₁ inner hi).weaken fun s₂ log₂ _ hl₂ _ => ?_
  exact hl₂.stands (hl₁.stands hp.right)

end Traced

def TracedInvoke.Safe (scene : Scene) (call : TracedInvoke) : Prop :=
  ∀ f args s log, Value.Fits scene s log f → (∀ v ∈ args, Value.Fits scene s log v) →
    Traced.Safe scene (call f args) s log (Value.Fits scene)

namespace Traced

open Value (Fits)

variable {scene : Scene} {ctx : Context} {call : TracedInvoke}

theorem trace_safe (hc : call.Safe scene) (p : NativeProgram) (s : Store)
    (log : List Event) (hp : p.Confined (Closure.Fits scene s log)) :
    Safe scene (p.trace call) s log (Fits scene) := by
  induction p generalizing s log with
  | done result =>
    refine fun hs => ⟨hs, .refl s log, fun v hv => ?_⟩
    change result = .ok v at hv
    subst hv
    exact hp
  | change f next ih =>
    intro hs
    obtain ⟨h₁, h₂, h₃⟩ := hp s hs.functions
    have hg : s.Grows (f s) := .of_scopes_eq h₁
    rw [← Closure.fits_congr h₁] at h₃
    obtain ⟨hn₁, hn₂, hn₃⟩ := ih s (f s) log h₃ (hs.later hg h₂)
    exact ⟨hn₁, Later.trans ⟨hg, fun _ h => h⟩ hn₂, hn₃⟩
  | call f args next ih =>
    obtain ⟨hf, ha, hn⟩ := hp
    intro hs
    obtain ⟨h₁, h₂, h₃⟩ := hc f args s log hf ha hs
    have hk := hn _ (fun _ => h₂.fits) ((call f args).outcome s log).1 h₃
    obtain ⟨hn₁, hn₂, hn₃⟩ := ih _ _ _ hk h₁
    exact ⟨hn₁, h₂.trans hn₂, hn₃⟩

theorem callPiped_safe (hc : call.Safe scene) (pipe : Token) {f : Value}
    {args : List Value} {s : Store} {log : List Event} (hf : Fits scene s log f)
    (ha : ∀ v ∈ args, Fits scene s log v) :
    Safe scene (callPiped call pipe f args) s log (Fits scene) :=
  .ite ((hc f args s log hf ha).boundTo pipe) (.ofKeepsValue (.fail _ _))

theorem callBarePiped_safe (hc : call.Safe scene) (pipe : Token) {f arg : Value}
    {s : Store} {log : List Event} (hf : Fits scene s log f)
    (ha : Fits scene s log arg) :
    Safe scene (callBarePiped call pipe f arg) s log (Fits scene) := by
  unfold callBarePiped
  split
  · exact .ofKeepsValue (.fail _ _)
  · exact callPiped_safe hc pipe hf (List.forall_mem_singleton.mpr ha)
  · exact .ofKeepsValue (.fail _ _)

theorem isTruthy_safe (v : Value) (s : Store) (log : List Event) :
    Safe scene (ofRun (Run.isTruthy v)) s log fun _ _ _ => True :=
  .ofKeeps (Run.isTruthy_keeps v) fun _ _ _ _ => trivial

section

mutual

theorem eval_safe (hh : Run.FieldsKnown ctx.host) (hc : call.Safe scene)
    (e : Expr) (scope : Nat) (around : List Region) (locals : List NameScope)
    (s : Store) (log : List Event)
    (hp : Stands scene log s scope around locals (e.visits around locals)) :
    Safe scene (eval ctx call e scope) s log (Fits scene) := by
  match e with
  | .constant _ value =>
    exact .pure (Value.cellFree_ofConstant value).within
  | .name site token => exact lookup_safe hp
  | .assign site token value =>
    refine (eval_safe hh hc value scope around locals s log hp.left).bind fun s₁ log₁ v hl₁ hf => ?_
    refine (assign_safe (hl₁.stands hp.right) hf).bind fun s₂ log₂ _ hl₂ _ => ?_
    exact .pure (hl₂.within hf)
  | .unary _ .neg token operand =>
    refine (eval_safe hh hc operand scope around locals s log hp).bind fun s₁ log₁ v _ _ => ?_
    exact .ofKeepsValue ((Run.negate_keeps v).boundTo token)
  | .unary _ .not _ operand =>
    refine (eval_safe hh hc operand scope around locals s log hp).bind fun s₁ log₁ v _ _ => ?_
    exact (isTruthy_safe v s₁ log₁).bind fun _ _ _ _ _ => .pure (Value.within_of_closures rfl)
  | .binary _ .pipe token left right =>
    have hr := fun s log hp => eval_safe hh hc right scope around locals s log hp
    rw [eval]
    refine (eval_safe hh hc left scope around locals s log hp.left).bind fun s₁ log₁ v hl₁ hf => ?_
    have hp₁ := hl₁.stands hp.right
    cases right with
    | call site callee paren args =>
      refine (eval_safe hh hc callee scope around locals s₁ log₁ hp₁.left).bind
        fun s₂ log₂ f hl₂ hg => ?_
      refine (evalAll_safe hh hc args scope around locals s₂ log₂ (hl₂.stands hp₁.right)).bind
        fun s₃ log₃ vs hl₃ hvs => ?_
      exact callPiped_safe hc token (hl₃.within hg)
        (List.forall_mem_cons.mpr ⟨(hl₂.trans hl₃).within hf, hvs⟩)
    | _ => exact (hr s₁ log₁ hp₁).bind fun s₂ log₂ f hl₂ hg =>
        callBarePiped_safe hc token hg (hl₂.within hf)
  | .binary _ .coalesce _ left right =>
    refine (eval_safe hh hc left scope around locals s log hp.left).bind fun s₁ log₁ v hl₁ hf => ?_
    exact .ite (eval_safe hh hc right scope around locals s₁ log₁ (hl₁.stands hp.right)) (.pure hf)
  | .binary _ .or _ left right =>
    refine (eval_safe hh hc left scope around locals s log hp.left).bind fun s₁ log₁ v hl₁ hf => ?_
    refine (isTruthy_safe v s₁ log₁).bind fun s₂ log₂ b hl₂ _ => ?_
    exact .ite (.pure (hl₂.within hf))
      (eval_safe hh hc right scope around locals s₂ log₂ (hl₂.stands (hl₁.stands hp.right)))
  | .binary _ .and _ left right =>
    refine (eval_safe hh hc left scope around locals s log hp.left).bind fun s₁ log₁ v hl₁ hf => ?_
    refine (isTruthy_safe v s₁ log₁).bind fun s₂ log₂ b hl₂ _ => ?_
    exact .ite
      (eval_safe hh hc right scope around locals s₂ log₂ (hl₂.stands (hl₁.stands hp.right)))
      (.pure (hl₂.within hf))
  | .binary _ (.binary op) token left right =>
    refine (eval_safe hh hc left scope around locals s log hp.left).bind fun s₁ log₁ l hl₁ _ => ?_
    refine (eval_safe hh hc right scope around locals s₁ log₁ (hl₁.stands hp.right)).bind
      fun s₂ log₂ r _ _ => ?_
    exact .ofKeepsValue ((Run.binary_keeps op l r).boundTo token)
  | .group _ inner => exact eval_safe hh hc inner scope around locals s log hp
  | .call _ callee paren args =>
    refine (eval_safe hh hc callee scope around locals s log hp.left).bind
      fun s₁ log₁ f hl₁ hf => ?_
    refine (evalAll_safe hh hc args scope around locals s₁ log₁ (hl₁.stands hp.right)).bind
      fun s₂ log₂ vs hl₂ hvs => ?_
    exact (hc f vs s₂ log₂ (hl₂.within hf) hvs).boundTo paren
  | .get _ object name optional =>
    refine (eval_safe hh hc object scope around locals s log hp).bind fun s₁ log₁ v _ hf => ?_
    exact .ite (.pure Value.within_null)
      (.ofKeepsValue ((Run.getProperty_keeps hh name.lexeme hf).boundTo name))
  | .set _ object name value =>
    -- the resolver meets the value first, and a run the object
    refine (eval_safe hh hc object scope around locals s log hp.right).bind
      fun s₁ log₁ target hl₁ _ => ?_
    refine (eval_safe hh hc value scope around locals s₁ log₁ (hl₁.stands hp.left)).bind
      fun s₂ log₂ v _ hf => ?_
    have hs := (Run.setProperty_keeps hh target name.lexeme hf).boundTo name
    refine Safe.bind (.ofKeeps (P := fun s' log' _ => Fits scene s' log' v) hs
      fun s' _ hl _ => hl.within hf) fun _ _ _ _ hf' => .pure hf'
  | .choose _ branches otherwise =>
    refine (evalBranches_safe hh hc branches scope around locals s log hp.left).bind
      fun s₁ log₁ found hl₁ hf => ?_
    cases found with
    | some v => exact .pure (hf v rfl)
    | none =>
      exact evalOrNull_safe hh hc otherwise scope around locals s₁ log₁ (hl₁.stands hp.right)
  | .lambda _ params body =>
    -- the scope of the function stands where the resolver met the body, now and at any call
    exact .pure (Value.within_function.mpr ⟨around, locals, hp⟩)
  | .list _ items =>
    refine (evalAll_safe hh hc items scope around locals s log hp).bind fun s₁ log₁ vs _ hvs => ?_
    exact .pure (Value.within_list.mpr hvs)

theorem evalAll_safe (hh : Run.FieldsKnown ctx.host) (hc : call.Safe scene)
    (es : List Expr) (scope : Nat) (around : List Region)
    (locals : List NameScope) (s : Store) (log : List Event)
    (hp : Stands scene log s scope around locals (Expr.visitsOfItems es around locals)) :
    Safe scene (evalAll ctx call es scope) s log
      fun s' log' vs => ∀ v ∈ vs, Fits scene s' log' v := by
  match es with
  | [] => exact .pure nofun
  | e :: es =>
    refine (eval_safe hh hc e scope around locals s log hp.left).bind fun s₁ log₁ v hl₁ hf => ?_
    refine (evalAll_safe hh hc es scope around locals s₁ log₁ (hl₁.stands hp.right)).bind
      fun s₂ log₂ vs hl₂ hfs => ?_
    exact .pure (List.forall_mem_cons.mpr ⟨hl₂.within hf, hfs⟩)

theorem evalBranches_safe (hh : Run.FieldsKnown ctx.host) (hc : call.Safe scene)
    (branches : List (Expr × Expr)) (scope : Nat) (around : List Region)
    (locals : List NameScope) (s : Store) (log : List Event)
    (hp : Stands scene log s scope around locals
      (Expr.visitsOfBranches branches around locals)) :
    Safe scene (evalBranches ctx call branches scope) s log
      fun s' log' found => ∀ v, found = some v → Fits scene s' log' v := by
  match branches with
  | [] => exact .pure nofun
  | (condition, result) :: branches =>
    refine (eval_safe hh hc condition scope around locals s log hp.left.left).bind
      fun s₁ log₁ v hl₁ _ => ?_
    refine (isTruthy_safe v s₁ log₁).bind fun s₂ log₂ b hl₂ _ => ?_
    have hp₂ := hl₂.stands (hl₁.stands hp)
    refine .ite ?_ (evalBranches_safe hh hc branches scope around locals s₂ log₂ hp₂.right)
    refine (eval_safe hh hc result scope around locals s₂ log₂ hp₂.left.right).bind
      fun s₃ log₃ w _ hf => ?_
    refine .pure fun w' hw => ?_
    obtain rfl := Option.some.inj hw
    exact hf

theorem evalOrNull_safe (hh : Run.FieldsKnown ctx.host) (hc : call.Safe scene)
    (e : Option Expr) (scope : Nat) (around : List Region)
    (locals : List NameScope) (s : Store) (log : List Event)
    (hp : Stands scene log s scope around locals (Expr.visitsOfOptional e around locals)) :
    Safe scene (evalOrNull ctx call e scope) s log (Fits scene) := by
  match e with
  | none => exact .pure Value.within_null
  | some e => exact eval_safe hh hc e scope around locals s log hp

end

theorem declare_safe (hh : Run.FieldsKnown ctx.host) (hc : call.Safe scene)
    {name : Token} {init : Option Expr} {scope : Nat} {around : List Region}
    {locals : List NameScope} {s : Store} {log : List Event} {rest : List Visit}
    (hp : Stands scene log s scope around locals
      ((Stmt.declare name init).visits around locals ++ rest)) :
    Safe scene (exec ctx call (.declare name init) scope) s log fun s' log' _ =>
      Stands scene log' s' scope around ((Stmt.declare name init).localsAfter locals) rest := by
  refine (evalOrNull_safe hh hc init scope around _ s log (hp.left.pending name.lexeme)).bind
    fun s₁ log₁ v hl₁ hf => ?_
  have hg := Store.Grows.define s₁ scope name.lexeme v
  refine Safe.bind (.ofRun (P := fun s' log' _ =>
    Stands scene log' s' scope around ((Stmt.declare name init).localsAfter locals) rest)
    fun hs => ⟨hg, hs.define scope name.lexeme hf, fun _ _ => ?_⟩) fun _ _ _ _ hp' => .pure hp'
  refine (hl₁.stands hp.right).imp (·.mono hg) fun ⟨hm, hv⟩ => ⟨?_, hv⟩
  refine (hm.mono hg fun _ h => h).after _ fun name' init' heq => ?_
  obtain ⟨rfl, -⟩ := Stmt.declare.inj heq
  exact Store.lookup?_define_self hm.lt name.lexeme v

mutual

theorem exec_safe (hh : Run.FieldsKnown ctx.host) (hc : call.Safe scene)
    (stmt : Stmt) (scope : Nat) (around : List Region) (locals : List NameScope)
    (s : Store) (log : List Event) (rest : List Visit)
    (hp : Stands scene log s scope around locals (stmt.visits around locals ++ rest)) :
    Safe scene (exec ctx call stmt scope) s log fun s' log' _ =>
      Stands scene log' s' scope around (stmt.localsAfter locals) rest := by
  match stmt with
  | .expr e =>
    refine (eval_safe hh hc e scope around locals s log hp.left).bind fun s₁ log₁ v hl₁ _ => ?_
    refine Safe.bind (.ofKeeps (P := fun s' log' _ => Later s₁ log₁ s' log')
      (Run.Keeps.observe (P := fun _ => True) fun _ _ _ _ => trivial) fun _ _ hl _ => hl)
      fun s₂ log₂ text _ hl₂ => ?_
    exact .pure (hl₂.stands (hl₁.stands hp.right))
  | .declare name init => exact declare_safe hh hc hp
  | .block body =>
    refine emptyScope_body_safe hp fun s₁ log₁ inner hi => ?_
    exact execAll_safe hh hc body inner _ _ s₁ log₁ [] hi
  | .ifTrue condition body =>
    rw [Stmt.visits, List.append_assoc] at hp
    refine (eval_safe hh hc condition scope around locals s log hp.left).bind
      fun s₁ log₁ v hl₁ _ => ?_
    refine (isTruthy_safe v s₁ log₁).bind fun s₂ log₂ b hl₂ _ => ?_
    have hp₂ := hl₂.stands (hl₁.stands hp.right)
    refine .ite ?_ (.pure hp₂.right)
    refine emptyScope_body_safe hp₂ fun s₃ log₃ inner hi => ?_
    exact execAll_safe hh hc body inner _ _ s₃ log₃ [] hi
  | .forEach element items body =>
    rw [Stmt.visits, List.append_assoc] at hp
    refine (eval_safe hh hc items scope around locals s log hp.left).bind
      fun s₁ log₁ v hl₁ hf => ?_
    refine Safe.bind (.ofKeeps (P := fun s' log' items => Later s₁ log₁ s' log' ∧
      ∀ item ∈ items, Fits scene s' log' item) (Run.loopItems_keeps element hf)
      fun s' items hl hi => ⟨hl, fun item hm => hl.within (hi item hm)⟩)
      fun s₂ log₂ items _ hitems => ?_
    obtain ⟨hl₂, hitems⟩ := hitems
    have hp₂ := hl₂.stands (hl₁.stands hp.right)
    refine (Safe.mapM (fun item s' log' hl' hitem => ?_) hitems).bind fun s₃ log₃ turns hl₃ _ => ?_
    · have hn : ∀ pair ∈ [(element.lexeme, item)], Fits scene s' log' pair.2 :=
        List.forall_mem_singleton.mpr hitem
      have hr : ∀ name, NameScope.ready? [(element.lexeme, true)] name = some true →
          name ∈ [(element.lexeme, item)].map Prod.fst := by
        intro name hr
        have he := (@NameScope.eq_or_of_ready?_put [] _ _ _ hr).resolve_right nofun
        exact List.mem_singleton.mpr he
      refine (innerScope_safe (hl'.stands hp₂.left) hn hr).bind fun s₃ log₃ inner _ hi => ?_
      exact (execAll_safe hh hc body inner _ _ s₃ log₃ [] hi).weaken fun _ _ _ _ _ => trivial
    · exact .pure (hl₃.stands hp₂.right)
  | .run e =>
    refine (eval_safe hh hc e scope around locals s log hp.left).bind fun s₁ log₁ v hl₁ _ => ?_
    exact .pure (hl₁.stands hp.right)
  | .verbatim item => exact .ofKeeps (Run.copy_keeps item) fun _ _ hl _ => hl.stands hp
  | .insert keyword target body | .rewrite keyword target body =>
    rw [Stmt.visits, List.append_assoc] at hp
    refine (eval_safe hh hc target scope around locals s log hp.left).bind
      fun s₁ log₁ v hl₁ _ => ?_
    have hp₁ := hl₁.stands hp.right
    split
    · refine emptyScope_body_safe hp₁ fun s₂ log₂ inner hi => ?_
      exact execAll_safe hh hc body inner _ _ s₂ log₂ [] hi
    · refine emptyScope_body_safe hp₁ fun s₂ log₂ inner hi => ?_
      refine (execAll_safe hh hc body inner _ _ s₂ log₂ [] hi).bind fun s₃ log₃ tokens _ _ => ?_
      exact .ofKeeps (Run.rewriteBody_keeps ctx keyword _ tokens) fun _ _ _ _ => trivial
    · exact .ofKeeps (K := fun _ => True) (.fail _ _) fun _ _ hl _ => hl.stands hp₁.right

theorem execAll_safe (hh : Run.FieldsKnown ctx.host) (hc : call.Safe scene)
    (body : List Stmt) (scope : Nat) (around : List Region)
    (locals : List NameScope) (s : Store) (log : List Event) (done : List (List OutputToken))
    (hp : Stands scene log s scope around locals (Stmt.visitsOfBody body around locals)) :
    Safe scene (execAll ctx call body scope done) s log fun _ _ _ => True := by
  match body with
  | [] => exact .pure trivial
  | stmt :: body =>
    refine (exec_safe hh hc stmt scope around locals s log _ hp).bind fun s₁ log₁ tokens _ hp₁ => ?_
    exact execAll_safe hh hc body scope around _ s₁ log₁ (tokens :: done) hp₁

end

end

/-- Functions run in scopes that are placed where they stand, however deep calls nest. -/
theorem apply_safe {programs : Nat → List Value → NativeProgram}
    (hh : ctx.host.Describes programs) (depth : Nat) :
    (apply ctx programs depth).Safe scene := by
  induction depth with
  | zero => exact fun _ _ s log _ _ hs => ⟨hs, .refl s log, nofun⟩
  | succ depth ih =>
    intro f args s log hf ha
    have hraise : ∀ cause, Safe scene (ofRun (Run.raise cause)) s log
        (Fits scene) := fun cause => .ofKeepsValue (.raise cause)
    cases f with
    | atom a =>
      cases a with
      | function closure =>
        rw [apply]
        split
        · rename_i hlen
          obtain ⟨around, locals, hp⟩ := Value.within_function.mp hf
          have hn : ∀ pair ∈ closure.params.zip args, Fits scene s log pair.2 :=
            fun pair hp => ha pair.2 (List.of_mem_zip hp).2
          have hr : ∀ name, (NameScope.ofParams closure.params).ready? name = some true →
              name ∈ (closure.params.zip args).map Prod.fst := by
            intro name hr
            rw [List.map_fst_zip (Nat.le_of_eq hlen.symm)]
            exact NameScope.mem_of_ready?_ofParams hr
          refine (innerScope_safe hp hn hr).bind fun s₁ log₁ scope _ hp₁ => ?_
          exact eval_safe hh.fields ih closure.body scope _ _ s₁ log₁ hp₁
        · exact hraise _
      | native f =>
        refine .ite (trace_safe ih _ s log ?_) (hraise _)
        cases f with
        | builtin b => exact b.program_confined ctx.settings ha
        | host f => exact hh.confined f.number args _ ha
      | _ => exact hraise _
    | _ => exact hraise _

end Traced

end DocTemplate
