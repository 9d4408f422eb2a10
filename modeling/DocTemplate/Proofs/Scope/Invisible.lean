import DocTemplate.Proofs.Scope.Globals
import DocTemplate.Proofs.Scope.Hygiene

namespace DocTemplate

def Invoke.Sims (resolution : Resolution) (ρ : Relabeling) (globals : Nat) (call : Invoke) : Prop :=
  ∀ f args marked s, f.Within (Closure.Apt resolution ρ marked s) →
    (∀ v ∈ args, v.Within (Closure.Apt resolution ρ marked s)) →
      Run.Sim resolution ρ globals (call f args) (call (f.relabel ρ) (args.map (Value.relabel ρ)))
        marked s (Value.Paired resolution ρ)

namespace Run

open Value (Paired AllPaired)

variable {resolution : Resolution} {ρ : Relabeling} {globals : Nat} {call : Invoke}
variable {marked : Nat → Bool} {s : Store}

variable {ctx : Context}

theorem callPiped_sim (hc : call.Sims resolution ρ globals) (pipe : Token) {f : Value}
    {args : List Value} (hf : f.Within (Closure.Apt resolution ρ marked s))
    (ha : ∀ v ∈ args, v.Within (Closure.Apt resolution ρ marked s)) :
    Sim resolution ρ globals (callPiped call pipe f args)
      (callPiped call pipe (f.relabel ρ) (args.map (Value.relabel ρ))) marked s
      (Paired resolution ρ) :=
  .ite (by rw [f.isCallable_relabel]) ((hc f args marked s hf ha).boundTo pipe) (.fail _ _)

theorem leastArgs?_relabel (f : Value) : leastArgs? (f.relabel ρ) = leastArgs? f := by
  cases f with
  | atom a => cases a <;> rfl
  | _ => rfl

theorem callBarePiped_sim (hc : call.Sims resolution ρ globals) (pipe : Token) {f arg : Value}
    (hf : f.Within (Closure.Apt resolution ρ marked s))
    (ha : arg.Within (Closure.Apt resolution ρ marked s)) :
    Sim resolution ρ globals (callBarePiped call pipe f arg)
      (callBarePiped call pipe (f.relabel ρ) (arg.relabel ρ)) marked s
      (Paired resolution ρ) := by
  unfold callBarePiped
  rw [leastArgs?_relabel]
  split
  · exact .fail _ _
  · exact callPiped_sim hc pipe hf (List.forall_mem_singleton.mpr ha)
  · exact .fail _ _

theorem isTruthy_sim (v : Value) :
    Sim resolution ρ globals (isTruthy v) (isTruthy (v.relabel ρ)) marked s SameResult :=
  .ofMirrorsSame (isTruthy_mirrors v) (isTruthy_keeps v)

structure Blind (ctx : Context) (call : Invoke) (ρ : Relabeling) : Prop where
  known : FieldsKnown ctx.host
  fields : ctx.host.FieldsRelabeled
  calls : call.Sims ctx.resolution ρ ctx.globals

section

mutual

theorem eval_sim (hh : Blind ctx call ρ)
    (e : Expr) (scope : Nat) (around : List Region) (locals : List NameScope)
    (marks marked : Nat → Bool) (s : Store)
    (ht : Tracks marked s marks scope locals.length)
    (hb : Bounded marks locals.length)
    (hv : ∀ v ∈ e.visits around locals, v.Suits ctx.resolution ρ marks) :
    Sim ctx.resolution ρ ctx.globals (eval ctx call e scope) (eval ctx call (e.relabel ρ) scope)
      marked s (Paired ctx.resolution ρ) := by
  match e with
  | .constant _ value =>
    have hfree := Value.cellFree_ofConstant value
    exact .pure ⟨hfree.within, hfree.relabel_eq.symm⟩
  | .name site token => exact lookup_sim ht (hv _ List.mem_cons_self)
  | .assign site token value =>
    obtain ⟨hvs, hva⟩ := List.forall_mem_append.mp hv
    refine (eval_sim hh value scope around locals marks marked s ht hb hvs).bind
      fun marked₁ s₁ v _ hl₁ hp => ?_
    obtain ⟨hw, rfl⟩ := hp
    refine (assign_sim (ht.mono hl₁) (hva _ List.mem_cons_self) hw).bind
      fun marked₂ s₂ _ _ hl₂ _ => ?_
    exact .pure ⟨hw.mono fun _ => hl₂.apt, rfl⟩
  | .unary _ .neg token operand =>
    refine (eval_sim hh operand scope around locals marks marked s ht hb hv).bind
      fun marked₁ s₁ v _ _ hp => ?_
    obtain ⟨-, rfl⟩ := hp
    exact .ofMirrorsValue ((negate_mirrors v).boundTo token) ((negate_keeps v).boundTo token)
  | .unary _ .not _ operand =>
    refine (eval_sim hh operand scope around locals marks marked s ht hb hv).bind
      fun marked₁ s₁ v _ _ hp => ?_
    obtain ⟨-, rfl⟩ := hp
    refine (isTruthy_sim v).bind fun marked₂ s₂ b _ _ hb => ?_
    obtain rfl := hb
    exact .pure ⟨Value.within_of_closures rfl, rfl⟩
  | .binary _ .pipe token left right =>
    obtain ⟨hvl, hvr⟩ := List.forall_mem_append.mp hv
    have hright := fun marked s ht => eval_sim hh right scope around locals marks marked s ht hb hvr
    rw [eval, Expr.relabel, eval]
    refine (eval_sim hh left scope around locals marks marked s ht hb hvl).bind
      fun marked₁ s₁ v _ hl₁ hp => ?_
    obtain ⟨hw, rfl⟩ := hp
    have ht₁ := ht.mono hl₁
    cases right with
    | call site callee paren args =>
      obtain ⟨hvc, hva⟩ := List.forall_mem_append.mp hvr
      refine (eval_sim hh callee scope around locals marks marked₁ s₁ ht₁ hb hvc).bind
        fun marked₂ s₂ f _ hl₂ hp => ?_
      obtain ⟨hf, rfl⟩ := hp
      refine (evalAll_sim hh args scope around locals marks marked₂ s₂ (ht₁.mono hl₂) hb hva).bind
        fun marked₃ s₃ vs _ hl₃ hp => ?_
      obtain ⟨hvs, rfl⟩ := hp
      exact callPiped_sim hh.calls token (hf.mono fun _ => hl₃.apt)
        (List.forall_mem_cons.mpr ⟨hw.mono fun _ => (hl₂.trans hl₃).apt, hvs⟩)
    | _ =>
      refine (hright marked₁ s₁ ht₁).bind fun marked₂ s₂ f _ hl₂ hp => ?_
      obtain ⟨hf, rfl⟩ := hp
      exact callBarePiped_sim hh.calls token hf (hw.mono fun _ => hl₂.apt)
  | .binary _ .coalesce _ left right =>
    obtain ⟨hvl, hvr⟩ := List.forall_mem_append.mp hv
    refine (eval_sim hh left scope around locals marks marked s ht hb hvl).bind
      fun marked₁ s₁ v _ hl₁ hp => ?_
    obtain ⟨hw, rfl⟩ := hp
    exact .ite (by rw [v.isNull_relabel])
      (eval_sim hh right scope around locals marks marked₁ s₁ (ht.mono hl₁) hb hvr)
      (.pure ⟨hw, rfl⟩)
  | .binary _ .or _ left right =>
    obtain ⟨hvl, hvr⟩ := List.forall_mem_append.mp hv
    refine (eval_sim hh left scope around locals marks marked s ht hb hvl).bind
      fun marked₁ s₁ v _ hl₁ hp => ?_
    obtain ⟨hw, rfl⟩ := hp
    refine (isTruthy_sim v).bind fun marked₂ s₂ b _ hl₂ hb' => ?_
    obtain rfl := hb'
    exact .ite Iff.rfl (.pure ⟨hw.mono fun _ => hl₂.apt, rfl⟩)
      (eval_sim hh right scope around locals marks marked₂ s₂ (ht.mono (hl₁.trans hl₂)) hb hvr)
  | .binary _ .and _ left right =>
    obtain ⟨hvl, hvr⟩ := List.forall_mem_append.mp hv
    refine (eval_sim hh left scope around locals marks marked s ht hb hvl).bind
      fun marked₁ s₁ v _ hl₁ hp => ?_
    obtain ⟨hw, rfl⟩ := hp
    refine (isTruthy_sim v).bind fun marked₂ s₂ b _ hl₂ hb' => ?_
    obtain rfl := hb'
    exact .ite Iff.rfl
      (eval_sim hh right scope around locals marks marked₂ s₂ (ht.mono (hl₁.trans hl₂)) hb hvr)
      (.pure ⟨hw.mono fun _ => hl₂.apt, rfl⟩)
  | .binary _ (.binary op) token left right =>
    obtain ⟨hvl, hvr⟩ := List.forall_mem_append.mp hv
    refine (eval_sim hh left scope around locals marks marked s ht hb hvl).bind
      fun marked₁ s₁ l _ hl₁ hp => ?_
    obtain ⟨-, rfl⟩ := hp
    refine (eval_sim hh right scope around locals marks marked₁ s₁ (ht.mono hl₁) hb hvr).bind
      fun marked₂ s₂ r _ _ hp => ?_
    obtain ⟨-, rfl⟩ := hp
    exact .ofMirrorsValue ((binary_mirrors op l r).boundTo token)
      ((binary_keeps op l r).boundTo token)
  | .group _ inner => exact eval_sim hh inner scope around locals marks marked s ht hb hv
  | .call _ callee paren args =>
    obtain ⟨hvc, hva⟩ := List.forall_mem_append.mp hv
    refine (eval_sim hh callee scope around locals marks marked s ht hb hvc).bind
      fun marked₁ s₁ f _ hl₁ hp => ?_
    obtain ⟨hf, rfl⟩ := hp
    refine (evalAll_sim hh args scope around locals marks marked₁ s₁ (ht.mono hl₁) hb hva).bind
      fun marked₂ s₂ vs _ hl₂ hp => ?_
    obtain ⟨hvs, rfl⟩ := hp
    exact (hh.calls f vs marked₂ s₂ (hf.mono fun _ => hl₂.apt) hvs).boundTo paren
  | .get _ object name optional =>
    refine (eval_sim hh object scope around locals marks marked s ht hb hv).bind
      fun marked₁ s₁ v _ _ hp => ?_
    obtain ⟨hw, rfl⟩ := hp
    exact .ite (by rw [v.isNull_relabel]) (.pure ⟨Value.within_null, rfl⟩)
      (.ofMirrorsValue ((getProperty_mirrors hh.fields v name.lexeme).boundTo name)
        ((getProperty_keeps hh.known name.lexeme hw).boundTo name))
  | .set _ object name value =>
    obtain ⟨hvv, hvo⟩ := List.forall_mem_append.mp hv
    refine (eval_sim hh object scope around locals marks marked s ht hb hvo).bind
      fun marked₁ s₁ target _ hl₁ hp => ?_
    obtain ⟨-, rfl⟩ := hp
    refine (eval_sim hh value scope around locals marks marked₁ s₁ (ht.mono hl₁) hb hvv).bind
      fun marked₂ s₂ v _ _ hp => ?_
    obtain ⟨hw, rfl⟩ := hp
    have hset : Sim ctx.resolution ρ ctx.globals
        (boundTo name (setProperty ctx.host target name.lexeme v))
        (boundTo name (setProperty ctx.host (target.relabel ρ) name.lexeme (v.relabel ρ)))
        marked₂ s₂ SameResult :=
      .ofMirrorsSame ((setProperty_mirrors hh.fields target name.lexeme v).boundTo name)
        ((setProperty_keeps hh.known target name.lexeme hw).boundTo name)
    exact hset.bind fun marked₃ s₃ _ _ hl₃ _ => .pure ⟨hw.mono fun _ => hl₃.apt, rfl⟩
  | .choose _ branches otherwise =>
    obtain ⟨hvb, hvo⟩ := List.forall_mem_append.mp hv
    refine (evalBranches_sim hh branches scope around locals marks marked s ht hb hvb).bind
      fun marked₁ s₁ found _ hl₁ hp => ?_
    obtain ⟨hw, rfl⟩ := hp
    cases found with
    | some v => exact .pure ⟨hw v rfl, rfl⟩
    | none =>
      exact evalOrNull_sim hh otherwise scope around locals marks marked₁ s₁ (ht.mono hl₁) hb hvo
  | .lambda _ params body =>
    -- a function keeps the scope that it is made in, whenever it is called
    exact .pure ⟨Value.within_function.mpr ⟨marks, _, locals, ht, hb, hv⟩, rfl⟩
  | .list _ items =>
    refine (evalAll_sim hh items scope around locals marks marked s ht hb hv).bind
      fun marked₁ s₁ vs _ _ hp => ?_
    obtain ⟨hvs, rfl⟩ := hp
    exact .pure ⟨Value.within_list.mpr hvs, (Value.relabel_list ρ vs).symm⟩

theorem evalAll_sim (hh : Blind ctx call ρ)
    (es : List Expr) (scope : Nat) (around : List Region) (locals : List NameScope)
    (marks marked : Nat → Bool) (s : Store)
    (ht : Tracks marked s marks scope locals.length)
    (hb : Bounded marks locals.length)
    (hv : ∀ v ∈ Expr.visitsOfItems es around locals, v.Suits ctx.resolution ρ marks) :
    Sim ctx.resolution ρ ctx.globals (evalAll ctx call es scope)
      (evalAll ctx call (Expr.relabelItems ρ es) scope) marked s
      (AllPaired ctx.resolution ρ) := by
  match es with
  | [] => exact .pure ⟨nofun, rfl⟩
  | e :: es =>
    obtain ⟨hve, hvs⟩ := List.forall_mem_append.mp hv
    refine (eval_sim hh e scope around locals marks marked s ht hb hve).bind
      fun marked₁ s₁ v _ hl₁ hp => ?_
    obtain ⟨hw, rfl⟩ := hp
    refine (evalAll_sim hh es scope around locals marks marked₁ s₁ (ht.mono hl₁) hb hvs).bind
      fun marked₂ s₂ vs _ hl₂ hp => ?_
    obtain ⟨hws, rfl⟩ := hp
    exact .pure ⟨List.forall_mem_cons.mpr ⟨hw.mono fun _ => hl₂.apt, hws⟩, rfl⟩

theorem evalBranches_sim (hh : Blind ctx call ρ)
    (branches : List (Expr × Expr)) (scope : Nat) (around : List Region)
    (locals : List NameScope) (marks marked : Nat → Bool) (s : Store)
    (ht : Tracks marked s marks scope locals.length)
    (hb : Bounded marks locals.length)
    (hv : ∀ v ∈ Expr.visitsOfBranches branches around locals, v.Suits ctx.resolution ρ marks) :
    Sim ctx.resolution ρ ctx.globals (evalBranches ctx call branches scope)
      (evalBranches ctx call (Expr.relabelBranches ρ branches) scope) marked s
      fun marked' s' found found' =>
        (∀ v, found = some v → v.Within (Closure.Apt ctx.resolution ρ marked' s')) ∧
          found' = found.map (Value.relabel ρ) := by
  match branches with
  | [] => exact .pure ⟨nofun, rfl⟩
  | (condition, result) :: branches =>
    obtain ⟨hvs, hvb⟩ := List.forall_mem_append.mp hv
    obtain ⟨hvc, hvr⟩ := List.forall_mem_append.mp hvs
    refine (eval_sim hh condition scope around locals marks marked s ht hb hvc).bind
      fun marked₁ s₁ v _ hl₁ hp => ?_
    obtain ⟨-, rfl⟩ := hp
    refine (isTruthy_sim v).bind fun marked₂ s₂ b _ hl₂ hb' => ?_
    obtain rfl := hb'
    have ht₂ := ht.mono (hl₁.trans hl₂)
    refine .ite Iff.rfl ?_
      (evalBranches_sim hh branches scope around locals marks marked₂ s₂ ht₂ hb hvb)
    refine (eval_sim hh result scope around locals marks marked₂ s₂ ht₂ hb hvr).bind
      fun marked₃ s₃ w _ _ hp => ?_
    obtain ⟨hw, rfl⟩ := hp
    refine .pure ⟨fun w' hw' => ?_, rfl⟩
    obtain rfl := Option.some.inj hw'
    exact hw

theorem evalOrNull_sim (hh : Blind ctx call ρ)
    (e : Option Expr) (scope : Nat) (around : List Region)
    (locals : List NameScope) (marks marked : Nat → Bool) (s : Store)
    (ht : Tracks marked s marks scope locals.length)
    (hb : Bounded marks locals.length)
    (hv : ∀ v ∈ Expr.visitsOfOptional e around locals, v.Suits ctx.resolution ρ marks) :
    Sim ctx.resolution ρ ctx.globals (evalOrNull ctx call e scope)
      (evalOrNull ctx call (Expr.relabelOptional ρ e) scope) marked s
      (Paired ctx.resolution ρ) := by
  match e with
  | none => exact .pure ⟨Value.within_null, rfl⟩
  | some e => exact eval_sim hh e scope around locals marks marked s ht hb hv

end

end

section

variable {scope : Nat} {locals : List NameScope} {marks marks' : Nat → Bool}

theorem declared_reworded (own : Bool) (element : Token) (type : String) :
    Stop.Reworded ρ.old ρ.fresh (.fault (element.fault (.notIterable type)))
      (.fault ((ρ.declared own element).fault (.notIterable type))) := by
  unfold Relabeling.declared
  split
  · rename_i ho
    rw [Token.fault, Token.fault, ho.2]
    exact .notIterable type element.span
  · exact .same _

theorem loopItems_sim (own : Bool) (element : Token) {v : Value}
    (hw : v.Within (Closure.Apt resolution ρ marked s)) :
    Sim resolution ρ globals (loopItems element v)
      (loopItems (ρ.declared own element) (v.relabel ρ)) marked s
      (AllPaired resolution ρ) := by
  have hitems : Sim resolution ρ globals (loopItems element v) (loopItems element (v.relabel ρ))
      marked s (AllPaired resolution ρ) :=
    .ofMirrors (loopItems_mirrors element v) (loopItems_keeps element hw) fun _ _ hl hk =>
      ⟨fun item hm => (hk item hm).mono fun _ => hl.apt, rfl⟩
  -- the variable of the loop only matters when there is nothing to loop over
  cases v with
  | list items => exact hitems
  | map cell => exact hitems
  | atom a => cases a <;> exact .throw (declared_reworded own element _)

theorem outputText_sim (v : Value) :
    Sim resolution ρ globals (observe fun s => s.outputText? v)
      (observe fun s => s.outputText? (v.relabel ρ)) marked s SameResult := by
  have hm : Mirrors ρ id (observe fun s => s.outputText? v)
      (observe fun s => s.outputText? (v.relabel ρ)) :=
    .observe fun _ s => by rw [s.outputText?_relabel, Option.map_id, id]
  exact .ofMirrorsSame hm (.observe (P := fun _ => True) fun _ _ _ _ => trivial)

theorem body_sim {names : List (String × Value)} {body body' : List Stmt}
    (ht : Tracks marked s marks scope locals.length)
    (hi : Inside marks marks' locals.length)
    (hn : ∀ pair ∈ names, pair.2.Within (Closure.Apt ctx.resolution ρ marked s))
    (hb : ∀ marked' s' inner, Tracks marked' s' marks' inner (locals.length + 1) →
      Sim ctx.resolution ρ ctx.globals (execAll ctx call body inner [])
        (execAll ctx call body' inner []) marked' s' SameResult) :
    Sim ctx.resolution ρ ctx.globals
      (innerScope scope names >>= fun inner => execAll ctx call body inner [])
      (innerScope scope
          (names.map fun pair => (ρ.key (marks' (locals.length + 1)) pair.1, pair.2.relabel ρ)) >>=
        fun inner => execAll ctx call body' inner []) marked s SameResult := by
  refine (innerScope_sim ht hi hn).bind fun marked₁ s₁ _ inner _ hp => ?_
  obtain ⟨rfl, ht₁⟩ := hp
  exact hb marked₁ s₁ inner ht₁

theorem emptyScope_body_sim {body body' : List Stmt}
    (ht : Tracks marked s marks scope locals.length)
    (hi : Inside marks marks' locals.length)
    (hb : ∀ marked' s' inner, Tracks marked' s' marks' inner (locals.length + 1) →
      Sim ctx.resolution ρ ctx.globals (execAll ctx call body inner [])
        (execAll ctx call body' inner []) marked' s' SameResult) :
    Sim ctx.resolution ρ ctx.globals
      (innerScope scope [] >>= fun inner => execAll ctx call body inner [])
      (innerScope scope [] >>= fun inner => execAll ctx call body' inner []) marked s SameResult :=
  body_sim ht hi (fun _ hp => absurd hp List.not_mem_nil) hb

theorem suited_sim (hh : Blind ctx call ρ)
    {e : Expr} (ht : Tracks marked s marks scope locals.length)
    (hb : Bounded marks locals.length) (he : e.Suits ctx.resolution ρ marks locals) :
    Sim ctx.resolution ρ ctx.globals (eval ctx call e scope) (eval ctx call (e.relabel ρ) scope)
      marked s (Paired ctx.resolution ρ) := by
  obtain ⟨around, hv⟩ := he
  exact eval_sim hh e scope around locals marks marked s ht hb hv

theorem declare_sim (hh : Blind ctx call ρ) {name : Token} {init : Option Expr}
    (ht : Tracks marked s marks scope locals.length)
    (hb : Bounded marks locals.length) (hn : name.lexeme ≠ ρ.fresh)
    (hi : ∀ e, init = some e → e.Suits ctx.resolution ρ marks (pending name.lexeme locals)) :
    Sim ctx.resolution ρ ctx.globals (exec ctx call (.declare name init) scope)
      (exec ctx call (.declare (ρ.declared (marks locals.length) name)
        (Expr.relabelOptional ρ init)) scope) marked s SameResult := by
  have hinit : Sim ctx.resolution ρ ctx.globals (evalOrNull ctx call init scope)
      (evalOrNull ctx call (Expr.relabelOptional ρ init) scope) marked s
      (Paired ctx.resolution ρ) := by
    cases init with
    | none => exact .pure ⟨Value.within_null, rfl⟩
    | some e =>
      have hlen := length_pending name.lexeme locals
      exact suited_sim hh (hlen.symm ▸ ht) (hlen.symm ▸ hb) (hi e rfl)
  refine hinit.bind fun marked₁ s₁ v _ hl₁ hp => ?_
  obtain ⟨hw, rfl⟩ := hp
  refine Sim.bind (.change ⟨.define s₁ scope name.lexeme v, fun _ _ => rfl⟩
    (fun hs => hs.define scope name.lexeme hw) ?_) fun _ _ _ _ _ _ => .pure rfl
  rw [Store.relabel_define, ρ.lexeme_declared hn, (ht.mono hl₁).marked_eq]

mutual

theorem exec_sim (hh : Blind ctx call ρ)
    (stmt : Stmt) (marks marked : Nat → Bool) (stmt' : Stmt) (scope : Nat)
    (locals : List NameScope) (s : Store)
    (ht : Tracks marked s marks scope locals.length)
    (hb : Bounded marks locals.length) (hs : stmt.Recast ctx.resolution ρ marks locals stmt') :
    Sim ctx.resolution ρ ctx.globals (exec ctx call stmt scope) (exec ctx call stmt' scope) marked s
      SameResult := by
  cases hs with
  | expr he =>
    refine (suited_sim hh ht hb he).bind fun marked₁ s₁ v _ _ hp => ?_
    obtain ⟨-, rfl⟩ := hp
    refine (outputText_sim v).bind fun _ _ text _ _ hp => ?_
    obtain rfl := hp
    exact .pure rfl
  | run he => exact (suited_sim hh ht hb he).bind fun _ _ _ _ _ _ => .pure rfl
  | verbatim item => exact .ofMirrorsSame (copy_mirrors item) (copy_keeps item)
  | declare _ hn hi => exact declare_sim hh ht hb hn hi
  | block hi hbody =>
    exact emptyScope_body_sim ht hi fun marked₁ s₁ inner ht₁ =>
      execAll_sim hh _ _ marked₁ _ inner _ s₁ [] ht₁ (hi.bounded hb) hbody
  | ifTrue he hi hbody =>
    refine (suited_sim hh ht hb he).bind fun marked₁ s₁ v _ hl₁ hp => ?_
    obtain ⟨-, rfl⟩ := hp
    refine (isTruthy_sim v).bind fun marked₂ s₂ b _ hl₂ hp => ?_
    obtain rfl := hp
    refine .ite Iff.rfl ?_ (.pure rfl)
    exact emptyScope_body_sim (ht.mono (hl₁.trans hl₂)) hi fun marked₃ s₃ inner ht₃ =>
      execAll_sim hh _ _ marked₃ _ inner _ s₃ [] ht₃ (hi.bounded hb) hbody
  | @forEach _ marks' _ element _ _ _ hn he hi hbody =>
    refine (suited_sim hh ht hb he).bind fun marked₁ s₁ v _ hl₁ hp => ?_
    obtain ⟨hw, rfl⟩ := hp
    refine (loopItems_sim (marks' (locals.length + 1)) element hw).bind
      fun marked₂ s₂ items _ hl₂ hp => ?_
    obtain ⟨hitems, rfl⟩ := hp
    have ht₂ := ht.mono (hl₁.trans hl₂)
    refine (Sim.mapM (fun marked' s' item hl' hitem => ?_) hitems).bind
      fun _ _ turns _ _ hp => ?_
    · have hpair : ∀ pair ∈ [(element.lexeme, item)],
          pair.2.Within (Closure.Apt ctx.resolution ρ marked' s') :=
        List.forall_mem_singleton.mpr hitem
      have h := body_sim (ht₂.mono hl') hi hpair fun marked₃ s₃ inner ht₃ =>
        execAll_sim hh _ _ marked₃ _ inner _ s₃ [] ht₃ (hi.bounded hb) hbody
      rw [List.map_singleton, ← ρ.lexeme_declared hn] at h
      exact h
    · obtain rfl := hp
      exact .pure rfl
  | insert he hi hbody | rewrite he hi hbody =>
    refine (suited_sim hh ht hb he).bind fun marked₁ s₁ v _ hl₁ hp => ?_
    obtain ⟨-, rfl⟩ := hp
    have h := emptyScope_body_sim (ht.mono hl₁) hi fun marked₂ s₂ inner ht₂ =>
      execAll_sim hh _ _ marked₂ _ inner _ s₂ [] ht₂ (hi.bounded hb) hbody
    cases v with
    | atom a =>
      cases a with
      | null => exact h
      | rewriter r =>
        refine h.bind fun marked₂ s₂ tokens _ _ hp => ?_
        obtain rfl := hp
        exact .ofMirrorsSame (rewriteBody_mirrors ctx _ r _) (rewriteBody_keeps ctx _ r _)
      | _ => exact .fail _ _
    | list items =>
      rw [Value.relabel_list]
      exact .fail _ _
    | map cell => exact .fail _ _

theorem execAll_sim (hh : Blind ctx call ρ)
    (body : List Stmt) (marks marked : Nat → Bool) (body' : List Stmt)
    (scope : Nat) (locals : List NameScope) (s : Store) (done : List (List OutputToken))
    (ht : Tracks marked s marks scope locals.length)
    (hb : Bounded marks locals.length)
    (hs : Stmt.RecastAll ctx.resolution ρ marks locals body body') :
    Sim ctx.resolution ρ ctx.globals (execAll ctx call body scope done)
      (execAll ctx call body' scope done) marked s SameResult := by
  cases hs with
  | nil => exact .pure rfl
  | @cons _ _ stmt stmt' ss ss' hs hss =>
    have hlen := stmt.length_localsAfter locals
    refine (exec_sim hh stmt marks marked stmt' scope locals s ht hb hs).bind
      fun marked₁ s₁ tokens _ hl₁ hp => ?_
    obtain rfl := hp
    exact execAll_sim hh ss marks marked₁ ss' scope (stmt.localsAfter locals) s₁ _
      (hlen.symm ▸ ht.mono hl₁) (hlen.symm ▸ hb) hss

end

end

end Run

/-- The same failure, up to the name of a variable in the message and in the text that it is
about. -/
inductive RenderFailure.Reworded (old fresh : String) : RenderFailure → RenderFailure → Prop
  | same (e : RenderFailure) : Reworded old fresh e e
  | undefinedName (kind : ErrorKind) (span : Span) :
      Reworded old fresh (.template ⟨kind, (RunCause.undefinedName old).message, span, old⟩)
        (.template ⟨kind, (RunCause.undefinedName fresh).message, span, fresh⟩)
  | lexeme (kind : ErrorKind) (message : String) (span : Span) :
      Reworded old fresh (.template ⟨kind, message, span, old⟩)
        (.template ⟨kind, message, span, fresh⟩)

theorem Stop.Reworded.failure {old fresh : String} {stop stop' : Stop}
    (h : stop.Reworded old fresh stop') :
    RenderFailure.Reworded old fresh stop.failure stop'.failure := by
  cases h with
  | same => exact .same _
  | undefinedName span => exact .undefinedName _ span
  | notIterable type span => exact .lexeme _ _ span

section

variable {ρ : Relabeling} {s : Store} {data : List (String × Value)}

end

namespace Program

variable {p : Program} {resolution : Resolution} {data : List (String × Value)} {store : Store}
variable {ρ : Relabeling}

end Program

end DocTemplate
