import DocTemplate.Proofs.Run.Legal
import DocTemplate.Proofs.Run.Steps

namespace DocTemplate

def Expr.assignedProperty? : Expr → Option String
  | .set _ _ token _ => some token.lexeme
  | _ => none

/-- The body of the function is made of these expressions. -/
def MadeOf (nodes : Expr → Prop) (c : Closure) : Prop := ∀ e ∈ c.body.nodes, nodes e

variable {host : Host} {nodes : Expr → Prop} {count n m : Nat} {s s' s'' : Store}

namespace Run

theorem outcome_changeFields (cell : Nat) (f : Entries Value → Except Stop (Entries Value))
    (s : Store) :
    (changeFields cell f).outcome s =
      match f (s.fields cell) with
      | .ok fields => (.ok (), s.setFields cell fields)
      | .error stop => (.error stop, s) := by
  rw [changeFields, outcome_bind, outcome_read]
  dsimp only
  cases f (s.fields cell) <;> rfl

/-- What an assignment does: it fails and changes nothing, or it writes an entry of a map or what a
host object holds. -/
theorem outcome_setProperty (host : Host) (object : Value) (name : String) (v : Value) (s : Store) :
    (∃ stop, (setProperty host object name v).outcome s = (.error stop, s)) ∨
      (∃ cell, object = .map cell ∧
        (setProperty host object name v).outcome s = (.ok (), s.setEntry cell name v)) ∨
      ∃ ref field get set fields, object = .host ref ∧
        host.field? ref.typeName name = some ⟨field, get, some set⟩ ∧
          set (s.fields ref.cell) v = .ok fields ∧
            (setProperty host object name v).outcome s = (.ok (), s.setFields ref.cell fields) := by
  unfold setProperty
  split
  · exact .inl ⟨_, rfl⟩
  · rename_i cell
    exact .inr (.inl ⟨cell, rfl, rfl⟩)
  · rename_i ref
    split
    · exact .inl ⟨_, rfl⟩
    · exact .inl ⟨_, rfl⟩
    · rename_i field get set hf
      rw [outcome_changeFields]
      cases hset : set (s.fields ref.cell) v with
      | ok fields => exact .inr (.inr ⟨ref, field, get, set, fields, rfl, hf, hset, rfl⟩)
      | error stop => exact .inl ⟨stop, rfl⟩
  · exact .inl ⟨_, rfl⟩

end Run

namespace Assignment

structure Done (host : Host) (nodes : Expr → Prop) (a : Assignment) (s s' : Store) : Prop where
  node : nodes a.node
  property : a.node.assignedProperty? = some a.name
  object : a.object.Legal (MadeOf nodes) s.maps.size
  value : a.value.Legal (MadeOf nodes) s.maps.size
  succeeds : ((Run.setProperty host a.object a.name a.value).outcome s).1.isOk = a.succeeds
  store : ((Run.setProperty host a.object a.name a.value).outcome s).2 = s'

namespace Done

variable {a : Assignment}

theorem cases (h : a.Done host nodes s s') :
    (a.succeeds = false ∧ s' = s) ∨
      a.succeeds = true ∧
        ((∃ cell, a.object = .map cell ∧ s' = s.setEntry cell a.name a.value) ∨
          ∃ ref field get set fields, a.object = .host ref ∧
            host.field? ref.typeName a.name = some ⟨field, get, some set⟩ ∧
              set (s.fields ref.cell) a.value = .ok fields ∧
                s' = s.setFields ref.cell fields) := by
  have hsucceeds := h.succeeds
  have hstore := h.store
  obtain ⟨stop, ho⟩ | ⟨cell, hcell, ho⟩ | ⟨ref, field, get, set, fields, href, hf, hset, ho⟩ :=
    Run.outcome_setProperty host a.object a.name a.value s
  · rw [ho] at hsucceeds hstore
    exact .inl ⟨hsucceeds.symm, hstore.symm⟩
  · rw [ho] at hsucceeds hstore
    exact .inr ⟨hsucceeds.symm, .inl ⟨cell, hcell, hstore.symm⟩⟩
  · rw [ho] at hsucceeds hstore
    exact .inr ⟨hsucceeds.symm,
      .inr ⟨ref, field, get, set, fields, href, hf, hset, hstore.symm⟩⟩

theorem size_eq (h : a.Done host nodes s s') : s'.maps.size = s.maps.size := by
  obtain ⟨-, rfl⟩ | ⟨-, ⟨cell, -, rfl⟩ | ⟨ref, _, _, _, fields, -, -, -, rfl⟩⟩ := h.cases
  · rfl
  · exact Array.size_modify
  · rfl

theorem maps_eq (h : a.Done host nodes s s') (c : Nat)
    (hc : a.succeeds = true → a.object ≠ .map c) : s'.maps[c]? = s.maps[c]? := by
  obtain ⟨-, rfl⟩ | ⟨hs, ⟨cell, hcell, rfl⟩ | ⟨ref, _, _, _, fields, -, -, -, rfl⟩⟩ := h.cases
  · rfl
  · rw [Store.setEntry, Array.getElem?_modify, if_neg]
    rintro rfl
    exact hc hs hcell
  · rfl

theorem hosts_eq (h : a.Done host nodes s s') (c : Nat)
    (hc : a.succeeds = true → ∀ ref : HostRef, a.object = .host ref → ref.cell ≠ c) :
    s'.hosts[c]? = s.hosts[c]? := by
  obtain ⟨-, rfl⟩ | ⟨hs, ⟨cell, -, rfl⟩ | ⟨ref, _, _, _, fields, href, -, -, rfl⟩⟩ := h.cases
  · rfl
  · rfl
  · rw [Store.setFields, Array.getElem?_modify, if_neg (hc hs ref href)]

end Done

end Assignment

namespace Step

inductive Lawful (host : Host) (nodes : Expr → Prop) : Step → Prop
  | give {v : Value} {s : Store} (hs : s.Legal (MadeOf nodes))
      (hv : v.Legal (MadeOf nodes) s.maps.size) : Lawful host nodes (.give v s)
  | set {a : Assignment} {s s' : Store} (hs : s'.Legal (MadeOf nodes))
      (ha : a.Done host nodes s s') : Lawful host nodes (.set a s s')
  | other {s s' : Store} (hs : s'.Legal (MadeOf nodes)) (h : s.Extends (MadeOf nodes) s') :
      Lawful host nodes (.other s s')

variable {step : Step}

theorem Lawful.legal (h : step.Lawful host nodes) : step.after.Legal (MadeOf nodes) := by
  cases h with
  | give hs _ => exact hs
  | set hs _ => exact hs
  | other hs _ => exact hs

theorem Lawful.size_le (h : step.Lawful host nodes) :
    step.before.maps.size ≤ step.after.maps.size := by
  cases h with
  | give _ _ => exact Nat.le_refl _
  | set _ ha => exact Nat.le_of_eq ha.size_eq.symm
  | other _ h => exact h.size_le

end Step

theorem Linked.append {steps more : List Step} (h : Linked s steps s') (h' : Linked s' more s'') :
    Linked s (steps ++ more) s'' := by
  induction steps generalizing s with
  | nil =>
    obtain rfl : s = s' := h
    exact h'
  | cons step steps ih => exact ⟨h.1, ih h.2⟩

structure Course (host : Host) (nodes : Expr → Prop) (s : Store) (steps : List Step)
    (s' : Store) : Prop where
  linked : Linked s steps s'
  lawful : ∀ step ∈ steps, step.Lawful host nodes

namespace Course

variable {steps more : List Step} {step : Step}

theorem nil (s : Store) : Course host nodes s [] s := ⟨rfl, nofun⟩

theorem cons (step : Step) (h : step.Lawful host nodes)
    (hrest : Course host nodes step.after steps s') :
    Course host nodes step.before (step :: steps) s' :=
  ⟨⟨rfl, hrest.linked⟩, List.forall_mem_cons.mpr ⟨h, hrest.lawful⟩⟩

theorem other (hs : s'.Legal (MadeOf nodes)) (h : s.Extends (MadeOf nodes) s')
    (hrest : Course host nodes s' steps s'') :
    Course host nodes s (.other s s' :: steps) s'' :=
  .cons (.other s s') (.other hs h) hrest

theorem append (h : Course host nodes s steps s') (h' : Course host nodes s' more s'') :
    Course host nodes s (steps ++ more) s'' :=
  ⟨h.linked.append h'.linked, List.forall_mem_append.mpr ⟨h.lawful, h'.lawful⟩⟩

theorem size_le (h : Course host nodes s steps s') : s.maps.size ≤ s'.maps.size := by
  obtain ⟨hlinked, hlawful⟩ := h
  induction steps generalizing s with
  | nil =>
    obtain rfl : s = s' := hlinked
    exact Nat.le_refl _
  | cons step steps ih =>
    obtain ⟨rfl, hlinked⟩ := hlinked
    obtain ⟨hstep, hlawful⟩ := List.forall_mem_cons.mp hlawful
    exact Nat.le_trans hstep.size_le (ih hlinked hlawful)

end Course

namespace Run

variable {α β γ : Type}

/-- In a legal store with at least `n` maps, the computation takes these steps, keeps the store
legal and gives what satisfies `Q` for the count of maps in the end. -/
def Advances (host : Host) (nodes : Expr → Prop) (n : Nat) (x : Run α) (steps : Store → List Step)
    (Q : Nat → α → Prop) : Prop :=
  ∀ s : Store, n ≤ s.maps.size → s.Legal (MadeOf nodes) →
    Course host nodes s (steps s) (x.outcome s).2 ∧ (x.outcome s).2.Legal (MadeOf nodes) ∧
      ∀ a, (x.outcome s).1 = .ok a → Q (x.outcome s).2.maps.size a

namespace Advances

variable {P Q : Nat → α → Prop} {R : Nat → β → Prop} {x : Run α} {first : Store → List Step}

theorem pure {a : α} (h : ∀ m, n ≤ m → Q m a) :
    Advances host nodes n (Pure.pure a) (fun _ => []) Q := by
  intro s hn hs
  refine ⟨.nil s, hs, fun b hb => ?_⟩
  obtain rfl := Except.ok.inj hb
  exact h _ hn

theorem throw (stop : Stop) :
    Advances host nodes n (throwThe Stop stop : Run α) (fun _ => []) Q :=
  fun s _ hs => ⟨.nil s, hs, nofun⟩

theorem raise (cause : RunCause) :
    Advances host nodes n (Run.raise cause : Run α) (fun _ => []) Q := .throw _

theorem fail (token : Token) (cause : RunCause) :
    Advances host nodes n (Run.fail token cause : Run α) (fun _ => []) Q := .throw _

theorem give {v : Value} (h : v.Legal (MadeOf nodes) n) :
    Advances host nodes n (Pure.pure v) (fun _ => []) (Value.Legal (MadeOf nodes)) :=
  .pure fun _ hm => h.mono hm

theorem after {f : α → Run β} {next : α → Store → List Step} (hx : Advances host nodes n x first P)
    (hf : ∀ m, n ≤ m → ∀ a, P m a → Advances host nodes m (f a) (next a) R) :
    Advances host nodes n (x >>= f) (Run.after x first next) R := by
  intro s hn hs
  obtain ⟨hcourse, hleg, hres⟩ := hx s hn hs
  rw [outcome_bind, Run.after]
  cases hr : x.outcome s with
  | mk r s' =>
    rw [hr] at hcourse hleg hres
    cases r with
    | error stop =>
      rw [List.append_nil]
      exact ⟨hcourse, hleg, nofun⟩
    | ok a =>
      have hle := Nat.le_trans hn hcourse.size_le
      obtain ⟨hcourse', hleg', hres'⟩ := hf _ hle a (hres a rfl) s' (Nat.le_refl _) hleg
      exact ⟨hcourse.append hcourse', hleg', hres'⟩

theorem still {f : α → Run β} (hx : Advances host nodes n x first P)
    (hf : ∀ m, n ≤ m → ∀ a, P m a → Advances host nodes m (f a) (fun _ => []) R) :
    Advances host nodes n (x >>= f) first R := by
  have h := hx.after hf
  have hsteps : Run.after x first (fun _ _ => []) = first := by
    funext s
    rw [Run.after]
    split <;> exact List.append_nil _
  rw [hsteps] at h
  exact h

theorem giving {x : Run Value} {f : Value → Run β} {next : Value → Store → List Step}
    (hx : Advances host nodes n x first (Value.Legal (MadeOf nodes)))
    (hf : ∀ m, n ≤ m → ∀ v, v.Legal (MadeOf nodes) m → Advances host nodes m (f v) (next v) R) :
    Advances host nodes n (x >>= f) (Run.giving x first next) R := by
  refine hx.after fun m hm v hv s hn hs => ?_
  obtain ⟨hcourse, hrest⟩ := hf m hm v hv s hn hs
  exact ⟨.cons (.give v s) (.give hs (hv.mono hn)) hcourse, hrest⟩

theorem giveLast {x : Run Value} (hx : Advances host nodes n x first (Value.Legal (MadeOf nodes))) :
    Advances host nodes n x (Run.giving x first fun _ _ => []) (Value.Legal (MadeOf nodes)) := by
  have h := hx.giving fun m _ v hv => .give hv
  rw [bind_pure] at h
  exact h

theorem single (h : Extending (MadeOf nodes) n x Q) :
    Advances host nodes n x (Run.single x) Q := by
  intro s hn hs
  obtain ⟨hext, hleg, hres⟩ := h s hn hs
  exact ⟨.other hleg hext (.nil _), hleg, hres⟩

theorem boundTo (token : Token) (hx : Advances host nodes n x first Q) :
    Advances host nodes n (Run.boundTo token x) first Q := by
  intro s hn hs
  have h := hx s hn hs
  rw [outcome_boundTo]
  split
  · rename_i cause s' hr
    rw [hr] at h
    exact ⟨h.1, h.2.1, nofun⟩
  · exact h

theorem ite {p : Prop} [Decidable p] {x y : Run α} {first second : Store → List Step}
    (hx : Advances host nodes n x first Q) (hy : Advances host nodes n y second Q) :
    Advances host nodes n (if p then x else y) (if p then first else second) Q := by
  split
  · exact hx
  · exact hy

end Advances

def CallsAdvance (host : Host) (nodes : Expr → Prop) (count : Nat) (call : Invoke)
    (callSteps : CallSteps) : Prop :=
  ∀ n, count ≤ n → ∀ f args, f.Legal (MadeOf nodes) n → (∀ v ∈ args, v.Legal (MadeOf nodes) n) →
    Advances host nodes n (call f args) (callSteps f args) (Value.Legal (MadeOf nodes))

section

variable {ctx : Context} {call : Invoke} {callSteps : CallSteps}
variable {programs : Nat → List Value → NativeProgram}

theorem nativeSteps_advance (hc : CallsAdvance host nodes count call callSteps) (p : NativeProgram)
    (hn : count ≤ n) (hp : p.Tame (MadeOf nodes) n) :
    Advances host nodes n (p.run call) (nativeSteps call callSteps p)
      (Value.Legal (MadeOf nodes)) := by
  induction p generalizing n with
  | done result =>
    cases result with
    | ok v => exact .give hp
    | error stop => exact .throw stop
  | change f next ih =>
    intro s hle hs
    obtain ⟨hext, hleg, htame⟩ := hp s hle hs
    have hle' := Nat.le_trans (Nat.le_trans hn hle) hext.size_le
    obtain ⟨hcourse, hrest⟩ := ih s hle' htame (f s) (Nat.le_refl _) hleg
    exact ⟨.other hleg hext hcourse, hrest⟩
  | call f args next ih =>
    intro s hle hs
    obtain ⟨hf, ha, htame⟩ := hp
    obtain ⟨hcourse, hleg, hres⟩ := hc n hn f args hf ha s hle hs
    have hle' := Nat.le_trans hle hcourse.size_le
    obtain ⟨hcourse', hrest⟩ := ih _ (Nat.le_trans hn hle') (htame _ hle' _ hres) _
      (Nat.le_refl _) hleg
    exact ⟨hcourse.append hcourse', hrest⟩

theorem pipedSteps_advance (hc : CallsAdvance host nodes count call callSteps) (hn : count ≤ n)
    (pipe : Token) {f : Value} {args : List Value} (hf : f.Legal (MadeOf nodes) n)
    (ha : ∀ v ∈ args, v.Legal (MadeOf nodes) n) :
    Advances host nodes n (callPiped call pipe f args) (pipedSteps callSteps f args)
      (Value.Legal (MadeOf nodes)) :=
  .ite (.boundTo pipe (hc n hn f args hf ha)) (.fail _ _)

theorem barePipedSteps_advance (hc : CallsAdvance host nodes count call callSteps) (hn : count ≤ n)
    (pipe : Token) {f arg : Value} (hf : f.Legal (MadeOf nodes) n)
    (ha : arg.Legal (MadeOf nodes) n) :
    Advances host nodes n (callBarePiped call pipe f arg) (barePipedSteps callSteps f arg)
      (Value.Legal (MadeOf nodes)) := by
  unfold callBarePiped barePipedSteps
  match leastArgs? f with
  | some 0 => exact .fail _ _
  | some (_ + 1) => exact pipedSteps_advance hc hn pipe hf (List.forall_mem_singleton.mpr ha)
  | none => exact .fail _ _

theorem setting_advances (hh : host.Tame programs (MadeOf nodes) count) (hn : count ≤ n)
    {node : Expr} (hnode : nodes node) {object v : Value} {name : String}
    (hname : node.assignedProperty? = some name) (ho : object.Legal (MadeOf nodes) n)
    (hv : v.Legal (MadeOf nodes) n) :
    Advances host nodes n (setProperty host object name v) (setting host node object name v)
      fun _ _ => True := by
  intro s hle hs
  have hdone : Assignment.Done host nodes
      ⟨node, object, name, v, ((setProperty host object name v).outcome s).1.isOk⟩ s
        ((setProperty host object name v).outcome s).2 :=
    ⟨hnode, hname, ho.mono hle, hv.mono hle, rfl, rfl⟩
  have hleg : ((setProperty host object name v).outcome s).2.Legal (MadeOf nodes) := by
    obtain ⟨-, hs'⟩ | ⟨-, ⟨cell, -, hs'⟩ | ⟨ref, _, _, _, fields, -, hf, hset, hs'⟩⟩ :=
      hdone.cases
    · rw [hs']
      exact hs
    · rw [hs']
      exact hs.setEntry cell name (hv.mono hle)
    · have hfields := (hh.fields _ (Nat.le_trans hn hle)).set hf hset
        (Store.All.fields hs ref.cell) (hv.mono hle)
      rw [hs']
      exact hs.setFields ref.cell hfields
  exact ⟨.cons (.set _ s _) (.set hleg hdone) (.nil _), hleg, fun _ _ => trivial⟩

mutual

theorem eval_advances (hh : ctx.host.Tame programs (MadeOf nodes) count)
    (hc : CallsAdvance ctx.host nodes count call callSteps)
    (e : Expr) (he : ∀ part ∈ e.nodes, nodes part) (scope : Nat)
    {n : Nat} (hn : count ≤ n) :
    Advances ctx.host nodes n (eval ctx call e scope) (steps ctx call callSteps e scope)
      (Value.Legal (MadeOf nodes)) := by
  match e with
  | .constant _ value =>
    exact .give (Value.cellFree_ofConstant value).legal
  | .name site token => exact .single (lookup_extending ctx site.id token scope)
  | .assign site token value =>
    simp only [Expr.nodes, List.forall_mem_cons] at he
    exact (eval_advances hh hc value he.2 scope hn).giving fun m hm v hv =>
      (Advances.single (assign_extending ctx site.id token scope hv)).still fun k hk _ _ =>
        .give (hv.mono hk)
  | .unary _ .neg token operand =>
    simp only [Expr.nodes, List.forall_mem_cons] at he
    exact (eval_advances hh hc operand he.2 scope hn).giving fun m _ v _ =>
      .single (.boundTo token (negate_extending v))
  | .unary _ .not _ operand =>
    simp only [Expr.nodes, List.forall_mem_cons] at he
    exact (eval_advances hh hc operand he.2 scope hn).giving fun m _ v _ =>
      (Advances.single (isTruthy_extending v)).still fun k _ b _ => .give (.atom nofun)
  | .binary _ .pipe token left right =>
    simp only [Expr.nodes, List.forall_mem_cons, List.forall_mem_append] at he
    have hr := fun {m : Nat} (hm : count ≤ m) => eval_advances hh hc right he.2 scope hm
    rw [eval, steps]
    -- a pipe into a call evaluates the parts of the call, and not the call
    refine (eval_advances hh hc left he.1.2 scope hn).giving fun m hm v hv => ?_
    cases right with
    | call site callee paren args =>
      simp only [Expr.nodes, List.forall_mem_cons, List.forall_mem_append] at he
      have hn₁ := Nat.le_trans hn hm
      refine (eval_advances hh hc callee he.2.1.2 scope hn₁).giving fun k hk f hf => ?_
      have hn₂ := Nat.le_trans hn₁ hk
      refine (evalAll_advances hh hc args he.2.2 scope hn₂).after fun l hl vs hvs => ?_
      exact pipedSteps_advance hc (Nat.le_trans hn₂ hl) token (hf.mono hl)
        (List.forall_mem_cons.mpr ⟨(hv.mono hk).mono hl, hvs⟩)
    | _ =>
      exact (hr (Nat.le_trans hn hm)).giving fun k hk f hf =>
        barePipedSteps_advance hc (Nat.le_trans hn (Nat.le_trans hm hk)) token hf (hv.mono hk)
  | .binary _ .coalesce _ left right =>
    simp only [Expr.nodes, List.forall_mem_cons, List.forall_mem_append] at he
    exact (eval_advances hh hc left he.1.2 scope hn).giving fun m hm v hv =>
      .ite (eval_advances hh hc right he.2 scope (Nat.le_trans hn hm)) (.give hv)
  | .binary _ .or _ left right =>
    simp only [Expr.nodes, List.forall_mem_cons, List.forall_mem_append] at he
    refine (eval_advances hh hc left he.1.2 scope hn).giving fun m hm v hv => ?_
    refine (Advances.single (isTruthy_extending v)).after fun k hk b _ => ?_
    have hn' := Nat.le_trans hn (Nat.le_trans hm hk)
    exact .ite (.give (hv.mono hk)) (eval_advances hh hc right he.2 scope hn')
  | .binary _ .and _ left right =>
    simp only [Expr.nodes, List.forall_mem_cons, List.forall_mem_append] at he
    refine (eval_advances hh hc left he.1.2 scope hn).giving fun m hm v hv => ?_
    refine (Advances.single (isTruthy_extending v)).after fun k hk b _ => ?_
    have hn' := Nat.le_trans hn (Nat.le_trans hm hk)
    exact .ite (eval_advances hh hc right he.2 scope hn') (.give (hv.mono hk))
  | .binary _ (.binary op) token left right =>
    simp only [Expr.nodes, List.forall_mem_cons, List.forall_mem_append] at he
    exact (eval_advances hh hc left he.1.2 scope hn).giving fun m hm l _ =>
      (eval_advances hh hc right he.2 scope (Nat.le_trans hn hm)).giving fun k _ r _ =>
        .single (.boundTo token (binary_extending op l r))
  | .group _ inner =>
    simp only [Expr.nodes, List.forall_mem_cons] at he
    exact eval_advances hh hc inner he.2 scope hn
  | .call _ callee paren args =>
    simp only [Expr.nodes, List.forall_mem_cons, List.forall_mem_append] at he
    refine (eval_advances hh hc callee he.1.2 scope hn).giving fun m hm f hf => ?_
    refine (evalAll_advances hh hc args he.2 scope (Nat.le_trans hn hm)).after fun k hk vs hvs => ?_
    exact .boundTo paren (hc k (Nat.le_trans hn (Nat.le_trans hm hk)) f vs (hf.mono hk) hvs)
  | .get _ object name optional =>
    simp only [Expr.nodes, List.forall_mem_cons] at he
    refine (eval_advances hh hc object he.2 scope hn).giving fun m hm v hv =>
      .ite (.give (.atom nofun)) ?_
    have hfields := fun k (hk : m ≤ k) => hh.fields k (Nat.le_trans hn (Nat.le_trans hm hk))
    exact .single (.boundTo name (getProperty_extending hfields name.lexeme hv))
  | .set site object name value =>
    have hnode := he _ (by rw [Expr.nodes]; exact List.mem_cons_self)
    simp only [Expr.nodes, List.forall_mem_cons, List.forall_mem_append] at he
    refine (eval_advances hh hc object he.1.2 scope hn).giving fun m hm target ht => ?_
    have hn₁ := Nat.le_trans hn hm
    refine (eval_advances hh hc value he.2 scope hn₁).giving fun k hk v hv => ?_
    -- all other expressions only add to the store
    have hset := setting_advances hh (Nat.le_trans hn₁ hk) hnode rfl (ht.mono hk) hv
    exact (Advances.boundTo name hset).still fun l hl _ _ => .give (hv.mono hl)
  | .choose _ branches otherwise =>
    simp only [Expr.nodes, List.forall_mem_cons, List.forall_mem_append] at he
    refine (evalBranches_advances hh hc branches he.1.2 scope hn).after fun m hm found hfound => ?_
    cases found with
    | some v => exact .give (hfound v rfl)
    | none => exact evalOrNull_advances hh hc otherwise he.2 scope (Nat.le_trans hn hm)
  | .lambda _ params body =>
    simp only [Expr.nodes, List.forall_mem_cons] at he
    refine .give (.atom fun c hc => ?_)
    obtain rfl := Atom.function.inj hc
    exact he.2
  | .list _ items =>
    simp only [Expr.nodes, List.forall_mem_cons] at he
    exact (evalAll_advances hh hc items he.2 scope hn).still fun m _ vs hvs => .give (.list hvs)

theorem evalAll_advances (hh : ctx.host.Tame programs (MadeOf nodes) count)
    (hc : CallsAdvance ctx.host nodes count call callSteps)
    (es : List Expr) (he : ∀ part ∈ Expr.nodesOfItems es, nodes part)
    (scope : Nat) {n : Nat} (hn : count ≤ n) :
    Advances ctx.host nodes n (evalAll ctx call es scope) (stepsOfAll ctx call callSteps es scope)
      fun m vs => ∀ v ∈ vs, v.Legal (MadeOf nodes) m := by
  match es with
  | [] => exact .pure fun _ _ => nofun
  | e :: es =>
    simp only [Expr.nodesOfItems, List.forall_mem_append] at he
    refine (eval_advances hh hc e he.1 scope hn).giving fun m hm v hv => ?_
    refine (evalAll_advances hh hc es he.2 scope (Nat.le_trans hn hm)).still fun k hk vs hvs => ?_
    exact .pure fun l hl => List.forall_mem_cons.mpr
      ⟨(hv.mono hk).mono hl, fun w hw => (hvs w hw).mono hl⟩

theorem evalBranches_advances (hh : ctx.host.Tame programs (MadeOf nodes) count)
    (hc : CallsAdvance ctx.host nodes count call callSteps)
    (branches : List (Expr × Expr))
    (he : ∀ part ∈ Expr.nodesOfBranches branches, nodes part) (scope : Nat)
    {n : Nat} (hn : count ≤ n) :
    Advances ctx.host nodes n (evalBranches ctx call branches scope)
      (stepsOfBranches ctx call callSteps branches scope)
      fun m found => ∀ v, found = some v → v.Legal (MadeOf nodes) m := by
  match branches with
  | [] => exact .pure fun _ _ => nofun
  | (condition, result) :: branches =>
    simp only [Expr.nodesOfBranches, List.forall_mem_append] at he
    refine (eval_advances hh hc condition he.1.1 scope hn).giving fun m hm v hv => ?_
    refine (Advances.single (isTruthy_extending v)).after fun k hk b _ => ?_
    have hn' := Nat.le_trans hn (Nat.le_trans hm hk)
    refine .ite ((eval_advances hh hc result he.1.2 scope hn').still fun l _ w hw => ?_)
      (evalBranches_advances hh hc branches he.2 scope hn')
    refine .pure fun j hj u hu => ?_
    obtain rfl := Option.some.inj hu
    exact hw.mono hj

theorem evalOrNull_advances (hh : ctx.host.Tame programs (MadeOf nodes) count)
    (hc : CallsAdvance ctx.host nodes count call callSteps)
    (e : Option Expr) (he : ∀ part ∈ Expr.nodesOfOptional e, nodes part)
    (scope : Nat) {n : Nat} (hn : count ≤ n) :
    Advances ctx.host nodes n (evalOrNull ctx call e scope)
      (stepsOfOptional ctx call callSteps e scope) (Value.Legal (MadeOf nodes)) := by
  match e with
  | none => exact .give (.atom nofun)
  | some e => exact eval_advances hh hc e he scope hn

end

end

section

variable {ctx : Context} {programs : Nat → List Value → NativeProgram}

theorem applySteps_advance (hh : ctx.host.Tame programs (MadeOf nodes) count) (depth : Nat) :
    CallsAdvance ctx.host nodes count (apply ctx depth) (applySteps ctx programs depth) := by
  induction depth with
  | zero => exact fun n _ f args _ _ => .throw _
  | succ depth ih =>
    intro n hn f args hf ha
    cases hf with
    | list _ => exact .raise _
    | map _ => exact .raise _
    | @atom a hf =>
      cases a with
      | function closure =>
        rw [apply, applySteps]
        refine .ite ?_ (.raise _)
        have hnames : ∀ pair ∈ closure.params.zip args, pair.2.Legal (MadeOf nodes) n :=
          fun pair hp => ha pair.2 (List.of_mem_zip hp).2
        have henter := innerScope_extending closure.scope hnames
        exact (Advances.single henter).after fun m hm scope _ =>
          (eval_advances hh ih closure.body (hf closure rfl) scope (Nat.le_trans hn hm)).giveLast
      | native f =>
        simp only [apply, applySteps]
        refine .ite ?_ (.raise _)
        cases f with
        | builtin b =>
          dsimp only
          rw [← Builtin.run_program]
          exact nativeSteps_advance ih _ hn (Builtin.program_tame ctx.settings b ha)
        | host f =>
          dsimp only
          rw [hh.functions]
          exact nativeSteps_advance ih _ hn (hh.tame n hn f.number args ha)
      | _ => exact .raise _

end

theorem runTurns_advances {turn : Value → Run (List OutputToken)}
    {stepsOfTurn : Value → Store → List Step} {items : List Value} (hn : count ≤ n)
    (hi : ∀ item ∈ items, item.Legal (MadeOf nodes) n)
    (h : ∀ item m, count ≤ m → item.Legal (MadeOf nodes) m →
      Advances host nodes m (turn item) (stepsOfTurn item) fun _ _ => True)
    (order : List Nat) (buffers : List (List OutputToken)) :
    Advances host nodes n (runTurns turn items order buffers)
      (turnSteps turn stepsOfTurn items order) fun _ _ => True := by
  induction order generalizing n buffers with
  | nil => exact .pure fun _ _ => trivial
  | cons i order ih =>
    rw [runTurns, turnSteps]
    cases hitem : items[i]? with
    | none => exact ih hn hi buffers
    | some item =>
      refine (h item n hn (hi item (List.mem_of_getElem? hitem))).after fun m hm tokens _ => ?_
      exact ih (Nat.le_trans hn hm) (fun w hw => (hi w hw).mono hm) (buffers.set i tokens)

section

variable {ctx : Context} {call : Invoke} {callSteps : CallSteps}
variable {programs : Nat → List Value → NativeProgram} {schedule : Schedule}
theorem inScope_advances {names : List (String × Value)} (outer : Nat)
    (hnames : ∀ pair ∈ names, pair.2.Legal (MadeOf nodes) n) {f : Nat → Run β}
    {next : Nat → Store → List Step}
    (hf : ∀ m, n ≤ m → ∀ inner, Advances ctx.host nodes m (f inner) (next inner) fun _ _ => True) :
    Advances ctx.host nodes n (innerScope outer names >>= f)
      (after (innerScope outer names) (single (innerScope outer names)) next) fun _ _ => True :=
  (Advances.single (innerScope_extending outer hnames)).after fun m hm inner _ => hf m hm inner

mutual

theorem execIn_advances (hh : ctx.host.Tame programs (MadeOf nodes) count)
    (hc : CallsAdvance ctx.host nodes count call callSteps)
    (stmt : Stmt) (he : ∀ part ∈ stmt.nodes, nodes part) (scope : Nat)
    {n : Nat} (hn : count ≤ n) :
    Advances ctx.host nodes n (execIn schedule ctx call stmt scope)
      (execSteps schedule ctx call callSteps stmt scope) fun _ _ => True := by
  match stmt with
  | .expr e =>
    refine (eval_advances hh hc e he scope hn).giving fun m _ v _ => ?_
    refine (Advances.single (.observe (Q := fun _ _ => True) fun _ _ _ => trivial)).still
      fun k _ text _ => ?_
    exact .pure fun _ _ => trivial
  | .declare name init =>
    exact (evalOrNull_advances hh hc init he scope hn).giving fun m _ v hv =>
      (Advances.single (define_extending scope name.lexeme hv)).still fun k _ _ _ =>
        .pure fun _ _ => trivial
  | .block body =>
    exact inScope_advances scope (List.forall_mem_nil _) fun m hm inner =>
      execAllIn_advances hh hc body he inner [] (Nat.le_trans hn hm)
  | .ifTrue condition body =>
    simp only [Stmt.nodes, List.forall_mem_append] at he
    refine (eval_advances hh hc condition he.1 scope hn).giving fun m hm v _ => ?_
    refine (Advances.single (isTruthy_extending v)).after fun k hk b _ => ?_
    have hn' := Nat.le_trans hn (Nat.le_trans hm hk)
    refine .ite ?_ (.pure fun _ _ => trivial)
    exact inScope_advances scope (List.forall_mem_nil _) fun l hl inner =>
      execAllIn_advances hh hc body he.2 inner [] (Nat.le_trans hn' hl)
  | .forEach element items body =>
    simp only [Stmt.nodes, List.forall_mem_append] at he
    rw [execIn, execSteps]
    refine (eval_advances hh hc items he.1 scope hn).giving fun m hm v hv => ?_
    refine (Advances.single (loopItems_extending element hv)).after fun k hk items hi => ?_
    have hn' := Nat.le_trans hn (Nat.le_trans hm hk)
    intro s hle hs
    rw [outcome_bind, outcome_read]
    refine Advances.still (R := fun _ _ => True)
      (runTurns_advances hn' hi (fun item l hl hitem => ?_) _ _)
      (fun _ _ _ _ => .pure fun _ _ => trivial) s hle hs
    exact inScope_advances scope (List.forall_mem_singleton.mpr hitem) fun j hj inner =>
      execAllIn_advances hh hc body he.2 inner [] (Nat.le_trans hl hj)
  | .run e =>
    exact (eval_advances hh hc e he scope hn).giving fun m _ _ _ => .pure fun _ _ => trivial
  | .verbatim item =>
    cases item with
    | raw token => exact .pure fun _ _ => trivial
    | sentinel => exact .pure fun _ _ => trivial
    | group id => exact .throw _
  | .insert keyword target body | .rewrite keyword target body =>
    simp only [Stmt.nodes, List.forall_mem_append] at he
    rw [execIn, execSteps]
    refine (eval_advances hh hc target he.1 scope hn).giving fun m hm v _ => ?_
    have hbody := fun (k : Nat) (hk : m ≤ k) (inner : Nat) =>
      execAllIn_advances hh hc body he.2 inner [] (Nat.le_trans hn (Nat.le_trans hm hk))
    cases v with
    | list _ => exact .fail _ _
    | map _ => exact .fail _ _
    | atom a =>
      cases a with
      | null => exact inScope_advances scope (List.forall_mem_nil _) hbody
      | rewriter r =>
        refine inScope_advances scope (List.forall_mem_nil _) fun k hk inner =>
          (hbody k hk inner).still fun l _ tokens _ => ?_
        unfold rewriteBody
        split
        · exact .pure fun _ _ => trivial
        · exact .fail _ _
      | _ => exact .fail _ _

theorem execAllIn_advances (hh : ctx.host.Tame programs (MadeOf nodes) count)
    (hc : CallsAdvance ctx.host nodes count call callSteps)
    (body : List Stmt) (he : ∀ part ∈ Stmt.nodesOfBody body, nodes part)
    (scope : Nat) (done : List (List OutputToken)) {n : Nat} (hn : count ≤ n) :
    Advances ctx.host nodes n (execAllIn schedule ctx call body scope done)
      (execAllSteps schedule ctx call callSteps body scope) fun _ _ => True := by
  match body with
  | [] => exact .pure fun _ _ => trivial
  | stmt :: body =>
    simp only [Stmt.nodesOfBody, List.forall_mem_append] at he
    exact (execIn_advances hh hc stmt he.1 scope hn).after fun m hm tokens _ =>
      execAllIn_advances hh hc body he.2 scope (tokens :: done) (Nat.le_trans hn hm)

end

end

end Run

namespace Program

variable {p : Program} {around : Surroundings} {programs : Nat → List Value → NativeProgram}
variable {data : List (String × Value)} {store : Store}

theorem builtinNames_legal {known : Closure → Prop} :
    ∀ pair ∈ builtinNames, pair.2.Legal known n := by
  intro pair hp
  obtain ⟨b, -, rfl⟩ := List.mem_map.mp hp
  exact .atom nofun

theorem startStore_adds {known : Closure → Prop} (hs : store.Legal known)
    (hd : ∀ pair ∈ data, pair.2.Legal known store.maps.size) :
    store.Extends known (startStore data store) ∧ (startStore data store).Legal known := by
  have hnew : store.Extends known (store.newScope none).2 := .of_cells_eq rfl rfl
  refine ⟨hnew.trans (.defineAll _ _ _), (hs.newScope none).defineAll _ fun pair hp => ?_⟩
  cases List.mem_append.mp hp with
  | inl hb => exact builtinNames_legal pair hb
  | inr hp => exact hd pair hp

theorem stepsIn_course (hp : ∀ e ∈ p.nodes, nodes e)
    (hh : around.host.Tame programs (MadeOf nodes) store.maps.size)
    (hs : store.Legal (MadeOf nodes))
    (hd : ∀ pair ∈ data, pair.2.Legal (MadeOf nodes) store.maps.size) (schedule : Schedule) :
    Course around.host nodes store (p.stepsIn schedule around programs data store)
      (p.renderIn schedule around data store).2 := by
  rw [stepsIn, renderIn, ← globalNames]
  cases resolveNames p (globalNames data) with
  | error e => exact .nil store
  | ok resolution =>
    dsimp only
    rw [runIn_eq]
    let ctx := context around resolution store
    obtain ⟨hext, hleg⟩ := startStore_adds hs hd
    have hc : Run.CallsAdvance ctx.host nodes store.maps.size (Run.apply ctx around.depth)
        (Run.applySteps ctx programs around.depth) := Run.applySteps_advance hh around.depth
    have hbody : Run.Advances ctx.host nodes store.maps.size
        (Run.execAllIn schedule ctx (Run.apply ctx around.depth) p.body ctx.globals [])
        (Run.execAllSteps schedule ctx (Run.apply ctx around.depth)
          (Run.applySteps ctx programs around.depth) p.body ctx.globals) fun _ _ => True :=
      Run.execAllIn_advances hh hc p.body hp ctx.globals [] (Nat.le_refl _)
    obtain ⟨hcourse, hlegal, -⟩ := hbody (startStore data store) hext.size_le hleg
    refine (Course.other hleg hext hcourse).append ?_
    exact .other (hlegal.release ctx.globals) (.of_cells_eq rfl rfl) (.nil _)

end Program

end DocTemplate
