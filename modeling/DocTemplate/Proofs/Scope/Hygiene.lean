import DocTemplate.Proofs.Run.Opaque
import DocTemplate.Proofs.Scope.Agreement
import DocTemplate.Proofs.Scope.Renamed

namespace DocTemplate

/-- The scope of a run at a place with `depth` local scopes around it. Each of them is one of the
variable (`marked`) just when the marks of the place say so. -/
inductive Tracks (marked : Nat → Bool) (s : Store) (marks : Nat → Bool) : Nat → Nat → Prop
  | global {scope : Nat} (hlt : scope < s.scopes.size) (hm : marked scope = marks 0) :
      Tracks marked s marks scope 0
  | inner {scope outer depth : Nat} (hp : s.parent? scope = some outer)
      (hlt : scope < s.scopes.size) (hm : marked scope = marks (depth + 1))
      (ho : Tracks marked s marks outer depth) :
      Tracks marked s marks scope (depth + 1)

/-- The store at two times of a run, with the scopes of the variable at these times. -/
structure Onward (marked : Nat → Bool) (s : Store) (marked' : Nat → Bool) (s' : Store) : Prop where
  grows : s.Grows s'
  marks : ∀ i < s.scopes.size, marked' i = marked i

namespace Onward

variable {marked marked' marked'' : Nat → Bool} {s s' s'' : Store}

theorem refl (marked : Nat → Bool) (s : Store) : Onward marked s marked s :=
  ⟨.refl s, fun _ _ => rfl⟩

theorem trans (h : Onward marked s marked' s') (h' : Onward marked' s' marked'' s'') :
    Onward marked s marked'' s'' :=
  ⟨h.grows.trans h'.grows, fun i hi =>
    (h'.marks i (Nat.lt_of_lt_of_le hi h.grows.size)).trans (h.marks i hi)⟩

theorem of_scopes_eq (marked : Nat → Bool) (h : s'.scopes = s.scopes) :
    Onward marked s marked s' :=
  ⟨.of_scopes_eq h, fun _ _ => rfl⟩

end Onward

namespace Tracks

variable {scope depth : Nat} {marked marked' marks marks' : Nat → Bool} {s s' : Store}

theorem lt (h : Tracks marked s marks scope depth) : scope < s.scopes.size := by
  cases h <;> assumption

theorem marked_eq (h : Tracks marked s marks scope depth) :
    marked scope = marks depth := by
  cases h <;> assumption

theorem mono (h : Tracks marked s marks scope depth) (hl : Onward marked s marked' s') :
    Tracks marked' s' marks scope depth := by
  induction h with
  | global hlt hm =>
    exact .global (Nat.lt_of_lt_of_le hlt hl.grows.size) ((hl.marks _ hlt).trans hm)
  | inner hp hlt hm _ ih =>
    exact .inner ((hl.grows.parent _ hlt).trans hp) (Nat.lt_of_lt_of_le hlt hl.grows.size)
      ((hl.marks _ hlt).trans hm) ih

theorem release (h : Tracks marked s marks scope depth) (first : Nat) :
    Tracks marked (s.release first) marks scope depth := by
  induction h with
  | global hlt hm => exact .global (s.size_release first ▸ hlt) hm
  | inner hp hlt hm _ ih =>
    exact .inner ((s.parent?_release first _).trans hp) (s.size_release first ▸ hlt) hm ih

theorem congr (h : Tracks marked s marks scope depth)
    (hm : ∀ j ≤ depth, marks' j = marks j) : Tracks marked s marks' scope depth := by
  induction h with
  | global hlt hg => exact .global hlt (hg.trans (hm 0 (Nat.le_refl _)).symm)
  | inner hp hlt hg _ ih =>
    exact .inner hp hlt (hg.trans (hm _ (Nat.le_refl _)).symm)
      (ih fun j hj => hm j (Nat.le_succ_of_le hj))

theorem ancestor (h : Tracks marked s marks scope depth) {d : Nat} (hd : d ≤ depth) :
    ∃ outer, s.ancestor? scope d = some outer ∧ marked outer = marks (depth - d) := by
  induction h generalizing d with
  | global _ hm =>
    obtain rfl := Nat.le_zero.mp hd
    exact ⟨_, rfl, hm⟩
  | @inner scope outer depth hp _ hm _ ih =>
    cases d with
    | zero => exact ⟨scope, rfl, hm⟩
    | succ d =>
      obtain ⟨outer', ha, hm'⟩ := ih (Nat.le_of_succ_le_succ hd)
      refine ⟨outer', ?_, hm'.trans (by rw [Nat.add_sub_add_right])⟩
      rw [Store.ancestor?, hp]
      exact ha

end Tracks

section

variable (resolution : Resolution) (ρ : Relabeling)

/-- The function was made at a place where its body stands, in a scope that tracks the place. -/
def Closure.Apt (marked : Nat → Bool) (s : Store) (c : Closure) : Prop :=
  ∃ (marks : Nat → Bool) (around : List Region) (locals : List NameScope),
    Tracks marked s marks c.scope locals.length ∧ Bounded marks locals.length ∧
      ∀ v ∈ c.body.visits around (.ofParams c.params :: locals), v.Suits resolution ρ marks

/-- What holds all along a run. -/
structure Upholds (globals : Nat) (marked : Nat → Bool) (s : Store) : Prop where
  functions : s.Within (Closure.Apt resolution ρ marked s)
  unmarked : marked globals = false
  lt : globals < s.scopes.size

end

section

variable {resolution : Resolution} {ρ : Relabeling} {globals : Nat}
variable {marked marked' : Nat → Bool} {s s' : Store}

theorem Onward.apt (h : Onward marked s marked' s') {c : Closure}
    (hc : c.Apt resolution ρ marked s) : c.Apt resolution ρ marked' s' := by
  obtain ⟨marks, around, locals, ht, hb, hv⟩ := hc
  exact ⟨marks, around, locals, ht.mono h, hb, hv⟩

theorem Closure.Apt.release {c : Closure} (hc : c.Apt resolution ρ marked s) (first : Nat) :
    c.Apt resolution ρ marked (s.release first) := by
  obtain ⟨marks, around, locals, ht, hb, hv⟩ := hc
  exact ⟨marks, around, locals, ht.release first, hb, hv⟩

theorem Upholds.onward (h : Upholds resolution ρ globals marked s)
    (hl : Onward marked s marked' s')
    (hw : s'.Within (Closure.Apt resolution ρ marked s)) :
    Upholds resolution ρ globals marked' s' :=
  ⟨hw.mono fun _ => hl.apt, (hl.marks globals h.lt).trans h.unmarked,
    Nat.lt_of_lt_of_le h.lt hl.grows.size⟩

end

/-- What two computations give, in the store that the first one leaves and with the scopes of the
variable there. -/
abbrev Pairing (α β : Type) := (Nat → Bool) → Store → α → β → Prop

/-- From this store, and from the store with the new name, the computations go to such stores again.
They give what `P` relates, or fail alike. -/
def Run.Sim {α β : Type} (resolution : Resolution) (ρ : Relabeling) (globals : Nat) (x : Run α)
    (y : Run β) (marked : Nat → Bool) (s : Store) (P : Pairing α β) : Prop :=
  Upholds resolution ρ globals marked s →
    ∃ marked', Onward marked s marked' (x.outcome s).2 ∧
      Upholds resolution ρ globals marked' (x.outcome s).2 ∧
        (y.outcome (s.relabel ρ marked)).2 = (x.outcome s).2.relabel ρ marked' ∧
          ResultRel (Stop.Reworded ρ.old ρ.fresh) (P marked' (x.outcome s).2) (x.outcome s).1
            (y.outcome (s.relabel ρ marked)).1

/-- A value and the same value with the new name in its functions. -/
def Value.Paired (resolution : Resolution) (ρ : Relabeling) : Pairing Value Value :=
  fun marked s v w => v.Within (Closure.Apt resolution ρ marked s) ∧ w = v.relabel ρ

def Value.AllPaired (resolution : Resolution) (ρ : Relabeling) :
    Pairing (List Value) (List Value) :=
  fun marked s vs ws =>
    (∀ v ∈ vs, v.Within (Closure.Apt resolution ρ marked s)) ∧
      ws = vs.map (Value.relabel ρ)

abbrev SameResult {α : Type} : Pairing α α := fun _ _ a b => b = a

namespace Run.Sim

variable {α β γ δ : Type} {resolution : Resolution} {ρ : Relabeling} {globals : Nat}
variable {x : Run α} {y : Run β} {marked : Nat → Bool} {s : Store} {P : Pairing α β}
variable {Q : Pairing γ δ}

theorem pure {a : α} {b : β} (h : P marked s a b) :
    Sim resolution ρ globals (Pure.pure a) (Pure.pure b) marked s P :=
  fun hu => ⟨marked, .refl marked s, hu, rfl, .ok h⟩

theorem bind {f : α → Run γ} {g : β → Run δ} (hx : Sim resolution ρ globals x y marked s P)
    (hf : ∀ marked' s' a b, Onward marked s marked' s' → P marked' s' a b →
      Sim resolution ρ globals (f a) (g b) marked' s' Q) :
    Sim resolution ρ globals (x >>= f) (y >>= g) marked s Q := by
  intro hu
  obtain ⟨marked', hl, hu', he, hr⟩ := hx hu
  rw [outcome_bind, outcome_bind]
  generalize x.outcome s = o, y.outcome (s.relabel ρ marked) = o' at hl hu' he hr ⊢
  obtain ⟨r, s'⟩ := o
  obtain ⟨q, t'⟩ := o'
  dsimp only at hl hu' he hr
  subst he
  cases hr with
  | error h => exact ⟨marked', hl, hu', rfl, .error h⟩
  | ok h =>
    obtain ⟨marked'', hl', hu'', he', hr'⟩ := hf marked' s' _ _ hl h hu'
    exact ⟨marked'', hl.trans hl', hu'', he', hr'⟩

theorem ite {p p' : Prop} [Decidable p] [Decidable p'] {x' : Run α} {y' : Run β} (hp : p' ↔ p)
    (hx : Sim resolution ρ globals x y marked s P)
    (hx' : Sim resolution ρ globals x' y' marked s P) :
    Sim resolution ρ globals (if p then x else x') (if p' then y else y') marked s P := by
  by_cases h : p
  · rw [if_pos h, if_pos (hp.mpr h)]
    exact hx
  · rw [if_neg h, if_neg fun h' => h (hp.mp h')]
    exact hx'

theorem throw {stop stop' : Stop} (h : Stop.Reworded ρ.old ρ.fresh stop stop') :
    Sim resolution ρ globals (throwThe Stop stop : Run α) (throwThe Stop stop' : Run β) marked s
      P :=
  fun hu => ⟨marked, .refl marked s, hu, rfl, .error h⟩

theorem raise (cause : RunCause) :
    Sim resolution ρ globals (Run.raise cause) (Run.raise cause) marked s P :=
  throw (.same _)

theorem fail (token : Token) (cause : RunCause) :
    Sim resolution ρ globals (Run.fail token cause) (Run.fail token cause) marked s P :=
  throw (.same _)

theorem ofMirrors {f : α → β} {K : α → Prop} (hm : Mirrors ρ f x y)
    (hk : x.Keeps (Closure.Apt resolution ρ marked s) K)
    (h : ∀ s' a, Onward marked s marked s' → K a → P marked s' a (f a)) :
    Sim resolution ρ globals x y marked s P := by
  intro hu
  obtain ⟨hk₁, hk₂, hk₃⟩ := hk s hu.functions
  rw [hm marked s]
  have hl : Onward marked s marked (x.outcome s).2 := .of_scopes_eq marked hk₁
  refine ⟨marked, hl, hu.onward hl hk₂, rfl, ?_⟩
  cases hr : (x.outcome s).1 with
  | ok a => exact .ok (h _ a hl (hk₃ a hr))
  | error stop => exact .error (.same stop)

theorem ofMirrorsValue {x y : Run Value} (hm : Mirrors ρ (Value.relabel ρ) x y)
    (hk : x.Keeps (Closure.Apt resolution ρ marked s)
      (·.Within (Closure.Apt resolution ρ marked s))) :
    Sim resolution ρ globals x y marked s (Value.Paired resolution ρ) :=
  .ofMirrors hm hk fun _ _ hl hv => ⟨hv.mono fun _ => hl.apt, rfl⟩

theorem ofMirrorsSame {x y : Run α} {K : α → Prop} (hm : Mirrors ρ id x y)
    (hk : x.Keeps (Closure.Apt resolution ρ marked s) K) :
    Sim resolution ρ globals x y marked s SameResult :=
  .ofMirrors hm hk fun _ _ _ _ => rfl

theorem boundTo (token : Token) (hx : Sim resolution ρ globals x y marked s P) :
    Sim resolution ρ globals (Run.boundTo token x) (Run.boundTo token y) marked s P := by
  intro hu
  obtain ⟨marked', hl, hu', he, hr⟩ := hx hu
  rw [outcome_boundTo, outcome_boundTo]
  generalize x.outcome s = o, y.outcome (s.relabel ρ marked) = o' at hl hu' he hr ⊢
  obtain ⟨r, s'⟩ := o
  obtain ⟨q, t'⟩ := o'
  dsimp only at hl hu' he hr
  subst he
  cases hr with
  | ok h => exact ⟨marked', hl, hu', rfl, .ok h⟩
  | @error stop _ h =>
    cases h with
    | same => cases stop <;> exact ⟨marked', hl, hu', rfl, .error (.same _)⟩
    | undefinedName span => exact ⟨marked', hl, hu', rfl, .error (.undefinedName span)⟩
    | notIterable type span => exact ⟨marked', hl, hu', rfl, .error (.notIterable type span)⟩

theorem read {f : Store → α} {g : Store → β}
    (h : Upholds resolution ρ globals marked s → P marked s (f s) (g (s.relabel ρ marked))) :
    Sim resolution ρ globals (Run.read f) (Run.read g) marked s P :=
  fun hu => ⟨marked, .refl marked s, hu, rfl, .ok (h hu)⟩

theorem update {f : Store → α × Store} {g : Store → β × Store} (marked' : Nat → Bool)
    (hl : Onward marked s marked' (f s).2)
    (hw : s.Within (Closure.Apt resolution ρ marked s) →
      (f s).2.Within (Closure.Apt resolution ρ marked s))
    (he : marked globals = false → (g (s.relabel ρ marked)).2 = (f s).2.relabel ρ marked')
    (h : marked globals = false → P marked' (f s).2 (f s).1 (g (s.relabel ρ marked)).1) :
    Sim resolution ρ globals (Run.update f) (Run.update g) marked s P :=
  fun hu => ⟨marked', hl, hu.onward hl (hw hu.functions), he hu.unmarked, .ok (h hu.unmarked)⟩

theorem change {f g : Store → Store} (hl : Onward marked s marked (f s))
    (hw : s.Within (Closure.Apt resolution ρ marked s) →
      (f s).Within (Closure.Apt resolution ρ marked s))
    (he : g (s.relabel ρ marked) = (f s).relabel ρ marked) :
    Sim resolution ρ globals (Run.change f) (Run.change g) marked s SameResult :=
  fun hu => ⟨marked, hl, hu.onward hl (hw hu.functions), he, .ok rfl⟩

theorem mapM {f g : Value → Run α} {xs : List Value}
    (hf : ∀ marked' s' x, Onward marked s marked' s' →
      x.Within (Closure.Apt resolution ρ marked' s') →
        Sim resolution ρ globals (f x) (g (x.relabel ρ)) marked' s' SameResult)
    (hxs : ∀ x ∈ xs, x.Within (Closure.Apt resolution ρ marked s)) :
    Sim resolution ρ globals (xs.mapM f) ((xs.map (Value.relabel ρ)).mapM g) marked s
      SameResult := by
  induction xs generalizing marked s with
  | nil => exact .pure rfl
  | cons x xs ih =>
    rw [List.map_cons, List.mapM_cons, List.mapM_cons]
    refine (hf marked s x (.refl marked s) (hxs x List.mem_cons_self)).bind
      fun marked₁ s₁ a _ hl₁ ha => ?_
    obtain rfl := ha
    have hrest := ih (fun marked' s' y hl => hf marked' s' y (hl₁.trans hl))
      fun y hy => (hxs y (List.mem_cons_of_mem _ hy)).mono fun _ => hl₁.apt
    refine hrest.bind fun _ _ as _ _ has => ?_
    obtain rfl := has
    exact .pure rfl

end Run.Sim

theorem Resolver.distance?_lt {name : String} {locals : List NameScope} {d : Nat}
    (h : distance? name locals = some d) : d < locals.length := by
  obtain ⟨_, hl, _⟩ := distance?_declares h
  exact (List.getElem?_eq_some_iff.mp hl).1

namespace Visit.Suits

variable {resolution : Resolution} {ρ : Relabeling} {marks : Nat → Bool} {node : Nat}
variable {token : Token} {around : List Region} {locals : List NameScope}

theorem use_found (h : Suits resolution ρ marks ⟨node, token.lexeme, around, locals⟩) {d : Nat}
    (hd : Resolver.distance? token.lexeme locals = some d) :
    (ρ.use node token).lexeme = ρ.key (marks (locals.length - d)) token.lexeme := by
  obtain ⟨⟨ho, d', hd', hm⟩, he⟩ | ⟨hb, he⟩ := h.becomes.eq
  · obtain rfl := Option.some.inj (hd.symm.trans hd')
    rw [he, hm, ho, ρ.key_true_old]
  · rw [he]
    cases hm : marks (locals.length - d) with
    | false => rfl
    | true => exact (ρ.key_of_ne true (fun ho => hb ⟨ho, d, hd, hm⟩) h.name).symm

theorem use_global (h : Suits resolution ρ marks ⟨node, token.lexeme, around, locals⟩)
    (hd : Resolver.distance? token.lexeme locals = none) : ρ.use node token = token := by
  refine if_neg fun hn => ?_
  obtain ⟨-, _, hd', -⟩ := h.bound.mp hn
  exact Option.some_ne_none _ (hd'.symm.trans hd)

theorem reworded (h : Suits resolution ρ marks ⟨node, token.lexeme, around, locals⟩) :
    Stop.Reworded ρ.old ρ.fresh (.fault (token.fault (.undefinedName token.lexeme)))
      (.fault ((ρ.use node token).fault (.undefinedName (ρ.use node token).lexeme))) := by
  by_cases hn : node ∈ ρ.nodes
  · have ho : token.lexeme = ρ.old := (h.bound.mp hn).1
    rw [Relabeling.use, if_pos hn, Token.fault, Token.fault, ho]
    exact .undefinedName token.span
  · rw [Relabeling.use, if_neg hn]
    exact .same _

end Visit.Suits

namespace Run

variable {ctx : Context} {ρ : Relabeling} {marked marks : Nat → Bool} {s : Store}
variable {scope node : Nat} {token : Token} {around : List Region} {locals : List NameScope}

/-- Where a run seeks a name: in a local scope, which calls it what the node does, or else among
the global ones. -/
theorem sought (ht : Tracks marked s marks scope locals.length)
    (hv : Visit.Suits ctx.resolution ρ marks ⟨node, token.lexeme, around, locals⟩) :
    (∃ d outer, ctx.resolution.get? node = some d ∧ s.ancestor? scope d = some outer ∧
      (ρ.use node token).lexeme = ρ.key (marked outer) token.lexeme) ∨
      ctx.resolution.get? node = none ∧ ρ.use node token = token := by
  have hr : ctx.resolution.get? node = Resolver.distance? token.lexeme locals := hv.resolved
  cases hd : Resolver.distance? token.lexeme locals with
  | none => exact .inr ⟨hr.trans hd, hv.use_global hd⟩
  | some d =>
    obtain ⟨outer, ha, hm⟩ := ht.ancestor (Nat.le_of_lt (Resolver.distance?_lt hd))
    exact .inl ⟨d, outer, hr.trans hd, ha, hm ▸ hv.use_found hd⟩

theorem lookup_sim (ht : Tracks marked s marks scope locals.length)
    (hv : Visit.Suits ctx.resolution ρ marks ⟨node, token.lexeme, around, locals⟩) :
    Sim ctx.resolution ρ ctx.globals (lookup ctx node token scope)
      (lookup ctx node (ρ.use node token) scope) marked s
      (Value.Paired ctx.resolution ρ) := by
  refine Sim.bind (P := fun marked' s' found found' => found' = found.map (Value.relabel ρ) ∧
    ∀ v, found = some v → v.Within (Closure.Apt ctx.resolution ρ marked' s'))
    (.read fun hu => ?_) fun marked' s' found _ _ hf => ?_
  · obtain ⟨d, outer, hr, ha, hk⟩ | ⟨hr, hk⟩ := sought ht hv
    · rw [hr, hk]
      dsimp only
      rw [Store.lookupAt?, Store.lookupAt?, Store.ancestor?_relabel, ha, Option.bind_some,
        Option.bind_some]
      exact ⟨s.lookup?_relabel outer token.lexeme, fun v => hu.functions.lookup?⟩
    · rw [hr, hk]
      have hl : (s.relabel ρ marked).lookup? ctx.globals
          (ρ.key (marked ctx.globals) token.lexeme) = _ := s.lookup?_relabel _ _
      rw [hu.unmarked, ρ.key_false] at hl
      exact ⟨hl, fun v => hu.functions.lookup?⟩
  · obtain ⟨rfl, hw⟩ := hf
    cases found with
    | some v => exact .pure ⟨hw v rfl, rfl⟩
    | none => exact .throw hv.reworded

theorem assign_relabel (marked : Nat → Bool) (s : Store) (scope : Nat) (name : String)
    (v : Value) :
    (s.relabel ρ marked).assign scope (ρ.key (marked scope) name) (v.relabel ρ) =
      ((s.assign scope name v).1, (s.assign scope name v).2.relabel ρ marked) := by
  rw [Store.assign, Store.assign, Store.names_relabel, Entries.contains_relabel]
  split
  · rw [s.relabel_define]
  · rfl

theorem assign_onward (marked : Nat → Bool) (s : Store) (scope : Nat) (name : String) (v : Value) :
    Onward marked s marked (s.assign scope name v).2 := by
  rw [Store.assign]
  split
  · exact ⟨.define s scope name v, fun _ _ => rfl⟩
  · exact .refl marked s

theorem assign_within {known : Closure → Prop} {v : Value} (hs : s.Within known)
    (hv : v.Within known) (name : String) : (s.assign scope name v).2.Within known := by
  rw [Store.assign]
  split
  · exact hs.define scope name hv
  · exact hs

theorem assigned_sim {f g : Store → Bool × Store} {target : Nat} {name name' : String} {v : Value}
    (hf : f s = s.assign target name v)
    (hg : g (s.relabel ρ marked) = (s.relabel ρ marked).assign target name' (v.relabel ρ))
    (hk : marked ctx.globals = false → name' = ρ.key (marked target) name)
    (hw : v.Within (Closure.Apt ctx.resolution ρ marked s)) :
    Sim ctx.resolution ρ ctx.globals (update f) (update g) marked s SameResult := by
  have he := assign_relabel (ρ := ρ) marked s target name v
  refine .update marked (hf ▸ assign_onward marked s target name v)
    (fun hs => hf ▸ assign_within hs hw name) (fun hm => ?_) fun hm => ?_
  · rw [hg, hf, hk hm, he]
  · rw [hg, hf, hk hm, he]

theorem assign_sim {v : Value} (ht : Tracks marked s marks scope locals.length)
    (hv : Visit.Suits ctx.resolution ρ marks ⟨node, token.lexeme, around, locals⟩)
    (hw : v.Within (Closure.Apt ctx.resolution ρ marked s)) :
    Sim ctx.resolution ρ ctx.globals (assign ctx node token v scope)
      (assign ctx node (ρ.use node token) (v.relabel ρ) scope) marked s SameResult := by
  refine Sim.bind (P := SameResult) ?_ fun marked' s' known known' _ hknown => ?_
  · obtain ⟨d, outer, hr, ha, hk⟩ | ⟨hr, hk⟩ := sought ht hv
    · rw [hr]
      refine assigned_sim ?_ ?_ (fun _ => hk) hw
      · dsimp only
        rw [Store.assignAt, ha]
      · dsimp only
        rw [Store.assignAt, Store.ancestor?_relabel, ha]
    · rw [hr, hk]
      exact assigned_sim rfl rfl (fun hm => by rw [hm, ρ.key_false]) hw
  · obtain rfl := hknown
    cases known' with
    | true => exact .pure rfl
    | false => exact .throw hv.reworded

theorem innerScope_sim {globals outer depth : Nat} {resolution : Resolution} {marks' : Nat → Bool}
    {names : List (String × Value)} (ht : Tracks marked s marks outer depth)
    (hi : Inside marks marks' depth)
    (hn : ∀ pair ∈ names, pair.2.Within (Closure.Apt resolution ρ marked s)) :
    Sim resolution ρ globals (innerScope outer names)
      (innerScope outer
        (names.map fun pair => (ρ.key (marks' (depth + 1)) pair.1, pair.2.relabel ρ))) marked s
      fun marked' s' inner inner' => inner' = inner ∧
        Tracks marked' s' marks' inner (depth + 1) := by
  -- the new cell lies behind all others, so no scope that is there gets another mark
  let marked' := Function.update marked s.scopes.size (marks' (depth + 1))
  have hinner : marked' s.scopes.size = marks' (depth + 1) := Function.update_self ..
  have hsame : ∀ i < s.scopes.size, marked' i = marked i := fun i hi =>
    Function.update_of_ne (Nat.ne_of_lt hi) ..
  have hnew : s.scopes.size < (s.newScope (some outer)).2.scopes.size := by
    rw [Store.newScope, Array.size_push]
    exact Nat.lt_succ_self _
  have hp : (s.newScope (some outer)).2.parent? s.scopes.size = some outer := by
    rw [Store.parent?, Store.newScope, Array.getElem?_push_size]
    rfl
  have hall := Store.Grows.defineAll (s.newScope (some outer)).2 s.scopes.size names
  have hl : Onward marked s marked'
      ((s.newScope (some outer)).2.defineAll s.scopes.size names) :=
    ⟨(Store.Grows.newScope s (some outer)).trans hall, hsame⟩
  refine .update marked' hl (fun hs => (hs.newScope _).defineAll _ hn) (fun _ => ?_) fun _ => ?_
  · have hd : ((s.newScope (some outer)).2.defineAll s.scopes.size names).relabel ρ marked' = _ :=
      Store.relabel_defineAll _ _ _
    rw [Store.relabel_newScope, Store.relabel_congr hsame, hinner] at hd
    dsimp only [Store.newScope] at hd ⊢
    rw [hd, Store.size_scopes_relabel]
  · exact ⟨s.size_scopes_relabel, .inner ((hall.parent _ hnew).trans hp)
      (Nat.lt_of_lt_of_le hnew hall.size) hinner ((ht.mono hl).congr hi.agree)⟩

end Run

end DocTemplate
