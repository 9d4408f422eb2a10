import DocTemplate.Proofs.Run.Trace
import DocTemplate.Proofs.Scope.Resolution

namespace DocTemplate

namespace Store

/-- Scopes stay where they are, and names stay in them. -/
structure Grows (s s' : Store) : Prop where
  size : s.scopes.size ≤ s'.scopes.size
  parent : ∀ i < s.scopes.size, s'.parent? i = s.parent? i
  bound : ∀ i name, (s.lookup? i name).isSome → (s'.lookup? i name).isSome

namespace Grows

variable {s s' s'' : Store}

theorem refl (s : Store) : s.Grows s := ⟨Nat.le_refl _, fun _ _ => rfl, fun _ _ h => h⟩

theorem trans (h : s.Grows s') (h' : s'.Grows s'') : s.Grows s'' := by
  refine ⟨Nat.le_trans h.size h'.size, fun i hi => ?_,
    fun i name hb => h'.bound i name (h.bound i name hb)⟩
  rw [h'.parent i (Nat.lt_of_lt_of_le hi h.size), h.parent i hi]

theorem of_scopes_eq (h : s'.scopes = s.scopes) : s.Grows s' := by
  refine ⟨Nat.le_of_eq (by rw [h]), fun i _ => ?_, fun i name hb => ?_⟩
  · rw [parent?, parent?, h]
  · rw [lookup?, names, h]
    exact hb

theorem newScope (s : Store) (parent : Option Nat) : s.Grows (s.newScope parent).2 := by
  refine ⟨?_, fun i hi => ?_, fun i name hb => ?_⟩
  · rw [Store.newScope, Array.size_push]
    exact Nat.le_succ _
  · rw [parent?, parent?, Store.newScope, Array.getElem?_push_lt hi, Array.getElem?_eq_getElem hi]
  · rw [lookup?, names] at hb ⊢
    cases hi : s.scopes[i]? with
    | none =>
      rw [hi] at hb
      cases hb
    | some sc =>
      rw [hi] at hb
      obtain ⟨hlt, _⟩ := Array.getElem?_eq_some_iff.mp hi
      rw [Store.newScope, Array.getElem?_push_lt hlt, ← Array.getElem?_eq_getElem hlt, hi]
      exact hb

end Grows

theorem names_define (s : Store) (scope i : Nat) (name : String) (v : Value) :
    (s.define scope name v).names i =
      if scope = i ∧ i < s.scopes.size then (s.names i).insert name v else s.names i := by
  rw [names, names, define, Array.getElem?_modify]
  by_cases h : scope = i
  · subst h
    by_cases hlt : scope < s.scopes.size
    · rw [if_pos rfl, if_pos ⟨rfl, hlt⟩, Array.getElem?_eq_getElem hlt]
      rfl
    · rw [if_pos rfl, if_neg fun h => hlt h.2, Array.getElem?_eq_none (Nat.le_of_not_lt hlt)]
      rfl
  · rw [if_neg h, if_neg fun hc => h hc.1]

theorem parent?_define (s : Store) (scope i : Nat) (name : String) (v : Value) :
    (s.define scope name v).parent? i = s.parent? i := by
  rw [parent?, parent?, define, Array.getElem?_modify]
  split
  · cases s.scopes[i]? <;> rfl
  · rfl

theorem size_define (s : Store) (scope : Nat) (name : String) (v : Value) :
    (s.define scope name v).scopes.size = s.scopes.size := by
  rw [define, Array.size_modify]

theorem Grows.define (s : Store) (scope : Nat) (name : String) (v : Value) :
    s.Grows (s.define scope name v) := by
  refine ⟨Nat.le_of_eq (size_define ..).symm, fun i _ => parent?_define s scope i name v,
    fun i x hb => ?_⟩
  rw [lookup?, names_define]
  split
  · rw [Entries.get?_insert]
    split
    · rfl
    · exact hb
  · exact hb

theorem lookup?_define_self {s : Store} {scope : Nat} (h : scope < s.scopes.size) (name : String)
    (v : Value) : ((s.define scope name v).lookup? scope name).isSome := by
  rw [lookup?, names_define, if_pos ⟨rfl, h⟩, Entries.get?_insert, if_pos rfl]
  rfl

theorem Grows.defineAll (s : Store) (scope : Nat) (pairs : List (String × Value)) :
    s.Grows (s.defineAll scope pairs) := by
  induction pairs generalizing s with
  | nil => exact .refl s
  | cons pair pairs ih => exact (Grows.define s scope pair.1 pair.2).trans (ih _)

theorem lookup?_defineAll {s : Store} {scope : Nat} {pairs : List (String × Value)}
    {name : String} (h : scope < s.scopes.size) (hm : name ∈ pairs.map Prod.fst) :
    ((s.defineAll scope pairs).lookup? scope name).isSome := by
  induction pairs generalizing s with
  | nil => cases hm
  | cons pair pairs ih =>
    have hs : scope < (s.define scope pair.1 pair.2).scopes.size := by
      rw [size_define]
      exact h
    cases List.mem_cons.mp hm with
    | inl he =>
      have hb := lookup?_define_self h pair.1 pair.2
      rw [he]
      exact (Grows.defineAll _ scope pairs).bound scope pair.1 hb
    | inr hm => exact ih hs hm

theorem size_release (s : Store) (first : Nat) : (s.release first).scopes.size = s.scopes.size :=
  Array.size_mapIdx

theorem parent?_release (s : Store) (first i : Nat) : (s.release first).parent? i = s.parent? i := by
  rw [parent?, parent?, release, Array.getElem?_mapIdx]
  cases s.scopes[i]? with
  | none => rfl
  | some scope =>
    rw [Option.map_some]
    split <;> rfl

end Store

def Store.Inside (s : Store) (kept : Nat → Prop) (scope : Nat) : Prop :=
  ∃ distance outer, s.ancestor? scope distance = some outer ∧ kept outer

namespace Store

variable {s s' : Store} {kept : Nat → Prop} {scope : Nat}

theorem lt_size_of_parent? {outer : Nat} (h : s.parent? scope = some outer) :
    scope < s.scopes.size := by
  obtain ⟨sc, hsc, -⟩ := Option.bind_eq_some_iff.mp h
  exact (Array.getElem?_eq_some_iff.mp hsc).1

theorem Grows.ancestor? (h : s.Grows s') {distance outer : Nat}
    (ha : s.ancestor? scope distance = some outer) : s'.ancestor? scope distance = some outer := by
  induction distance generalizing scope with
  | zero => exact ha
  | succ distance ih =>
    obtain ⟨next, hp, ha⟩ := Option.bind_eq_some_iff.mp ha
    rw [Store.ancestor?, h.parent scope (lt_size_of_parent? hp), hp]
    exact ih ha

theorem Inside.of_kept (h : kept scope) : s.Inside kept scope := ⟨0, scope, rfl, h⟩

theorem Inside.mono (h : s.Inside kept scope) (hs : s.Grows s') : s'.Inside kept scope := by
  obtain ⟨distance, outer, ha, hk⟩ := h
  exact ⟨distance, outer, hs.ancestor? ha, hk⟩

theorem Inside.inner {inner : Nat} (h : s.Inside kept scope) (hp : s.parent? inner = some scope) :
    s.Inside kept inner := by
  obtain ⟨distance, outer, ha, hk⟩ := h
  refine ⟨distance + 1, outer, ?_, hk⟩
  rw [Store.ancestor?, hp]
  exact ha

end Store

/-- A scope is made for the regions around a place, innermost first. It binds the names that are
ready there, unless it is one of the `old` scopes from before the run. The way outward ends at a
global scope. -/
inductive Matches (old : Nat) (log : List Event) (s : Store) :
    Nat → List Region → List NameScope → Prop where
  | global {scope : Nat} : scope < s.scopes.size → s.parent? scope = none →
      Matches old log s scope [] []
  | inner {scope outer : Nat} {region : Region} {around : List Region} {names : NameScope}
      {locals : List NameScope} :
      s.parent? scope = some outer → outer < scope → scope < s.scopes.size →
      .enter region scope ∈ log →
      (old ≤ scope → ∀ name, names.ready? name = some true → (s.lookup? scope name).isSome) →
      Matches old log s outer around locals →
      Matches old log s scope (region :: around) (names :: locals)

namespace Matches

variable {old scope : Nat} {log log' : List Event} {s s' : Store} {around : List Region}
  {locals : List NameScope}

theorem mono (h : Matches old log s scope around locals) (hs : s.Grows s')
    (hl : ∀ e ∈ log, e ∈ log') : Matches old log' s' scope around locals := by
  induction h with
  | global hlt hp => exact .global (Nat.lt_of_lt_of_le hlt hs.size) ((hs.parent _ hlt).trans hp)
  | inner hp ho hlt he hb _ ih =>
    exact .inner ((hs.parent _ hlt).trans hp) ho (Nat.lt_of_lt_of_le hlt hs.size) (hl _ he)
      (fun hold name hr => hs.bound _ name (hb hold name hr)) ih

theorem lt (h : Matches old log s scope around locals) : scope < s.scopes.size := by
  cases h <;> assumption

/-- After the run its scopes are old too, and what they bind no longer counts. -/
theorem aged (h : Matches old log s scope around locals) {later : Nat}
    (hs : s'.scopes.size = s.scopes.size) (hp : ∀ i, s'.parent? i = s.parent? i)
    (hlater : s.scopes.size ≤ later) : Matches later log s' scope around locals := by
  induction h with
  | global hlt hn => exact .global (hs ▸ hlt) ((hp _).trans hn)
  | inner ho hout hlt he _ _ ih =>
    exact .inner ((hp _).trans ho) hout (hs ▸ hlt) he
      (fun hold => absurd (Nat.lt_of_lt_of_le hlt hlater) (Nat.not_lt_of_le hold)) ih

theorem length_le (h : Matches old log s scope around locals) : locals.length ≤ scope := by
  induction h with
  | global => exact Nat.zero_le _
  | inner _ ho _ _ _ _ ih => exact Nat.lt_of_le_of_lt ih ho

theorem outward_length (h : Matches old log s scope around locals) {fuel : Nat}
    (hf : locals.length < fuel) : (s.outward fuel scope).length = locals.length + 1 := by
  induction h generalizing fuel with
  | global hlt hp =>
    obtain ⟨fuel, rfl⟩ := Nat.exists_eq_add_one_of_ne_zero (Nat.ne_zero_of_lt hf)
    rw [Store.outward, hp]
    rfl
  | inner hp _ _ _ _ _ ih =>
    obtain ⟨fuel, rfl⟩ := Nat.exists_eq_add_one_of_ne_zero (Nat.ne_zero_of_lt hf)
    rw [Store.outward, hp, List.length_cons, List.length_cons]
    exact congrArg (· + 1) (ih (Nat.lt_of_succ_lt_succ hf))

theorem depth_eq (h : Matches old log s scope around locals) :
    s.depth scope = locals.length := by
  have hf : locals.length < s.scopes.size := Nat.lt_of_le_of_lt h.length_le h.lt
  rw [Store.depth, Store.chain, h.outward_length hf, Nat.add_sub_cancel]

theorem ancestor (h : Matches old log s scope around locals) {d : Nat} {names : NameScope}
    (hd : locals[d]? = some names) :
    ∃ outer region, s.ancestor? scope d = some outer ∧ around[d]? = some region ∧
      .enter region outer ∈ log ∧
        (old ≤ outer → ∀ name, names.ready? name = some true →
          (s.lookup? outer name).isSome) := by
  induction h generalizing d with
  | global => cases hd
  | @inner scope outer region around names' locals hp _ _ he hb _ ih =>
    cases d with
    | zero =>
      obtain rfl := Option.some.inj hd
      exact ⟨scope, region, rfl, rfl, he, hb⟩
    | succ d =>
      obtain ⟨outer', region', ha, hr, hm⟩ := ih hd
      refine ⟨outer', region', ?_, hr, hm⟩
      rw [Store.ancestor?, hp]
      exact ha

theorem pending (h : Matches old log s scope around locals) (name : String) :
    Matches old log s scope around (pending name locals) := by
  cases h with
  | global hlt hp => exact .global hlt hp
  | inner hp ho hlt he hb hm =>
    refine .inner hp ho hlt he (fun hold x hr => ?_) hm
    rw [NameScope.ready?_put] at hr
    split at hr
    · cases hr
    · exact hb hold x hr

theorem after (h : Matches old log s scope around locals) (stmt : Stmt)
    (hn : ∀ name init, stmt = .declare name init → (s.lookup? scope name.lexeme).isSome) :
    Matches old log s scope around (stmt.localsAfter locals) := by
  cases stmt with
  | declare name init =>
    cases h with
    | global hlt hp => exact .global hlt hp
    | inner hp ho hlt he hb hm =>
      refine .inner hp ho hlt he (fun hold x hr => ?_) hm
      rw [NameScope.ready?_put] at hr
      split at hr
      · rename_i heq
        rw [heq]
        exact hn name init rfl
      · rename_i hne
        rw [NameScope.ready?_put, if_neg hne] at hr
        exact hb hold x hr
  | _ => exact h

end Matches

/-- What a run is held against: the visits of its program, the log of earlier runs, how many scopes
there are before the run, and which of them belong to functions of unknown origin. -/
structure Scene where
  visits : Visit → Prop
  past : List Event
  old : Nat
  stray : Nat → Prop

/-- A scope with what is visited in it. It lies inside of the scope of a function of unknown origin,
or else it matches a place of the program where the visits are. -/
def Stands (scene : Scene) (log : List Event) (s : Store) (scope : Nat) (around : List Region)
    (locals : List NameScope) (visits : List Visit) : Prop :=
  s.Inside scene.stray scope ∨
    Matches scene.old (log ++ scene.past) s scope around locals ∧ ∀ v ∈ visits, scene.visits v

namespace Stands

variable {scene : Scene} {log log' : List Event} {s s' : Store} {scope : Nat}
  {around : List Region} {locals : List NameScope} {first rest : List Visit}

theorem log_mono {past : List Event} (hl : ∀ e ∈ log, e ∈ log') :
    ∀ e ∈ log ++ past, e ∈ log' ++ past :=
  fun e he => List.mem_append.mpr ((List.mem_append.mp he).imp_left (hl e))

theorem mono (h : Stands scene log s scope around locals first) (hs : s.Grows s')
    (hl : ∀ e ∈ log, e ∈ log') : Stands scene log' s' scope around locals first :=
  h.imp (·.mono hs) fun ⟨hm, hv⟩ => ⟨hm.mono hs (log_mono hl), hv⟩

theorem left (h : Stands scene log s scope around locals (first ++ rest)) :
    Stands scene log s scope around locals first :=
  h.imp_right fun ⟨hm, hv⟩ => ⟨hm, (List.forall_mem_append.mp hv).1⟩

theorem right (h : Stands scene log s scope around locals (first ++ rest)) :
    Stands scene log s scope around locals rest :=
  h.imp_right fun ⟨hm, hv⟩ => ⟨hm, (List.forall_mem_append.mp hv).2⟩

theorem pending (h : Stands scene log s scope around locals first) (name : String) :
    Stands scene log s scope around (pending name locals) first :=
  h.imp_right fun ⟨hm, hv⟩ => ⟨hm.pending name, hv⟩

theorem inner {region : Region} {names : NameScope}
    (h : Stands scene log s scope around locals first) (hs : s.Grows s')
    (hl : ∀ e ∈ log, e ∈ log') (hp : s'.parent? s.scopes.size = some scope)
    (hlt : s.scopes.size < s'.scopes.size) (he : .enter region s.scopes.size ∈ log')
    (hn : ∀ name, names.ready? name = some true → (s'.lookup? s.scopes.size name).isSome) :
    Stands scene log' s' s.scopes.size (region :: around) (names :: locals) first := by
  refine h.imp (fun hi => (hi.mono hs).inner hp) fun ⟨hm, hv⟩ => ⟨?_, hv⟩
  exact .inner hp hm.lt hlt (List.mem_append_left _ he) (fun _ => hn)
    (hm.mono hs (log_mono hl))

end Stands

/-- The function was made in a scope where its body is placed. -/
def Closure.Fits (scene : Scene) (s : Store) (log : List Event) (c : Closure) : Prop :=
  ∃ around locals, Stands scene log s c.scope around locals
    (c.body.visits (.function c.params c.body :: around) (.ofParams c.params :: locals))

/-- The store and the log at two times of a run. -/
structure Later (s : Store) (log : List Event) (s' : Store) (log' : List Event) : Prop where
  grows : s.Grows s'
  log : ∀ e ∈ log, e ∈ log'

namespace Later

variable {scene : Scene} {scope : Nat} {s s' s'' : Store} {log log' log'' : List Event}
  {around : List Region} {locals : List NameScope} {visits : List Visit} {c : Closure} {v : Value}

theorem refl (s : Store) (log : List Event) : Later s log s log := ⟨.refl s, fun _ h => h⟩

theorem trans (h : Later s log s' log') (h' : Later s' log' s'' log'') :
    Later s log s'' log'' :=
  ⟨h.grows.trans h'.grows, fun e he => h'.log e (h.log e he)⟩

theorem stands (h : Later s log s' log') (hp : Stands scene log s scope around locals visits) :
    Stands scene log' s' scope around locals visits :=
  hp.mono h.grows h.log

theorem fits (h : Later s log s' log') (hc : c.Fits scene s log) : c.Fits scene s' log' := by
  obtain ⟨around, locals, hp⟩ := hc
  exact ⟨around, locals, h.stands hp⟩

theorem within (h : Later s log s' log') (hv : v.Within (Closure.Fits scene s log)) :
    v.Within (Closure.Fits scene s' log') :=
  hv.mono fun _ => h.fits

end Later

theorem Closure.fits_congr {scene : Scene} {s s' : Store} {log : List Event}
    (h : s'.scopes = s.scopes) : Closure.Fits scene s' log = Closure.Fits scene s log := by
  refine funext fun c => propext ⟨fun hc => ?_, fun hc => ?_⟩
  · exact Later.fits ⟨.of_scopes_eq h.symm, fun _ he => he⟩ hc
  · exact Later.fits ⟨.of_scopes_eq h, fun _ he => he⟩ hc

end DocTemplate
