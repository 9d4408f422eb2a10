import Mathlib.Data.List.Nodup
import DocTemplate.Proofs.Scope.Safety

namespace DocTemplate

/-- Reading and assigning the name at the node cannot fail. -/
def Use.Succeeds (u : Use) (resolution : Resolution) : Prop :=
  ∀ (ctx : Context) (token : Token), ctx.resolution = resolution → token.lexeme = u.name →
    (∃ v, (Run.lookup ctx u.node token u.scope).outcome u.store = (.ok v, u.store)) ∧
      ∀ v, ∃ s, (Run.assign ctx u.node token v u.scope).outcome u.store = (.ok (), s)

/-- The scopes of a use are those of a visit. The first `old` scopes are from before the run. -/
structure Use.Agrees (u : Use) (v : Visit) (resolution : Resolution) (old : Nat)
    (log : List Event) : Prop where
  node : v.node = u.node
  name : v.name = u.name
  /-- As many scopes lie around it as the resolver has pushed. -/
  depth : u.store.depth u.scope = v.locals.length
  resolved : resolution.get? u.node = Resolver.distance? u.name v.locals
  /-- The scope at the resolved distance was made for the region in which the resolver found the
  name, and for no other. If it was made in this run it binds the name, unless the use lies in the
  initializer of the name. -/
  found : ∀ d, resolution.get? u.node = some d →
    ∃ outer region, u.store.ancestor? u.scope d = some outer ∧ v.around[d]? = some region ∧
      (∀ region', .enter region' outer ∈ log ↔ region' = region) ∧
        (old ≤ outer → (u.store.lookup? outer u.name).isSome ∧ u.Succeeds resolution ∨
          region.Initializes u.name u.node)

theorem Use.succeeds_of {u : Use} {resolution : Resolution} {d outer : Nat}
    (hd : resolution.get? u.node = some d) (ha : u.store.ancestor? u.scope d = some outer)
    (hb : (u.store.lookup? outer u.name).isSome) : u.Succeeds resolution := by
  intro ctx token hc ht
  obtain ⟨w, hw⟩ := Option.isSome_iff_exists.mp hb
  have hl : u.store.lookupAt? u.scope d token.lexeme = some w := by
    rw [Store.lookupAt?, ha, ht]
    exact hw
  refine ⟨⟨w, ?_⟩, fun v => ⟨u.store.define outer token.lexeme v, ?_⟩⟩
  · rw [Run.lookup, Run.outcome_bind, Run.outcome_read, hc, hd]
    dsimp only
    rw [hl]
    rfl
  · have hk : (u.store.names outer).contains token.lexeme = true := by
      rw [ht]
      exact hb
    have hs : u.store.assignAt u.scope d token.lexeme v =
        (true, u.store.define outer token.lexeme v) := by
      rw [Store.assignAt, ha]
      exact if_pos hk
    rw [Run.assign, Run.outcome_bind, Run.outcome_update, hc, hd]
    dsimp only
    rw [hs]
    rfl

namespace Resolver

theorem distance?_declares {name : String} {locals : List NameScope} {d : Nat}
    (h : distance? name locals = some d) :
    ∃ names, locals[d]? = some names ∧ names.declares name := by
  induction locals generalizing d with
  | nil => cases h
  | cons scope scopes ih =>
    rw [distance?] at h
    split at h
    · rename_i hs
      obtain rfl := Option.some.inj h
      exact ⟨scope, rfl, hs⟩
    · obtain ⟨d', hd, rfl⟩ := Option.map_eq_some_iff.mp h
      exact ih hd

end Resolver

theorem NameScope.ready?_of_declares {scope : NameScope} {name : String}
    (h : scope.declares name) : ∃ ready, scope.ready? name = some ready := by
  induction scope with
  | nil => cases h
  | cons entry rest ih =>
    obtain ⟨x, ready⟩ := entry
    by_cases hx : name = x
    · exact ⟨ready, by simp [ready?, hx]⟩
    · have hs : declares rest name := by
        simpa [declares, Ne.symm hx] using h
      obtain ⟨ready', hr⟩ := ih hs
      refine ⟨ready', ?_⟩
      rw [ready?, List.lookup_cons, beq_eq_false_iff_ne.mpr hx]
      exact hr

def Event.use? : Event → Option Use
  | enter .. => none
  | use u => some u

theorem Event.eq_of_use? {event : Event} {u : Use} (h : event.use? = some u) :
    event = .use u := by
  cases event with
  | enter => cases h
  | use v =>
    obtain rfl : v = u := Option.some.inj h
    rfl

/-- The function was made by the program, in the scopes of earlier runs with the log `past`. -/
def Closure.LeftBy (p : Program) (past : List Event) (s : Store) (c : Closure) : Prop :=
  ∃ around locals, Matches s.scopes.size past s c.scope around locals ∧
    ∀ v ∈ c.body.visits (.function c.params c.body :: around) (.ofParams c.params :: locals),
      v ∈ Stmt.visitsOfBody p.body [] []

namespace Program

variable {p : Program} {resolution : Resolution}

/-- A use in a scope that matches a visit agrees with it. -/
theorem agrees_of_matches {globals : List String} {scene : Scene} {s : Store} {log : List Event}
    {u : Use} {around : List Region} {locals : List NameScope}
    (hn : Numbered 0 p.nodeCount p.nodes) (hr : resolve p globals = .ok resolution)
    (hs : Sound scene s log)
    (hv : ⟨u.node, u.name, around, locals⟩ ∈ p.visits globals)
    (hm : Matches scene.old (log ++ scene.past) u.store u.scope around locals) :
    u.Agrees ⟨u.node, u.name, around, locals⟩ resolution scene.old (log ++ scene.past) := by
  have hd := resolution_eq hn hr hv
  refine ⟨rfl, rfl, hm.depth_eq, hd, fun d hg => ?_⟩
  obtain ⟨names, hl, hdecl⟩ := Resolver.distance?_declares (hd.symm.trans hg)
  obtain ⟨outer, region, ha, har, he, hb⟩ := hm.ancestor hl
  refine ⟨outer, region, ha, har, fun region' => ⟨fun he' => hs.records.once _ _ _ he' he, ?_⟩,
    fun hold => ?_⟩
  · rintro rfl
    exact he
  · obtain ⟨ready, hready⟩ := NameScope.ready?_of_declares hdecl
    cases ready with
    | true =>
      have hbound := hb hold u.name hready
      exact .inl ⟨hbound, Use.succeeds_of hg ha hbound⟩
    | false =>
      obtain ⟨region', har', hi⟩ := visits_await hr hv d names u.name hl hready
      obtain rfl := Option.some.inj (har.symm.trans har')
      exact .inr hi

theorem closures_builtinNames : ∀ pair ∈ builtinNames, pair.2.closures = [] := by
  intro pair hp
  obtain ⟨b, _, rfl⟩ := List.mem_map.mp hp
  rfl

theorem start_matches (data : List (String × Value)) (store : Store) :
    Matches store.scopes.size [] (startStore data store) store.scopes.size [] [] := by
  have hlt : store.scopes.size < (store.newScope none).2.scopes.size := by
    rw [Store.newScope, Array.size_push]
    exact Nat.lt_succ_self _
  have hp : (store.newScope none).2.parent? store.scopes.size = none := by
    rw [Store.parent?, Store.newScope, Array.getElem?_push_size]
    rfl
  have hm : Matches store.scopes.size [] (store.newScope none).2 store.scopes.size [] [] :=
    .global hlt hp
  exact hm.mono (.defineAll _ _ _) fun _ h => h

theorem startStore_within {known : Closure → Prop} {data : List (String × Value)} {store : Store}
    (hd : ∀ pair ∈ data, pair.2.Within known) (hs : store.Within known) :
    (startStore data store).Within known := by
  refine (hs.newScope none).defineAll _ fun pair hp => ?_
  cases List.mem_append.mp hp with
  | inl hb => exact Value.within_of_closures (closures_builtinNames pair hb)
  | inr hp => exact hd pair hp

/-- The functions of templates that are there before a run, in the data and in the store. -/
def keptFunctions (data : List (String × Value)) (store : Store) : List Closure :=
  data.flatMap (fun pair => pair.2.closures) ++ store.closures

theorem keptFunctions_of_data {data : List (String × Value)} {store : Store}
    {pair : String × Value} {c : Closure} (hp : pair ∈ data) (hc : c ∈ pair.2.closures) :
    c ∈ keptFunctions data store :=
  List.mem_append_left _ (List.mem_flatMap.mpr ⟨pair, hp, hc⟩)

/-- What a run is held against after earlier runs with the log `past`. -/
def scene (p : Program) (past : List Event) (data : List (String × Value)) (store : Store) :
    Scene where
  visits := (· ∈ Stmt.visitsOfBody p.body [] [])
  past := past
  old := store.scopes.size
  stray scope := ∃ c ∈ keptFunctions data store, ¬c.LeftBy p past store ∧ c.scope = scope

theorem grows_startStore (data : List (String × Value)) (store : Store) :
    store.Grows (startStore data store) :=
  (Store.Grows.newScope store none).trans (.defineAll _ _ _)

theorem start_sound (p : Program) {past : List Event} (data : List (String × Value))
    {store : Store} (hp : store.Records past) :
    Sound (p.scene past data store) (startStore data store) [] := by
  have hg := grows_startStore data store
  have hkept : ∀ c ∈ keptFunctions data store,
      c.Fits (p.scene past data store) (startStore data store) [] := by
    intro c hc
    by_cases hl : c.LeftBy p past store
    · obtain ⟨around, locals, hm, hv⟩ := hl
      exact ⟨around, locals, .inr ⟨hm.mono hg fun _ h => h, hv⟩⟩
    · exact ⟨[], [], .inl (.of_kept ⟨c, hc, hl, rfl⟩)⟩
  refine ⟨startStore_within (fun pair hm c hc => hkept c (keptFunctions_of_data hm hc)) ?_, nofun,
    hp.mono hg.size⟩
  exact store.within_closures.mono fun c hc => hkept c (List.mem_append_right _ hc)

def globalNames (data : List (String × Value)) : List String :=
  Builtin.all.map Builtin.name ++ data.map Prod.fst

theorem render_eq_run {around : Surroundings} {data : List (String × Value)} {store : Store}
    (hr : resolve p (globalNames data) = .ok resolution) :
    p.render around data store = p.run around resolution data store := by
  have hn : resolveNames p (globalNames data) = .ok resolution := by
    rw [resolveNames, hr]
    rfl
  rw [globalNames] at hn
  rw [render, hn]

/-- A run leaves functions of its program if it finds no others. -/
theorem left_of_sound {past log : List Event} {data : List (String × Value)} {store s : Store}
    (hs : Sound (p.scene past data store) s log)
    (hkept : ∀ c ∈ keptFunctions data store, c.LeftBy p past store) (hg : store.Grows s)
    {c : Closure} (hc : c ∈ keptFunctions data (s.release store.scopes.size)) :
    c.LeftBy p (log ++ past) (s.release store.scopes.size) := by
  obtain ⟨around, locals, hm, hv⟩ : ∃ around locals,
      Matches store.scopes.size (log ++ past) s c.scope around locals ∧
        ∀ v ∈ c.body.visits (.function c.params c.body :: around) (.ofParams c.params :: locals),
          v ∈ Stmt.visitsOfBody p.body [] [] := by
    cases List.mem_append.mp hc with
    | inl hc =>
      obtain ⟨around, locals, hm, hv⟩ := hkept c (List.mem_append_left _ hc)
      exact ⟨around, locals, hm.mono hg fun _ => List.mem_append_right _, hv⟩
    | inr hc =>
      obtain ⟨around, locals, h⟩ := (hs.functions.all.release _).within.known_of_closures hc
      obtain ⟨_, _, -, c', hc', hleft, -⟩ | h := h
      · exact absurd (hkept c' hc') hleft
      · exact ⟨around, locals, h⟩
  exact ⟨around, locals, hm.aged (s.size_release _) (s.parent?_release _)
    (Nat.le_of_eq (s.size_release _).symm), hv⟩

/-- Whatever a run uses, in whatever order, the resolver met it once, in the same scopes. This goes
for the functions that earlier runs of the program have left too, but the scopes of those runs are
empty. Only functions of another origin are left out. -/
theorem render_agrees {stream : TemplateStream} {around : Surroundings}
    {programs : Nat → List Value → NativeProgram} {data : List (String × Value)} {store : Store}
    {past : List Event} (hp : parseProgram stream = .ok p)
    (hr : resolve p (globalNames data) = .ok resolution) (hh : around.host.Describes programs)
    (hpast : store.Records past) :
    let run := p.trace around programs resolution data store
    let left := run.2.1.release store.scopes.size
    p.render around data store = (run.1.mapError Stop.failure, left) ∧
      (∀ u, .use u ∈ run.2.2 →
        (∃ c ∈ keptFunctions data store, ¬c.LeftBy p past store ∧
          ∃ d, u.store.ancestor? u.scope d = some c.scope) ∨
          ∃ v ∈ p.visits (globalNames data),
            (∀ w ∈ p.visits (globalNames data), w.node = u.node → w = v) ∧
              u.Agrees v resolution store.scopes.size (run.2.2 ++ past)) ∧
      left.Records (run.2.2 ++ past) ∧
      ((∀ c ∈ keptFunctions data store, c.LeftBy p past store) →
        ∀ c ∈ keptFunctions data left, c.LeftBy p (run.2.2 ++ past) left) := by
  intro run left
  have hn := parseProgram_numbered hp
  let ctx := context around resolution store
  have ha : (Traced.apply ctx programs around.depth).Safe (p.scene past data store) :=
    Traced.apply_safe hh around.depth
  have hf : Run.FieldsKnown ctx.host := hh.fields
  obtain ⟨hsound, hlater, -⟩ := Traced.execAll_safe hf ha p.body _ [] [] _ [] []
    (.inr ⟨(start_matches data store).mono (.refl _) (fun _ => nofun), fun _ h => h⟩)
    (start_sound p data hpast)
  have hgrows : store.Grows run.2.1 := (grows_startStore data store).trans hlater.grows
  refine ⟨(render_eq_run hr).trans (run_eq_trace hh p resolution data store), fun u hu => ?_,
    hsound.records.mono (Nat.le_of_eq (Store.size_release _ _).symm),
    fun hkept c hc => left_of_sound hsound hkept hgrows hc⟩
  obtain ⟨around', locals, hinside | ⟨hm, hv⟩⟩ := hsound.uses u hu
  · obtain ⟨d, _, ha, c, hc, hleft, rfl⟩ := hinside
    exact .inl ⟨c, hc, hleft, d, ha⟩
  · have hmem : ⟨u.node, u.name, around', locals⟩ ∈ p.visits (globalNames data) := by
      rw [(resolve_ok hr).1]
      exact hv _ (List.mem_singleton_self _)
    refine .inr ⟨_, hmem, fun w hw he => ?_, agrees_of_matches hn hr hsound hmem hm⟩
    exact List.inj_on_of_nodup_map (visits_nodup hn hr) hw hmem he

def bareSurroundings : Surroundings := ⟨Host.none, ⟨.standard, none, default⟩, 1⟩

theorem bareSurroundings_describes :
    bareSurroundings.host.Describes fun _ _ => .done (.ok .null) :=
  ⟨fun _ _ _ => rfl, fun _ _ _ _ => Value.within_null, fun _ => ⟨nofun, nofun⟩⟩

def hosting (f : List Value → NativeProgram) : Surroundings :=
  { bareSurroundings with
    host := { Host.none with functions := fun _ invoke args => (f args).run invoke }, depth := 2 }

def hostData : List (String × Value) := [("f", .native (.host ⟨0, "f", .exactly 1⟩))]

/-- The last use of a name in a run without a host. -/
def lastUse? (p : Program) (data : List (String × Value)) (store : Store) :
    Option (Resolution × Use) := do
  let r ← (resolve p (globalNames data)).toOption
  let event ← (p.trace bareSurroundings (fun _ _ => .done (.ok .null)) r data store).2.2.head?
  event.use?.map fun u => (r, u)

theorem of_lastUse? {data : List (String × Value)} {store : Store} {r : Resolution} {u : Use}
    (h : lastUse? p data store = some (r, u)) :
    resolve p (globalNames data) = .ok r ∧
      .use u ∈ (p.trace bareSurroundings (fun _ _ => .done (.ok .null)) r data store).2.2 := by
  obtain ⟨r', hr, h⟩ := Option.bind_eq_some_iff.mp h
  obtain ⟨event, he, h⟩ := Option.bind_eq_some_iff.mp h
  obtain ⟨u', hu, h⟩ := Option.map_eq_some_iff.mp h
  cases h
  refine ⟨ok_of_toOption hr, ?_⟩
  rw [← Event.eq_of_use? hu]
  exact List.mem_of_head? he

/-- A function that outlives its variable:
`{if m.f == null}{var y = 1}{do m.f = x -> y}{end}{do m.f(1)}`. -/
def keptFunction : TemplateStream where
  items := [.group 0, .group 1, .group 2, .group 3, .group 4]
  groups := #[
    group .ifTrue [⟨.keyword .ifTrue, "if", ⟨1, 3⟩, none⟩,
      ⟨.identifier, "m", ⟨4, 5⟩, none⟩, ⟨.dot, ".", ⟨5, 6⟩, none⟩,
      ⟨.identifier, "f", ⟨6, 7⟩, none⟩, ⟨.equalEqual, "==", ⟨8, 10⟩, none⟩,
      ⟨.keyword .null, "null", ⟨11, 15⟩, none⟩],
    group .placeholder [⟨.keyword .declare, "var", ⟨17, 20⟩, none⟩,
      ⟨.identifier, "y", ⟨21, 22⟩, none⟩, ⟨.equal, "=", ⟨23, 24⟩, none⟩,
      ⟨.number, "1", ⟨25, 26⟩, some (.int 1)⟩],
    group .run [⟨.keyword .run, "do", ⟨28, 30⟩, none⟩,
      ⟨.identifier, "m", ⟨31, 32⟩, none⟩, ⟨.dot, ".", ⟨32, 33⟩, none⟩,
      ⟨.identifier, "f", ⟨33, 34⟩, none⟩, ⟨.equal, "=", ⟨35, 36⟩, none⟩,
      ⟨.identifier, "x", ⟨37, 38⟩, none⟩, ⟨.arrow, "->", ⟨39, 41⟩, none⟩,
      ⟨.identifier, "y", ⟨42, 43⟩, none⟩],
    group .finish [⟨.keyword .finish, "end", ⟨45, 48⟩, none⟩],
    group .run [⟨.keyword .run, "do", ⟨50, 52⟩, none⟩,
      ⟨.identifier, "m", ⟨53, 54⟩, none⟩, ⟨.dot, ".", ⟨54, 55⟩, none⟩,
      ⟨.identifier, "f", ⟨55, 56⟩, none⟩, ⟨.leftParen, "(", ⟨56, 57⟩, none⟩,
      ⟨.number, "1", ⟨57, 58⟩, some (.int 1)⟩, ⟨.rightParen, ")", ⟨58, 59⟩, none⟩]]
where
  group (kind : GroupKind) (tokens : List Token) : Group :=
    ⟨⟨.opening, "\x7b", .point 0, none⟩ :: tokens ++ [⟨.closing, "\x7d", .point 0, none⟩], kind,
      .point 0, .auto, .both, false, none⟩

def loneMap : Store := { Store.empty with maps := #[.empty] }

def keptData : List (String × Value) := [("m", .map 0)]

/-- Two runs in a row. The function is called after its block has ended, and then once more in the
next run. -/
theorem render_agrees_keptFunction :
    ∃ p resolution u u', parseProgram keptFunction = .ok p ∧
      resolve p (globalNames keptData) = .ok resolution ∧
      let run := p.trace bareSurroundings (fun _ _ => .done (.ok .null)) resolution keptData
      let left := (p.render bareSurroundings keptData loneMap).2
      (.use u ∈ (run loneMap).2.2 ∧ u.name = "y" ∧ resolution.get? u.node = some 1 ∧
        ∃ v ∈ p.visits (globalNames keptData),
          u.Agrees v resolution loneMap.scopes.size ((run loneMap).2.2 ++ [])) ∧
      (.use u' ∈ (run left).2.2 ∧ u'.name = "y" ∧ resolution.get? u'.node = some 1 ∧
        ∃ v ∈ p.visits (globalNames keptData),
          u'.Agrees v resolution left.scopes.size ((run left).2.2 ++ ((run loneMap).2.2 ++ []))) := by
  have hlast : ((parseProgram keptFunction).toOption.bind fun p =>
      (lastUse? p keptData loneMap).bind fun first =>
        (lastUse? p keptData (p.render bareSurroundings keptData loneMap).2).map fun next =>
          ((first.2.name, first.1.get? first.2.node), next.2.name, next.1.get? next.2.node)) =
        some (("y", some 1), "y", some 1) := by
    decide +kernel
  obtain ⟨p, hp, hlast⟩ := Option.bind_eq_some_iff.mp hlast
  obtain ⟨⟨r, u⟩, hfirst, hlast⟩ := Option.bind_eq_some_iff.mp hlast
  obtain ⟨⟨r', u'⟩, hnext, huses⟩ := Option.map_eq_some_iff.mp hlast
  simp only [Prod.mk.injEq] at huses
  obtain ⟨⟨hname, hnode⟩, hname', hnode'⟩ := huses
  obtain ⟨hr, hm⟩ := of_lastUse? hfirst
  obtain ⟨hr', hm'⟩ := of_lastUse? hnext
  obtain rfl := Except.ok.inj (hr.symm.trans hr')
  have hp := ok_of_toOption hp
  have hempty : loneMap.Records [] := ⟨nofun, nofun⟩
  have hnone : keptFunctions keptData loneMap = [] := rfl
  obtain ⟨hrun, hagrees, hrecords, hleft⟩ := render_agrees hp hr bareSurroundings_describes hempty
  rw [hnone] at hagrees hleft
  have hback := congrArg Prod.snd hrun
  dsimp only at hback
  rw [← hback] at hrecords hleft
  obtain ⟨-, hagrees', -, -⟩ := render_agrees hp hr bareSurroundings_describes hrecords
  obtain ⟨c, hc, -⟩ | ⟨v, hv, -, ha⟩ := hagrees u hm
  · cases hc
  obtain ⟨c, hc, hother, -⟩ | ⟨v', hv', -, ha'⟩ := hagrees' u' hm'
  · exact absurd (hleft nofun c hc) hother
  exact ⟨p, r, u, u', hp, hr, ⟨hm, hname, hnode, v, hv, ha⟩, hm', hname', hnode', v', hv', ha'⟩

/-- A variable, and a function that reads it: `{if true}{var x = 1}{f(y -> x)}{x}{end}`. -/
def shownFunction : TemplateStream where
  items := [.group 0, .group 1, .group 2, .group 3, .group 4]
  groups := #[
    keptFunction.group .ifTrue [⟨.keyword .ifTrue, "if", ⟨1, 3⟩, none⟩,
      ⟨.keyword .true, "true", ⟨4, 8⟩, none⟩],
    keptFunction.group .placeholder [⟨.keyword .declare, "var", ⟨10, 13⟩, none⟩,
      ⟨.identifier, "x", ⟨14, 15⟩, none⟩, ⟨.equal, "=", ⟨16, 17⟩, none⟩,
      ⟨.number, "1", ⟨18, 19⟩, some (.int 1)⟩],
    keptFunction.group .placeholder [⟨.identifier, "f", ⟨21, 22⟩, none⟩,
      ⟨.leftParen, "(", ⟨22, 23⟩, none⟩, ⟨.identifier, "y", ⟨23, 24⟩, none⟩,
      ⟨.arrow, "->", ⟨25, 27⟩, none⟩, ⟨.identifier, "x", ⟨28, 29⟩, none⟩,
      ⟨.rightParen, ")", ⟨29, 30⟩, none⟩],
    keptFunction.group .placeholder [⟨.identifier, "x", ⟨32, 33⟩, none⟩],
    keptFunction.group .finish [⟨.keyword .finish, "end", ⟨35, 38⟩, none⟩]]

/-- Data with a function of another program, which has left the number of its body and an empty
scope. -/
def strayData (body : Expr) : List (String × Value) := [("f", .function ⟨["x"], body, 0⟩)]

def strayStore : Store := { Store.empty with scopes := #[⟨.empty, none⟩] }

def emptyScope : List Value → NativeProgram
  | .function c :: _ => .change (·.clearChain c.scope) fun _ => .done (.ok .null)
  | _ => .done (.ok .null)

/-- Calls a function that it makes up: its argument, as if made in the first of all scopes. -/
def callOutside : List Value → NativeProgram
  | .function c :: _ => .call (.function { c with scope := 0 }) [.null] .done
  | _ => .done (.ok .null)

/-- A rendering fails since a variable is not defined. The resolver has found the name wherever it
is used, and it is not used in its own initializer. -/
def Misses (source : TemplateStream) (around : Surroundings) (data : List (String × Value))
    (store : Store) (name : String) : Prop :=
  ∃ p resolution span, parseProgram source = .ok p ∧
    resolve p (globalNames data) = .ok resolution ∧
    (p.render around data store).1 =
      .error (.template ⟨.runtime, (RunCause.undefinedName name).message, span, name⟩) ∧
    ∀ v ∈ p.visits (globalNames data), v.name = name → (resolution.get? v.node).isSome ∧
      ∀ region ∈ v.around, ¬region.Initializes name v.node

def misses (source : TemplateStream) (around : Surroundings) (data : List (String × Value))
    (store : Store) (name : String) : Option Unit := do
  let p ← (parseProgram source).toOption
  let r ← (resolve p (globalNames data)).toOption
  match (p.render around data store).1 with
  | .error (.template e) =>
    if e = ⟨.runtime, (RunCause.undefinedName name).message, e.span, name⟩ ∧
        ∀ v ∈ p.visits (globalNames data), v.name = name →
          (r.get? v.node).isSome ∧ ∀ region ∈ v.around, v.node ∉ region.initialized then
      some ()
    else none
  | _ => none

theorem Misses.of_misses {source : TemplateStream} {around : Surroundings}
    {data : List (String × Value)} {store : Store} {name : String}
    (h : misses source around data store name = some ()) :
    Misses source around data store name := by
  obtain ⟨p, hp, h⟩ := Option.bind_eq_some_iff.mp h
  obtain ⟨resolution, hr, h⟩ := Option.bind_eq_some_iff.mp h
  split at h
  · rename_i e he
    obtain ⟨⟨hfault, hfound⟩, -⟩ := Option.ite_none_right_eq_some.mp h
    rw [hfault] at he
    refine ⟨p, resolution, e.span, ok_of_toOption hp, ok_of_toOption hr, he, fun v hv hx => ?_⟩
    obtain ⟨hsome, hout⟩ := hfound v hv hx
    exact ⟨hsome, fun region hm hi => hout region hm hi.mem_initialized⟩
  · cases h

/-- A name that the resolver has found is not bound where it is read: in a function that an earlier
run has left in a map, in a function of another program, when a host function empties a scope, and
when it makes a function up. -/
theorem render_misses :
    (∃ p, parseProgram keptFunction = .ok p ∧
      Misses keptFunction bareSurroundings keptData
        (p.render bareSurroundings keptData loneMap).2 "y") ∧
      (∃ p, parseProgram shownFunction = .ok p ∧
        ∃ e ∈ p.nodes, Misses shownFunction bareSurroundings (strayData e) strayStore "x") ∧
      Misses shownFunction (hosting emptyScope) hostData .empty "x" ∧
      Misses shownFunction (hosting callOutside) hostData .empty "x" := by
  have hkept : ((parseProgram keptFunction).toOption.bind fun p =>
      misses keptFunction bareSurroundings keptData
        (p.render bareSurroundings keptData loneMap).2 "y") = some () := by
    decide +kernel
  have hstray : ((parseProgram shownFunction).toOption.map fun p => p.nodes.any fun e =>
      (misses shownFunction bareSurroundings (strayData e) strayStore "x").isSome) = some true := by
    decide +kernel
  obtain ⟨p, hp, hkept⟩ := Option.bind_eq_some_iff.mp hkept
  obtain ⟨p', hp', hstray⟩ := Option.map_eq_some_iff.mp hstray
  obtain ⟨e, he, hstray⟩ := List.any_eq_true.mp hstray
  obtain ⟨⟨⟩, hstray⟩ := Option.isSome_iff_exists.mp hstray
  exact ⟨⟨p, ok_of_toOption hp, .of_misses hkept⟩, ⟨p', ok_of_toOption hp', e, he,
    .of_misses hstray⟩, .of_misses (by decide +kernel), .of_misses (by decide +kernel)⟩

end Program

end DocTemplate
