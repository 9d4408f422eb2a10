import DocTemplate.Proofs.Run.Erasure
import DocTemplate.Proofs.Run.Parallel

namespace DocTemplate

def Atom.Belongs (s : Store) : Atom → Prop
  | .host object => object.cell < s.hosts.size
  | .function closure => closure.body.Steady ∧ closure.scope < s.scopes.size
  | .rewriter r => r.serial < s.rewriters
  | _ => True

inductive Value.Belongs (s : Store) : Value → Prop
  | atom {a : Atom} (h : a.Belongs s) : Belongs s (.atom a)
  | list {items : List Value} (h : ∀ v ∈ items, Belongs s v) : Belongs s (.list items)
  | map {cell : Nat} (h : cell < s.maps.size) : Belongs s (.map cell)

def AllBelong (s : Store) (pairs : List (String × Value)) : Prop :=
  ∀ pair ∈ pairs, pair.2.Belongs s

/-- All that the cells of the store name is in it. -/
structure Store.Closed (s : Store) : Prop where
  maps : ∀ entries ∈ s.maps, AllBelong s entries.toList
  hosts : ∀ object ∈ s.hosts, AllBelong s object.fields.toList
  names : ∀ scope ∈ s.scopes, AllBelong s scope.names.toList
  parents : ∀ scope ∈ s.scopes, ∀ outer, scope.parent = some outer → outer < s.scopes.size

variable {s : Store}

theorem Atom.Belongs.alike {a : Atom} (h : a.Belongs s) : a.Alike (.within s) a := by
  cases a with
  | host object => exact .host ⟨rfl, h⟩
  | function closure => exact .function h.1 ⟨rfl, h.2⟩
  | rewriter r => exact .rewriter ⟨rfl, h⟩
  | _ => exact .plain rfl

theorem Value.Belongs.alike {v : Value} (h : v.Belongs s) : v.Alike (.within s) v := by
  induction h with
  | atom h => exact .atom h.alike
  | list _ ih => exact .list (List.forall₂_same.mpr ih)
  | map h => exact .map ⟨rfl, h⟩

theorem AllBelong.alike {pairs : List (String × Value)} (h : AllBelong s pairs) :
    List.Forall₂ (Entry.Alike (.within s)) pairs pairs :=
  List.forall₂_same.mpr fun pair hp => ⟨rfl, (h pair hp).alike⟩

theorem Matching.below_holds {α : Type} {R : α → α → Prop} {xs : Array α}
    (h : ∀ x ∈ xs, R x x) : (below xs.size).Holds R xs xs := by
  rintro i _ ⟨rfl, hi⟩
  exact ⟨xs[i], xs[i], Array.getElem?_eq_getElem hi, Array.getElem?_eq_getElem hi,
    h _ (Array.getElem_mem hi)⟩

namespace Store

theorem Closed.alike (h : s.Closed) : s.Alike (.within s) s where
  maps := Matching.below_holds fun entries he => (h.maps entries he).alike
  hosts := Matching.below_holds fun object ho => ⟨rfl, (h.hosts object ho).alike⟩
  scopes := Matching.below_holds fun scope hs => by
    refine ⟨(h.names scope hs).alike, ?_⟩
    cases hp : scope.parent with
    | none => exact .none
    | some outer => exact .some ⟨rfl, h.parents scope hs outer hp⟩
  rewriters := by
    rintro m _ ⟨rfl, hm⟩
    exact ⟨hm, hm⟩

end Store

namespace Program

variable {p : Program} {around : Surroundings} {data : List (String × Value)} {store : Store}

theorem builtinNames_alike (ρ : Renaming) :
    List.Forall₂ (Entry.Alike ρ) builtinNames builtinNames :=
  List.forall₂_same.mpr fun pair hp => by
    obtain ⟨b, -, rfl⟩ := List.mem_map.mp hp
    exact ⟨rfl, .plain rfl⟩

/-- The store that a run starts with is like itself, and its scope of global names stands for
itself. -/
theorem startStore_alike (hs : store.Closed) (hd : AllBelong store data) :
    ∃ ρ : Renaming, ρ.scopes.rel store.scopes.size store.scopes.size ∧
      (startStore data store).Alike ρ (startStore data store) := by
  have hnew : ((Renaming.within store).addScope store store).scopes.rel store.scopes.size
      store.scopes.size := Matching.add_self _ _ _
  refine ⟨_, hnew, (hs.alike.newScope .none).defineAll hnew ?_⟩
  have hle := Renaming.le_addScope hs.alike
  exact List.rel_append (builtinNames_alike _) (hd.alike.imp fun _ _ he => he.mono hle)

theorem runIn_toOption (p : Program) (schedule : Schedule) (around : Surroundings)
    (resolution : Resolution) (data : List (String × Value)) (store : Store) :
    (p.runIn schedule around resolution data store).1.toOption =
      ((Run.execAllIn schedule (context around resolution store)
        (Run.apply (context around resolution store) around.depth) p.body store.scopes.size
        []).outcome (startStore data store)).1.toOption := by
  rw [runIn_eq]
  exact toOption_mapError Stop.failure

theorem runIn_inOrder (p : Program) (around : Surroundings) (resolution : Resolution)
    (data : List (String × Value)) (store : Store) :
    p.runIn .inOrder around resolution data store = p.run around resolution data store := by
  simp only [runIn, run, Run.execAllIn_inOrder]

/-- Rendering is the case where the turns of loops run one after another. -/
theorem renderIn_inOrder (p : Program) (around : Surroundings) (data : List (String × Value))
    (store : Store) : p.renderIn .inOrder around data store = p.render around data store := by
  simp only [renderIn, render, runIn_inOrder]

theorem renderIn_toOption (hp : ∀ part ∈ p.nodes, part.isChange = false)
    (hh : around.host.Pure) (hs : store.Closed) (hd : AllBelong store data)
    (schedule : Schedule) :
    (p.renderIn schedule around data store).1.toOption =
      (p.render around data store).1.toOption := by
  rw [renderIn, render]
  split
  · rename_i resolution _
    rw [← runIn_inOrder, runIn_toOption, runIn_toOption, Run.execAllIn_inOrder]
    obtain ⟨ρ, hg, hstart⟩ := startStore_alike hs hd
    let ctx := context around resolution store
    have hfits : Run.Fits ctx (Run.apply ctx around.depth) ρ ctx.globals ctx.globals :=
      ⟨Run.apply_respects hh around.depth ρ hg, hh.fields, hg, hg⟩
    exact ((Run.execAllIn_sameOutput schedule p.body hp hfits []).result_eq hstart).symm
  · rfl

/-- In whatever order the loops of a program without assignments run their turns, the program
writes the tokens that it writes when they run one after another, and it fails when it fails then.
Host functions are pure, and rewriters and the clock of the settings are so by what they are. A
run without an end counts as one that fails; where all turns have an end there is none. -/
theorem renderIn_agrees (hp : ∀ part ∈ p.nodes, part.isChange = false) (hh : around.host.Pure)
    (hs : store.Closed) (hd : AllBelong store data) (schedule : Schedule) :
    (∀ tokens, (p.renderIn schedule around data store).1 = .ok tokens ↔
        (p.render around data store).1 = .ok tokens) ∧
      ((∃ failure, (p.renderIn schedule around data store).1 = .error failure) ↔
        ∃ failure, (p.render around data store).1 = .error failure) := by
  have h := renderIn_toOption hp hh hs hd schedule
  revert h
  cases (p.renderIn schedule around data store).1 <;> cases (p.render around data store).1 <;>
    simp [Except.toOption]

end Program

def Schedule.backwards : Schedule :=
  ⟨fun _ count => (List.range count).reverse, fun _ _ => List.reverse_perm _⟩

namespace Program

/-- `{for table in tables}{for entry in table}{call(x -> x + 1, entry.value)}{end}{end}`. Each inner
loop makes maps for its entries, and each of their turns makes a function. -/
def nestedLoops : Program where
  body := [.forEach (word "table") (.name (site 0) (word "tables"))
    [.forEach (word "entry") (.name (site 1) (word "table"))
      [.expr (.call (site 2) (.name (site 3) (word "call")) (word "(")
        [.lambda (site 4) [word "x"]
          (.binary (site 5) (.binary (.arith .add)) (word "+") (.name (site 6) (word "x"))
            (.constant (site 7) (.literal (.int 1)))),
          .get (site 8) (.name (site 9) (word "entry")) (word "value") false])]]]
  nodeCount := 10
where
  site (node : Nat) : Site := ⟨node, .point 0⟩
  word (text : String) : Token := ⟨.identifier, text, .point 0, none⟩

def callingSurroundings : Surroundings :=
  ⟨⟨[], fun _ call args => args.head?.elim (pure .null) (call · args.tail), fun _ => .ok⟩,
    ⟨.standard, none, default⟩, 2⟩

theorem callingSurroundings_pure : callingSurroundings.host.Pure := by
  refine ⟨fun ρ number call args args' hc ha => ?_, nofun⟩
  cases ha with
  | nil => exact .pure (.plain rfl)
  | cons hf hrest => exact hc ρ (Renaming.le_refl ρ) _ _ _ _ hf hrest

def tablesStore : Store :=
  { Store.empty with
    maps := #[⟨[("a", .int 1), ("b", .int 2)]⟩, ⟨[("c", .int 3)]⟩] }

def tablesData : List (String × Value) :=
  [("tables", .list [.map 0, .map 1]), ("call", .native (.host ⟨0, "call", .between 1 4⟩))]

theorem tablesStore_closed : tablesStore.Closed where
  maps := by
    intro entries he pair hp
    simp only [tablesStore, List.mem_toArray, List.mem_cons, List.not_mem_nil, or_false] at he
    obtain rfl | rfl := he
    · simp only [List.mem_cons, List.not_mem_nil, or_false] at hp
      obtain rfl | rfl := hp
      · exact .atom trivial
      · exact .atom trivial
    · obtain rfl := List.mem_singleton.mp hp
      exact .atom trivial
  hosts := by simp [tablesStore, Store.empty]
  names := by simp [tablesStore, Store.empty]
  parents := by simp [tablesStore, Store.empty]

theorem tablesData_belong : AllBelong tablesStore tablesData := by
  intro pair hp
  simp only [tablesData, List.mem_cons, List.not_mem_nil, or_false] at hp
  obtain rfl | rfl := hp
  · refine .list fun v hv => ?_
    simp only [List.mem_cons, List.not_mem_nil, or_false] at hv
    obtain rfl | rfl := hv
    · exact .map (by decide)
    · exact .map (by decide)
  · exact .atom trivial

theorem renderIn_agrees_backwards :
    (∀ part ∈ nestedLoops.nodes, part.isChange = false) ∧ callingSurroundings.host.Pure ∧
      tablesStore.Closed ∧ AllBelong tablesStore tablesData ∧
        (nestedLoops.renderIn .backwards callingSurroundings tablesData tablesStore).1 =
          .ok [.text "2", .text "3", .text "4"] := by
  have hp : ∀ part ∈ nestedLoops.nodes, part.isChange = false := by decide +kernel
  have hseq : (nestedLoops.render callingSurroundings tablesData tablesStore).1 =
      .ok [.text "2", .text "3", .text "4"] := ok_of_toOption (by decide +kernel)
  have h := renderIn_agrees hp callingSurroundings_pure tablesStore_closed tablesData_belong
    .backwards
  exact ⟨hp, callingSurroundings_pure, tablesStore_closed, tablesData_belong, (h.1 _).mpr hseq⟩

end Program

end DocTemplate
