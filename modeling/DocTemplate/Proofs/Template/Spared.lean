import DocTemplate.Proofs.Run.Course

namespace DocTemplate

variable {host : Host} {nodes : Expr → Prop} {s s' : Store} {steps : List Step}

/-- All maps and host objects are as they were; there may be more of them. -/
structure Store.Spares (s s' : Store) : Prop where
  maps : ∀ c < s.maps.size, s'.maps[c]? = s.maps[c]?
  hosts : ∀ c < s.hosts.size, s'.hosts[c]? = s.hosts[c]?

def Value.cell? : Value → Option Nat
  | .map cell => some cell
  | _ => none

namespace Step

def written? : Step → Option Value
  | set a _ _ => if a.succeeds then some a.object else none
  | _ => none

variable {step : Step}

theorem Lawful.maps_eq (h : step.Lawful host nodes) {c : Nat} (hc : c < step.before.maps.size)
    (hw : step.written? ≠ some (.map c)) : step.after.maps[c]? = step.before.maps[c]? := by
  cases h with
  | give _ _ => rfl
  | set _ ha =>
    refine ha.maps_eq c fun hs ho => hw ?_
    rw [written?, if_pos hs, ho]
  | other _ h => exact h.maps c hc

theorem Lawful.hosts_eq (h : step.Lawful host nodes) {c : Nat} (hc : c < step.before.hosts.size)
    (hw : ∀ ref : HostRef, ref.cell = c → step.written? ≠ some (.host ref)) :
    step.after.hosts[c]? = step.before.hosts[c]? := by
  cases h with
  | give _ _ => rfl
  | set _ ha =>
    refine ha.hosts_eq c fun hs ref ho hcell => hw ref hcell ?_
    rw [written?, if_pos hs, ho]
  | other _ h => exact h.hosts c hc

end Step

def written (steps : List Step) : List Value := steps.filterMap Step.written?

theorem not_mem_written_cons {v : Value} {step : Step} (h : v ∉ written (step :: steps)) :
    step.written? ≠ some v ∧ v ∉ written steps := by
  rw [written, List.mem_filterMap] at h
  refine ⟨fun hv => h ⟨step, List.mem_cons_self, hv⟩, fun hv => h ?_⟩
  obtain ⟨other, ho, hv⟩ := List.mem_filterMap.mp hv
  exact ⟨other, List.mem_cons_of_mem _ ho, hv⟩

theorem lt_size_of_getElem?_eq {α : Type} {xs ys : Array α} {c : Nat} (hc : c < xs.size)
    (h : ys[c]? = xs[c]?) : c < ys.size := by
  rw [Array.getElem?_eq_getElem hc] at h
  exact (Array.getElem?_eq_some_iff.mp h).1

namespace Course

theorem maps_eq (h : Course host nodes s steps s') {c : Nat} (hc : c < s.maps.size)
    (hw : .map c ∉ written steps) : s'.maps[c]? = s.maps[c]? := by
  obtain ⟨hlinked, hlawful⟩ := h
  induction steps generalizing s with
  | nil =>
    obtain rfl : s = s' := hlinked
    rfl
  | cons step steps ih =>
    obtain ⟨rfl, hlinked⟩ := hlinked
    obtain ⟨hstep, hlawful⟩ := List.forall_mem_cons.mp hlawful
    obtain ⟨hfirst, hrest⟩ := not_mem_written_cons hw
    have hsame := hstep.maps_eq hc hfirst
    exact (ih (lt_size_of_getElem?_eq hc hsame) hrest hlinked hlawful).trans hsame

theorem hosts_eq (h : Course host nodes s steps s') {c : Nat} (hc : c < s.hosts.size)
    (hw : ∀ ref : HostRef, ref.cell = c → .host ref ∉ written steps) :
    s'.hosts[c]? = s.hosts[c]? := by
  obtain ⟨hlinked, hlawful⟩ := h
  induction steps generalizing s with
  | nil =>
    obtain rfl : s = s' := hlinked
    rfl
  | cons step steps ih =>
    obtain ⟨rfl, hlinked⟩ := hlinked
    obtain ⟨hstep, hlawful⟩ := List.forall_mem_cons.mp hlawful
    have hsame := hstep.hosts_eq hc fun ref hr => (not_mem_written_cons (hw ref hr)).1
    exact (ih (lt_size_of_getElem?_eq hc hsame)
      (fun ref hr => (not_mem_written_cons (hw ref hr)).2) hlinked hlawful).trans hsame

theorem done (h : Course host nodes s steps s') {a : Assignment} {before after : Store}
    (hm : .set a before after ∈ steps) : a.Done host nodes before after := by
  cases h.lawful _ hm with
  | set _ ha => exact ha

theorem written_eq_nil (h : Course host nodes s steps s')
    (hn : ∀ e, nodes e → e.assignedProperty? = none) : written steps = [] := by
  refine List.filterMap_eq_nil_iff.mpr fun step hm => ?_
  cases step with
  | set a before after =>
    have ha := h.done hm
    have hnone := hn a.node ha.node
    rw [ha.property] at hnone
    cases hnone
  | _ => rfl

end Course

namespace Program

variable {p : Program} {around : Surroundings} {programs : Nat → List Value → NativeProgram}
variable {data : List (String × Value)} {store : Store}

/-- Whether a rendering succeeds or fails, a map or host object that was there before has the same
entries in the same order, or the same fields, unless an assignment to a property has written to
it. `nodes` are the expressions of the program and of template functions that the data hold; an
assignment is done by one of them, and one that fails changes nothing at all. Without such an
expression all maps and host objects stay as they are. Host functions are taken to write over
nothing; rewriters and setters give results and have no access to the store. -/
theorem renderIn_spares (hp : ∀ e ∈ p.nodes, nodes e)
    (hh : around.host.Tame programs (MadeOf nodes) store.maps.size)
    (hs : store.Legal (MadeOf nodes))
    (hd : ∀ pair ∈ data, pair.2.Legal (MadeOf nodes) store.maps.size) (schedule : Schedule) :
    let steps := p.stepsIn schedule around programs data store
    let left := (p.renderIn schedule around data store).2
    Linked store steps left ∧
      (∀ a before after, .set a before after ∈ steps →
        nodes a.node ∧ a.node.assignedProperty? = some a.name ∧
          (a.succeeds = false → after = before)) ∧
      (∀ c < store.maps.size, .map c ∉ written steps → left.maps[c]? = store.maps[c]?) ∧
      (∀ c < store.hosts.size, (∀ ref : HostRef, ref.cell = c → .host ref ∉ written steps) →
        left.hosts[c]? = store.hosts[c]?) ∧
      ((∀ e, nodes e → e.assignedProperty? = none) → store.Spares left) := by
  intro steps left
  have hcourse : Course around.host nodes store steps left := stepsIn_course hp hh hs hd schedule
  refine ⟨hcourse.linked, fun a before after hm => ?_, fun c hc => hcourse.maps_eq hc,
    fun c hc => hcourse.hosts_eq hc, fun hn => ?_⟩
  · have ha := hcourse.done hm
    refine ⟨ha.node, ha.property, fun hfails => ?_⟩
    obtain ⟨-, heq⟩ | ⟨hsucceeds, -⟩ := ha.cases
    · exact heq
    · rw [hfails] at hsucceeds
      cases hsucceeds
  · have hnil := hcourse.written_eq_nil hn
    refine ⟨fun c hc => hcourse.maps_eq hc ?_, fun c hc => hcourse.hosts_eq hc fun ref _ => ?_⟩
    · rw [hnil]
      exact List.not_mem_nil
    · rw [hnil]
      exact List.not_mem_nil

/-- `{do order.total = 1}{do missing.total = 2}`. When `missing` is null, the second assignment
fails. -/
def twoAssignments : Program where
  body := [assignment 0 "order" 1, assignment 3 "missing" 2]
  nodeCount := 6
where
  assignment (node : Nat) (object : String) (n : Int32) : Stmt :=
    .run (.set (site node) (.name (site (node + 1)) (word object)) (word "total")
      (.constant (site (node + 2)) (.literal (.int n))))
  site (node : Nat) : Site := ⟨node, .point 0⟩
  word (text : String) : Token := ⟨.identifier, text, .point 0, none⟩

def ordersStore : Store :=
  { Store.empty with maps := #[.empty, ⟨[("total", .int 3)]⟩] }

def ordersData : List (String × Value) :=
  [("order", .map 0), ("other", .map 1), ("missing", .null)]

theorem bareSurroundings_tame {known : Closure → Prop} {count : Nat} :
    bareSurroundings.host.Tame (fun _ _ => .done (.ok .null)) known count :=
  ⟨fun _ _ _ => rfl, fun _ _ _ _ _ => .atom nofun, fun _ _ => ⟨nofun, nofun⟩⟩

theorem ordersStore_legal {known : Closure → Prop} : ordersStore.Legal known := by
  refine ⟨fun i e he => ?_, fun i o ho => absurd ho (by simp [ordersStore, Store.empty]),
    fun i sc hs => absurd hs (by simp [ordersStore, Store.empty])⟩
  have hmem : e ∈ ordersStore.maps := Array.mem_of_getElem? he
  simp only [ordersStore, List.mem_toArray, List.mem_cons, List.not_mem_nil, or_false] at hmem
  obtain rfl | rfl := hmem
  · exact .empty
  · exact List.forall_mem_singleton.mpr (Value.CellFree.atom rfl).legal

theorem ordersData_legal {known : Closure → Prop} :
    ∀ pair ∈ ordersData, pair.2.Legal known ordersStore.maps.size := by
  intro pair hp
  simp only [ordersData, List.mem_cons, List.not_mem_nil, or_false] at hp
  obtain rfl | rfl | rfl := hp
  · exact .map (by decide)
  · exact .map (by decide)
  · exact (Value.CellFree.atom rfl).legal

/-- The rendering fails in its second assignment. The first one wrote to its map, and the other map
is as it was. -/
theorem renderIn_spares_twoAssignments :
    let result := twoAssignments.renderIn .inOrder bareSurroundings ordersData ordersStore
    result.1.isOk = false ∧
      ((result.2.entries 0).get? "total").isSome ∧ ((ordersStore.entries 0).get? "total") = none ∧
      result.2.maps[1]? = ordersStore.maps[1]? := by
  have hcells : (written (twoAssignments.stepsIn .inOrder bareSurroundings
      (fun _ _ => .done (.ok .null)) ordersData ordersStore)).map Value.cell? = [some 0] := by
    decide +kernel
  have hother : .map 1 ∉ written (twoAssignments.stepsIn .inOrder bareSurroundings
      (fun _ _ => .done (.ok .null)) ordersData ordersStore) := by
    intro hm
    have hcell := List.mem_map_of_mem (f := Value.cell?) hm
    rw [hcells] at hcell
    exact absurd hcell (by decide)
  have h := @renderIn_spares (· ∈ twoAssignments.nodes) _ _ _ _ _ (fun _ he => he)
    bareSurroundings_tame ordersStore_legal ordersData_legal .inOrder
  exact ⟨by decide +kernel, by decide +kernel, rfl, h.2.2.1 1 (by decide) hother⟩

end Program

end DocTemplate
