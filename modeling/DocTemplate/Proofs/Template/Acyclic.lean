import Mathlib.Tactic.IntervalCases
import DocTemplate.Proofs.Template.Spared
import DocTemplate.Proofs.Value.Acyclic

namespace DocTemplate

variable {host : Host} {nodes : Expr → Prop} {s s' : Store} {steps first : List Step}

/-- The step writes to a map a value that leads to that map. -/
def Step.ClosesCircle : Step → Prop
  | .set a before _ =>
    a.succeeds = true ∧ ∃ cell, a.object = .map cell ∧ a.value.LeadsTo before cell
  | _ => False

/-- A step keeps an acyclic store acyclic just when it does not close a circle. -/
theorem Step.Lawful.acyclic_iff {step : Step} (h : step.Lawful host nodes)
    (hs : step.before.Legal (MadeOf nodes)) (ha : step.before.Acyclic) :
    step.after.Acyclic ↔ ¬step.ClosesCircle := by
  cases h with
  | give _ _ => exact iff_of_true ha id
  | other _ hext => exact iff_of_true (hext.acyclic hs ha) id
  | @set a before after _ hdone =>
    obtain ⟨hfails, rfl⟩ | ⟨hsucceeds, ⟨cell, hcell, rfl⟩ | ⟨ref, _, _, _, _, href, -, -, rfl⟩⟩ :=
      hdone.cases
    · refine iff_of_true ha fun hclose => ?_
      obtain ⟨hsucceeds, -⟩ := hclose
      rw [hfails] at hsucceeds
      cases hsucceeds
    · have hlt : cell < before.maps.size := by
        have hobject := hdone.object
        rw [hcell] at hobject
        exact hobject.lt_of_mentions .map
      constructor
      · rintro hacyclic ⟨-, other, hother, hleads⟩
        obtain rfl : cell = other := Value.map.inj (hcell.symm.trans hother)
        exact Store.not_acyclic_setEntry hlt hleads hacyclic
      · intro hopen
        exact Store.Acyclic.setEntry ha fun hleads => hopen ⟨hsucceeds, cell, hcell, hleads⟩
    · refine iff_of_true (Store.acyclic_of_maps_eq rfl ha) fun hclose => ?_
      obtain ⟨-, cell, hcell, -⟩ := hclose
      rw [href] at hcell
      cases hcell

/-- The stores of a course stay acyclic up to where a step closes a circle. -/
theorem Course.acyclic_iff (h : Course host nodes s steps s') (hs : s.Legal (MadeOf nodes))
    (ha : s.Acyclic) :
    (∀ step ∈ steps, step.after.Acyclic) ↔ ∀ step ∈ steps, ¬step.ClosesCircle := by
  obtain ⟨hlinked, hlawful⟩ := h
  induction steps generalizing s with
  | nil => simp
  | cons step steps ih =>
    obtain ⟨rfl, hlinked⟩ := hlinked
    obtain ⟨hstep, hlawful⟩ := List.forall_mem_cons.mp hlawful
    rw [List.forall_mem_cons, List.forall_mem_cons, hstep.acyclic_iff hs ha]
    refine and_congr_right fun hopen => ?_
    exact ih hstep.legal ((hstep.acyclic_iff hs ha).mpr hopen) hlinked hlawful

theorem Linked.exists_of_prefix (h : Linked s steps s') (hf : first <+: steps) :
    ∃ t, Linked s first t := by
  induction first generalizing s steps with
  | nil => exact ⟨s, rfl⟩
  | cons step first ih =>
    obtain ⟨rest, rfl⟩ := hf
    obtain ⟨hbefore, h⟩ := h
    obtain ⟨t, ht⟩ := ih h ⟨rest, rfl⟩
    exact ⟨t, hbefore, ht⟩

theorem Course.exists_of_prefix (h : Course host nodes s steps s') (hf : first <+: steps) :
    ∃ t, Course host nodes s first t := by
  obtain ⟨t, ht⟩ := h.linked.exists_of_prefix hf
  exact ⟨t, ht, fun step hm => h.lawful step (hf.subset hm)⟩

namespace Program

variable {p : Program} {around : Surroundings} {programs : Nat → List Value → NativeProgram}
variable {data : List (String × Value)} {store : Store}

/-- A rendering that starts with acyclic maps goes on with acyclic maps for as long as it assigns
to no map a value that leads to this map, directly or in lists and maps. Where it does so, there is
a circle. In each acyclic store that is reached, all values have texts and all comparisons have an
end, and the values that expressions give are among them. Host functions are taken to write over
nothing. -/
theorem renderIn_acyclic_iff (hp : ∀ e ∈ p.nodes, nodes e)
    (hh : around.host.Tame programs (MadeOf nodes) store.maps.size)
    (hs : store.Legal (MadeOf nodes))
    (hd : ∀ pair ∈ data, pair.2.Legal (MadeOf nodes) store.maps.size) (ha : store.Acyclic)
    (schedule : Schedule) :
    let steps := p.stepsIn schedule around programs data store
    Linked store steps (p.renderIn schedule around data store).2 ∧
      (∀ first, first <+: steps →
        ((∀ step ∈ first, step.after.Acyclic) ↔ ∀ step ∈ first, ¬step.ClosesCircle)) ∧
      (∀ step ∈ steps, step.after.Acyclic →
        ∀ v w : Value, v.Legal (MadeOf nodes) step.after.maps.size →
          w.Legal (MadeOf nodes) step.after.maps.size →
            (step.after.text? v).isSome ∧ (step.after.outputText? v).isSome ∧
              (step.after.equals? v w).isSome) ∧
      ∀ v s, .give v s ∈ steps → v.Legal (MadeOf nodes) s.maps.size := by
  intro steps
  have hcourse : Course around.host nodes store steps (p.renderIn schedule around data store).2 :=
    stepsIn_course hp hh hs hd schedule
  refine ⟨hcourse.linked, fun first hf => ?_, fun step hm hacyclic v w hv hw => ?_,
    fun v s hm => ?_⟩
  · obtain ⟨t, ht⟩ := hcourse.exists_of_prefix hf
    exact ht.acyclic_iff hs ha
  · exact hacyclic.ends (hcourse.lawful step hm).legal hv hw
  · cases hcourse.lawful _ hm with
    | give _ hv => exact hv

theorem not_closesCircle_of_atom {a : Assignment} {before after : Store}
    (h : ∃ atom, a.value = .atom atom) : ¬(Step.set a before after).ClosesCircle := by
  obtain ⟨atom, hvalue⟩ := h
  rintro ⟨-, cell, -, d, hd, -⟩
  rw [hvalue] at hd
  cases hd

def assignsAtom : Step → Bool
  | .set a _ _ =>
    match a.value with
    | .atom _ => true
    | _ => false
  | _ => true

theorem ordersStore_acyclic : ordersStore.Acyclic := by
  have hnone : ∀ c d, ¬ordersStore.Holds c d := by
    rintro c d ⟨e, he, hd⟩
    have hc : c < 2 := Store.lt_size_of_mem_entries he
    interval_cases c
    · cases he
    · obtain rfl := List.mem_singleton.mp he
      cases hd
  intro c hcycle
  obtain ⟨d, hd, -⟩ := Relation.TransGen.head'_iff.mp hcycle
  exact hnone c d hd

theorem renderIn_acyclic_iff_twoAssignments :
    ordersStore.Acyclic ∧
      ∀ step ∈ twoAssignments.stepsIn .inOrder bareSurroundings (fun _ _ => .done (.ok .null))
          ordersData ordersStore,
        step.after.Acyclic ∧ (0 < step.after.maps.size → (step.after.text? (.map 0)).isSome) := by
  have h := @renderIn_acyclic_iff (· ∈ twoAssignments.nodes) _ _ _ _ _ (fun _ he => he)
    bareSurroundings_tame ordersStore_legal ordersData_legal ordersStore_acyclic .inOrder
  have hatoms : (twoAssignments.stepsIn .inOrder bareSurroundings (fun _ _ => .done (.ok .null))
      ordersData ordersStore).all assignsAtom = true := by
    decide +kernel
  have hopen : ∀ step ∈ twoAssignments.stepsIn .inOrder bareSurroundings
      (fun _ _ => .done (.ok .null)) ordersData ordersStore, ¬step.ClosesCircle := by
    intro step hm
    have hatom := List.all_eq_true.mp hatoms step hm
    cases step with
    | set a before after =>
      refine not_closesCircle_of_atom ?_
      cases hv : a.value with
      | atom atom => exact ⟨atom, rfl⟩
      | _ => simp [assignsAtom, hv] at hatom
    | _ => exact id
  refine ⟨ordersStore_acyclic, fun step hm => ?_⟩
  have hacyclic := (h.2.1 _ (List.prefix_refl _)).mpr hopen step hm
  exact ⟨hacyclic, fun hlt => (h.2.2.1 step hm hacyclic _ _ (.map hlt) (.map hlt)).1⟩

/-- `{do m.self = m}` -/
def selfAssignment : Program where
  body := [.run (.set ⟨0, .point 0⟩ (.name ⟨1, .point 0⟩ (word "m")) (word "self")
    (.name ⟨2, .point 0⟩ (word "m")))]
  nodeCount := 3
where
  word (text : String) : Token := ⟨.identifier, text, .point 0, none⟩

/-- The map is empty before; then it holds itself and has no text. -/
theorem selfAssignment_circular :
    loneMap.Acyclic ∧
      ¬(selfAssignment.render bareSurroundings [("m", .map 0)] loneMap).2.Acyclic ∧
        (selfAssignment.render bareSurroundings [("m", .map 0)] loneMap).2.text? (.map 0) =
          none := by
  refine ⟨fun c hcycle => ?_, fun hacyclic => ?_, by decide +kernel⟩
  · obtain ⟨d, ⟨e, he, -⟩, -⟩ := Relation.TransGen.head'_iff.mp hcycle
    have hc : c < 1 := Store.lt_size_of_mem_entries he
    interval_cases c
    cases he
  · have hself : (((selfAssignment.render bareSurroundings [("m", .map 0)] loneMap).2.entries
        0).get? "self").bind Value.cell? = some 0 := by
      decide +kernel
    generalize (selfAssignment.render bareSurroundings [("m", .map 0)] loneMap).2 = left
      at hacyclic hself
    obtain ⟨v, hget, hcell⟩ := Option.bind_eq_some_iff.mp hself
    cases v with
    | map c =>
      obtain rfl : c = 0 := Option.some.inj hcell
      exact hacyclic 0 (.single ⟨_, mem_of_lookup hget, .map⟩)
    | _ => cases hcell

end Program

end DocTemplate
