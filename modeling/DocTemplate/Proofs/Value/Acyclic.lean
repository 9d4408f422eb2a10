import Mathlib.Logic.Relation
import Mathlib.Order.WellFoundedSet
import DocTemplate.Proofs.Run.Legal
import DocTemplate.Proofs.Value.Comparison

namespace DocTemplate

open Relation

variable {known : Closure → Prop} {s s' : Store} {v w : Value} {n c d : Nat}

inductive Value.Mentions (cell : Nat) : Value → Prop
  | map : Mentions cell (.map cell)
  | list {items : List Value} {v : Value} (hv : v ∈ items) (h : Mentions cell v) :
    Mentions cell (.list items)

namespace Store

def Holds (s : Store) (c d : Nat) : Prop := ∃ e ∈ (s.entries c).toList, e.2.Mentions d

/-- No map holds itself, be it through other maps. -/
def Acyclic (s : Store) : Prop := ∀ c, ¬TransGen s.Holds c c

end Store

/-- The map stands in the value, be it in other maps. -/
def Value.LeadsTo (s : Store) (v : Value) (c : Nat) : Prop :=
  ∃ d, v.Mentions d ∧ ReflTransGen s.Holds d c

theorem Value.Legal.lt_of_mentions (h : v.Legal known n) (hd : v.Mentions d) : d < n := by
  induction hd with
  | map =>
    cases h with
    | map hlt => exact hlt
  | list hv _ ih =>
    cases h with
    | list hl => exact ih (hl _ hv)

namespace Store

theorem lt_size_of_mem_entries {e : String × Value} (h : e ∈ (s.entries c).toList) :
    c < s.maps.size := by
  refine Nat.lt_of_not_le fun hle => ?_
  rw [entries, Array.getD_eq_getD_getElem?, Array.getElem?_eq_none hle] at h
  cases h

theorem entries_eq_of_maps_eq (h : s'.maps[c]? = s.maps[c]?) : s'.entries c = s.entries c := by
  rw [entries, entries, Array.getD_eq_getD_getElem?, Array.getD_eq_getD_getElem?, h]

theorem holds_iff_of_maps_eq (h : s'.maps[c]? = s.maps[c]?) : s'.Holds c d ↔ s.Holds c d := by
  rw [Holds, Holds, entries_eq_of_maps_eq h]

theorem Holds.lt_size (h : s.Holds c d) : c < s.maps.size :=
  h.elim fun _ he => lt_size_of_mem_entries he.1

theorem Legal.lt_of_holds (hs : s.Legal known) (h : s.Holds c d) : d < s.maps.size := by
  obtain ⟨e, he, hd⟩ := h
  exact (All.entries hs c e he).lt_of_mentions hd

/-- In an acyclic store, each map is built up in finitely many steps, by induction on the maps that
it holds. -/
theorem Acyclic.grounded_map (ha : s.Acyclic) (hs : s.Legal known) (hc : c < s.maps.size) :
    (Value.map c).Grounded s fun _ => True := by
  let below (d c : Nat) : Prop := TransGen s.Holds c d
  have hirrefl : Std.Irrefl below := ⟨ha⟩
  have htrans : IsTrans Nat below := ⟨fun _ _ _ h h' => TransGen.trans h' h⟩
  have horder : IsStrictOrder Nat below := { }
  have hwf : (Set.Iio s.maps.size).WellFoundedOn below := (Set.finite_Iio _).wellFoundedOn
  refine hwf.induction hc (P := fun c => (Value.map c).Grounded s fun _ => True)
    fun c hc ih => ?_
  refine .map hc fun e he => ?_
  have hheld : ∀ d, e.2.Mentions d → (Value.map d).Grounded s fun _ => True := fun d hd =>
    ih d ((All.entries hs c e he).lt_of_mentions hd) (.single ⟨e, he, hd⟩)
  have hlegal := All.entries hs c e he
  generalize e.2 = v at hheld hlegal
  induction hlegal with
  | @atom a _ => exact .atom (by cases a <;> trivial)
  | list _ ihv => exact .list fun v hv => ihv v hv fun d hd => hheld d (.list hv hd)
  | map _ => exact hheld _ .map

theorem Acyclic.grounded (ha : s.Acyclic) (hs : s.Legal known)
    (hv : v.Legal known s.maps.size) : v.Grounded s fun _ => True := by
  induction hv with
  | @atom a _ => exact .atom (by cases a <;> trivial)
  | list _ ih => exact .list ih
  | map hc => exact ha.grounded_map hs hc

theorem mapSnapshot?_le {P : Number → Prop} {depth : Nat} (more : Nat)
    (hc : (Value.map c).Grounded s P) {A : Snapshot} (hA : s.mapSnapshot? depth c = some A) :
    s.mapSnapshot? (depth + more) c = some A := by
  induction depth generalizing c A with
  | zero => cases hA
  | succ depth ih =>
    rw [Nat.add_right_comm]
    exact mapSnapshot?_mono hc (fun _ hd _ hB => ih hd hB) hA

theorem exists_snapshot? {P : Number → Prop} (hv : v.Grounded s P) :
    ∃ A, s.snapshot? v = some A := by
  obtain ⟨depth, hle, hstop⟩ := s.exists_depth P
  obtain ⟨more, hmore⟩ := Nat.exists_eq_add_of_le hle
  obtain ⟨A, hA⟩ := hv.exists_snapshot hstop
  refine ⟨A, ?_⟩
  rw [snapshot?, hmore]
  exact hv.snapshotWith_mono (fun c hc B hB => mapSnapshot?_le more hc hB) hA

end Store

section

variable {ofMap : Nat → Option Snapshot} {ofMaps : Nat → Nat → Option Bool}
mutual

theorem equalsWith_isSome
    (ho : ∀ c d A B, ofMap c = some A → ofMap d = some B → (ofMaps c d).isSome) :
    {v w : Value} → {A B : Snapshot} → v.snapshotWith ofMap = some A →
    w.snapshotWith ofMap = some B → (v.equalsWith ofMaps w).isSome
  | .atom _, .atom _, _, _, _, _ => rfl
  | .list vs, .list ws, _, _, hv, hw => by
    obtain ⟨as, rfl, has⟩ := Value.snapshotWith_list_iff.mp hv
    obtain ⟨bs, rfl, hbs⟩ := Value.snapshotWith_list_iff.mp hw
    rw [Value.equalsWith]
    split
    · exact allEqualWith_isSome ho has hbs
    · rfl
  | .map c, .map d, A, B, hv, hw => by
    rw [Value.equalsWith]
    split
    · rfl
    · exact ho c d A B hv hw
  | .atom _, .list _, _, _, _, _ | .atom _, .map _, _, _, _, _ | .list _, .atom _, _, _, _, _
  | .list _, .map _, _, _, _, _ | .map _, .atom _, _, _, _, _ | .map _, .list _, _, _, _, _ => rfl

theorem allEqualWith_isSome
    (ho : ∀ c d A B, ofMap c = some A → ofMap d = some B → (ofMaps c d).isSome) :
    {vs ws : List Value} → {as bs : List Snapshot} →
    List.Forall₂ (fun v A => v.snapshotWith ofMap = some A) vs as →
    List.Forall₂ (fun w B => w.snapshotWith ofMap = some B) ws bs →
    (Value.allEqualWith ofMaps vs ws).isSome
  | [], _, _, _, .nil, hws => by cases hws <;> rfl
  | _ :: _, [], _, _, .cons _ _, .nil => rfl
  | _ :: _, _ :: _, _, _, .cons hv hvs, .cons hw hws => by
    obtain ⟨b, hb⟩ := Option.isSome_iff_exists.mp (equalsWith_isSome ho hv hw)
    rw [Value.allEqualWith, hb]
    cases b with
    | false => rfl
    | true => exact allEqualWith_isSome ho hvs hws

end

end

theorem exists_of_mem_forall₂ {α β : Type} {R : α → β → Prop} {xs : List α} {ys : List β} {x : α}
    (h : List.Forall₂ R xs ys) (hx : x ∈ xs) : ∃ y, R x y := by
  obtain ⟨i, hi, rfl⟩ := List.getElem_of_mem hx
  exact ⟨_, h.get hi (h.length_eq ▸ hi)⟩

theorem allM_isSome {α : Type} {f : α → Option Bool} {xs : List α}
    (h : ∀ x ∈ xs, (f x).isSome) : (xs.allM f).isSome := by
  induction xs with
  | nil => rfl
  | cons x xs ih =>
    obtain ⟨hx, hxs⟩ := List.forall_mem_cons.mp h
    obtain ⟨b, hb⟩ := Option.isSome_iff_exists.mp hx
    rw [List.allM, hb]
    cases b with
    | false => rfl
    | true => exact ih hxs

namespace Store

theorem mapsEqual?_isSome {depth : Nat} (more : Nat) {A B : Snapshot}
    (hc : s.mapSnapshot? depth c = some A) (hd : s.mapSnapshot? depth d = some B) :
    (s.mapsEqual? (depth + more) c d).isSome := by
  induction depth generalizing c d A B with
  | zero => cases hc
  | succ depth ih =>
    obtain ⟨as, rfl, has⟩ := mapSnapshot?_succ_iff.mp hc
    obtain ⟨bs, rfl, hbs⟩ := mapSnapshot?_succ_iff.mp hd
    rw [Nat.add_right_comm, mapsEqual?]
    split
    · refine allM_isSome fun e he => ?_
      obtain ⟨key, x⟩ := e
      dsimp only
      split
      · rename_i y hy
        obtain ⟨e', -, hA⟩ := exists_of_mem_forall₂ hbs (mem_of_lookup hy)
        obtain ⟨e'', -, hB⟩ := exists_of_mem_forall₂ has he
        have hmaps : ∀ c d A B, s.mapSnapshot? depth c = some A → s.mapSnapshot? depth d = some B →
            (s.mapsEqual? (depth + more) c d).isSome := fun _ _ _ _ hc hd => ih hc hd
        exact equalsWith_isSome hmaps hA hB
      · rfl
    · rfl

/-- In an acyclic store, values have texts, and their comparison has an end. -/
theorem Acyclic.ends (ha : s.Acyclic) (hs : s.Legal known) (hv : v.Legal known s.maps.size)
    (hw : w.Legal known s.maps.size) :
    (s.text? v).isSome ∧ (s.outputText? v).isSome ∧ (s.equals? v w).isSome := by
  have hgv := ha.grounded hs hv
  have hgw := ha.grounded hs hw
  obtain ⟨shown, hshown⟩ := exists_snapshot? hgv
  refine ⟨?_, ?_, ?_⟩
  · rw [text?, hshown]
    rfl
  · rw [outputText?, hshown]
    rfl
  · obtain ⟨depth, hle, hstop⟩ := s.exists_depth fun _ => True
    obtain ⟨more, hmore⟩ := Nat.exists_eq_add_of_le (hle.trans (Nat.le_mul_self _))
    obtain ⟨A, hA⟩ := hgv.exists_snapshot hstop
    obtain ⟨B, hB⟩ := hgw.exists_snapshot hstop
    have hmaps : ∀ c d A B, s.mapSnapshot? depth c = some A → s.mapSnapshot? depth d = some B →
        (s.mapsEqual? (depth + more) c d).isSome := fun _ _ _ _ hc hd =>
      mapsEqual?_isSome more hc hd
    rw [equals?, hmore]
    exact equalsWith_isSome hmaps hA hB

end Store

namespace Store

theorem acyclic_of_maps_eq (h : s'.maps = s.maps) (ha : s.Acyclic) : s'.Acyclic := by
  have hholds : s'.Holds = s.Holds := by
    funext c d
    exact propext (holds_iff_of_maps_eq (by rw [h]))
  rw [Acyclic, hholds]
  exact ha

theorem Extends.transGen_of_lt (h : s.Extends known s') (hs : s.Legal known)
    (hc : c < s.maps.size) (hcd : TransGen s'.Holds c d) :
    TransGen s.Holds c d ∧ d < s.maps.size := by
  induction hcd with
  | single hd =>
    have hold := (holds_iff_of_maps_eq (h.maps c hc)).mp hd
    exact ⟨.single hold, hs.lt_of_holds hold⟩
  | tail _ hd ih =>
    have hold := (holds_iff_of_maps_eq (h.maps _ ih.2)).mp hd
    exact ⟨ih.1.tail hold, hs.lt_of_holds hold⟩

theorem Extends.lt_of_holds (h : s.Extends known s') (hc : s.maps.size ≤ c) (hcd : s'.Holds c d) :
    d < c := by
  obtain ⟨e, he, hd⟩ := hcd
  have hlt := lt_size_of_mem_entries he
  rw [entries, Array.getD_eq_getD_getElem?, Array.getElem?_eq_getElem hlt] at he
  exact (h.fresh c _ hc (Array.getElem?_eq_getElem hlt) e he).lt_of_mentions hd

theorem Extends.lt_of_transGen (h : s.Extends known s') (hs : s.Legal known)
    (hc : s.maps.size ≤ c) (hcd : TransGen s'.Holds c d) : d < c := by
  induction hcd with
  | single hd => exact h.lt_of_holds hc hd
  | @tail b d _ hd ih =>
    by_cases hb : b < s.maps.size
    · exact Nat.lt_of_lt_of_le (h.transGen_of_lt hs hb (.single hd)).2 hc
    · exact Nat.lt_trans (h.lt_of_holds (Nat.le_of_not_lt hb) hd) ih

theorem Extends.acyclic (h : s.Extends known s') (hs : s.Legal known) (ha : s.Acyclic) :
    s'.Acyclic := by
  intro c hcycle
  by_cases hc : c < s.maps.size
  · exact ha c (h.transGen_of_lt hs hc hcycle).1
  · exact Nat.lt_irrefl c (h.lt_of_transGen hs (Nat.le_of_not_lt hc) hcycle)

section

variable {cell : Nat} {key : String}

theorem entries_setEntry (hcell : cell < s.maps.size) :
    (s.setEntry cell key v).entries cell = (s.entries cell).insert key v := by
  rw [entries, entries, setEntry, Array.getD_eq_getD_getElem?, Array.getD_eq_getD_getElem?,
    Array.getElem?_modify, if_pos rfl, Array.getElem?_eq_getElem hcell]
  rfl

theorem holds_setEntry_of_ne (hc : cell ≠ c) :
    (s.setEntry cell key v).Holds c d ↔ s.Holds c d :=
  holds_iff_of_maps_eq (by rw [setEntry, Array.getElem?_modify, if_neg hc])

theorem holds_setEntry (h : (s.setEntry cell key v).Holds c d) :
    s.Holds c d ∨ c = cell ∧ v.Mentions d := by
  by_cases hc : cell = c
  · subst hc
    have hcell : cell < s.maps.size := by
      have hlt := h.lt_size
      rwa [setEntry, Array.size_modify] at hlt
    obtain ⟨e, he, hd⟩ := h
    rw [entries_setEntry hcell] at he
    cases Entries.mem_put he with
    | inl heq =>
      rw [heq] at hd
      exact .inr ⟨rfl, hd⟩
    | inr hm => exact .inl ⟨e, hm, hd⟩
  · exact .inl ((holds_setEntry_of_ne hc).mp h)

/-- A way through the maps does not use what was written, or it goes through the map to which it
was written. -/
theorem transGen_setEntry (h : TransGen (s.setEntry cell key v).Holds c d) :
    TransGen s.Holds c d ∨
      ReflTransGen (s.setEntry cell key v).Holds c cell ∧
        TransGen (s.setEntry cell key v).Holds cell d ∧ v.LeadsTo s d := by
  induction h with
  | single hd =>
    obtain hold | ⟨rfl, hv⟩ := holds_setEntry hd
    · exact .inl (.single hold)
    · exact .inr ⟨.refl, .single hd, _, hv, .refl⟩
  | tail hway hd ih =>
    obtain hold | ⟨rfl, hv⟩ := holds_setEntry hd
    · obtain h | ⟨hto, hfrom, b, hb, hbd⟩ := ih
      · exact .inl (h.tail hold)
      · exact .inr ⟨hto, hfrom.tail hd, b, hb, hbd.tail hold⟩
    · exact .inr ⟨hway.to_reflTransGen, .single hd, _, hv, .refl⟩

/-- To write a value to a map makes a circle only where the value leads to the map. -/
theorem Acyclic.setEntry (ha : s.Acyclic) (hv : ¬v.LeadsTo s cell) :
    (s.setEntry cell key v).Acyclic := by
  intro c hcycle
  obtain h | ⟨hto, hfrom, -⟩ := transGen_setEntry hcycle
  · exact ha c h
  · obtain h | ⟨-, -, h⟩ := transGen_setEntry (hfrom.trans_left hto)
    · exact ha cell h
    · exact hv h

/-- And there it does: the way back to the map may go through the map, but up to there it is as
before. -/
theorem not_acyclic_setEntry (hcell : cell < s.maps.size) (hv : v.LeadsTo s cell) :
    ¬(s.setEntry cell key v).Acyclic := by
  obtain ⟨d, hd, hway⟩ := hv
  have hback : ∀ a, ReflTransGen s.Holds a cell →
      ReflTransGen (s.setEntry cell key v).Holds a cell := by
    intro a h
    induction h using ReflTransGen.head_induction_on with
    | refl => exact .refl
    | @head a b hab _ ih =>
      by_cases ha : cell = a
      · rw [ha]
      · exact .head ((holds_setEntry_of_ne ha).mpr hab) ih
  have hfirst : (s.setEntry cell key v).Holds cell d := by
    refine ⟨(key, v), ?_, hd⟩
    rw [entries_setEntry hcell]
    have hget := Entries.get?_insert (s.entries cell) key key v
    rw [if_pos rfl] at hget
    exact mem_of_lookup hget
  exact fun h => h cell (.head' hfirst (hback d hway))

end

end Store

end DocTemplate
