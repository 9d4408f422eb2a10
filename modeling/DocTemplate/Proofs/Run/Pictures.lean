import Mathlib.Data.Finset.Prod
import DocTemplate.Proofs.Run.Renaming
import DocTemplate.Value.Equality
import DocTemplate.Value.Text

namespace DocTemplate

section

variable {α β γ δ : Type} {R : α → β → Prop} {S : γ → δ → Prop}

def Leads (R : α → β → Prop) (x : Option α) (y : Option β) : Prop :=
  ∀ a, x = some a → ∃ b, y = some b ∧ R a b

namespace Leads

variable {x : Option α} {y : Option β}

theorem none : Leads R none y := nofun

theorem some {a : α} {b : β} (h : R a b) : Leads R (some a) (some b) := by
  intro a' ha
  obtain rfl := Option.some.inj ha
  exact ⟨b, rfl, h⟩

theorem bind {f : α → Option γ} {g : β → Option δ} (h : Leads R x y)
    (hf : ∀ a b, R a b → Leads S (f a) (g b)) : Leads S (x.bind f) (y.bind g) := by
  intro c hc
  obtain ⟨a, ha, hfa⟩ := Option.bind_eq_some_iff.mp hc
  obtain ⟨b, hb, hab⟩ := h a ha
  rw [hb]
  exact hf a b hab c hfa

theorem then_eq {y' : Option β} (h : Leads R x y) (h' : Leads (· = ·) y y') : Leads R x y' := by
  intro a ha
  obtain ⟨b, hb, hab⟩ := h a ha
  obtain ⟨b', hb', rfl⟩ := h' b hb
  exact ⟨b, hb', hab⟩

theorem rel (h : Leads R x y) (h' : Leads (fun _ _ => True) y x) : Option.Rel R x y := by
  cases x with
  | none =>
    cases y with
    | none => exact .none
    | some b =>
      obtain ⟨a, ha, -⟩ := h' b rfl
      cases ha
  | some a =>
    obtain ⟨b, rfl, hab⟩ := h a rfl
    exact .some hab

theorem trivial (h : Leads R x y) : Leads (fun _ _ => True) x y :=
  fun a ha => (h a ha).imp fun _ hb => ⟨hb.1, True.intro⟩

theorem mapM {f : α → Option γ} {g : β → Option δ} {xs : List α} {ys : List β}
    (h : List.Forall₂ R xs ys) (hf : ∀ a b, R a b → Leads S (f a) (g b)) :
    Leads (List.Forall₂ S) (xs.mapM f) (ys.mapM g) := by
  induction h with
  | nil => exact .some .nil
  | cons hab _ ih =>
    rw [List.mapM_cons, List.mapM_cons]
    exact (hf _ _ hab).bind fun c d hcd => ih.bind fun _ _ hrest => .some (.cons hcd hrest)

end Leads

variable {ι : Type} {f : Nat → ι → Option α} {C : Finset ι}

def foundWith (f : Nat → ι → Option α) (C : Finset ι) (fuel : Nat) : Finset ι :=
  C.filter fun i => (f fuel i).isSome

theorem mem_foundWith {fuel : Nat} {i : ι} :
    i ∈ foundWith f C fuel ↔ i ∈ C ∧ ∃ a, f fuel i = some a := by
  rw [foundWith, Finset.mem_filter, Option.isSome_iff_exists]

variable (h0 : ∀ i, f 0 i = none)
variable (step : ∀ m n, (∀ i ∈ C, Leads (· = ·) (f m i) (f n i)) →
  ∀ i ∈ C, Leads (· = ·) (f (m + 1) i) (f (n + 1) i))

include h0 step

theorem search_succ (m : Nat) : ∀ i ∈ C, Leads (· = ·) (f m i) (f (m + 1) i) := by
  induction m with
  | zero =>
    intro i _
    rw [h0]
    exact .none
  | succ m ih => exact step m (m + 1) ih

theorem search_mono {m n : Nat} (h : m ≤ n) {i : ι} (hi : i ∈ C) :
    Leads (· = ·) (f m i) (f n i) := by
  induction h with
  | refl => exact fun a ha => ⟨a, ha, rfl⟩
  | step _ ih => exact ih.then_eq (search_succ h0 step _ i hi)

theorem search_grows (m : Nat) :
    (foundWith f C m).card < (foundWith f C (m + 1)).card ∨
      ∀ i ∈ C, Leads (· = ·) (f (m + 1) i) (f m i) := by
  have hsub : foundWith f C m ⊆ foundWith f C (m + 1) := by
    intro i hi
    obtain ⟨hi, a, ha⟩ := mem_foundWith.mp hi
    obtain ⟨b, hb, -⟩ := search_succ h0 step m i hi a ha
    exact mem_foundWith.mpr ⟨hi, b, hb⟩
  by_cases hsup : foundWith f C (m + 1) ⊆ foundWith f C m
  · refine .inr fun i hi a ha => ?_
    obtain ⟨-, b, hb⟩ := mem_foundWith.mp (hsup (mem_foundWith.mpr ⟨hi, a, ha⟩))
    obtain ⟨c, hc, rfl⟩ := search_succ h0 step m i hi b hb
    exact ⟨b, hb, Option.some.inj (ha.symm.trans hc)⟩
  · exact .inl (Finset.card_lt_card ⟨hsub, hsup⟩)

theorem search_stops :
    ∃ k, k ≤ C.card ∧ ∀ i ∈ C, Leads (· = ·) (f (k + 1) i) (f k i) := by
  have hgrow : ∀ m, m ≤ (foundWith f C m).card ∨
      ∃ k, k < m ∧ ∀ i ∈ C, Leads (· = ·) (f (k + 1) i) (f k i) := by
    intro m
    induction m with
    | zero => exact .inl (Nat.zero_le _)
    | succ m ih =>
      obtain hm | ⟨k, hk, h⟩ := ih
      · obtain hlt | h := search_grows h0 step m
        · exact .inl (by omega)
        · exact .inr ⟨m, Nat.lt_succ_self m, h⟩
      · exact .inr ⟨k, by omega, h⟩
  obtain h | ⟨k, hk, h⟩ := hgrow (C.card + 1)
  · have hle : (foundWith f C (C.card + 1)).card ≤ C.card :=
      Finset.card_le_card (Finset.filter_subset _ C)
    omega
  · exact ⟨k, by omega, h⟩

/-- As much fuel as `C` has elements finds all that is to be found. -/
theorem search_settles {n : Nat} (hn : C.card ≤ n) (fuel : Nat) {i : ι} (hi : i ∈ C) :
    Leads (· = ·) (f fuel i) (f n i) := by
  obtain ⟨k, hk, hstop⟩ := search_stops h0 step
  have hstay : ∀ m, ∀ i ∈ C, Leads (· = ·) (f (k + m) i) (f k i) := by
    intro m
    induction m with
    | zero => exact fun i _ a ha => ⟨a, ha, rfl⟩
    | succ m ih => exact fun i hi => (step (k + m) k ih i hi).then_eq (hstop i hi)
  have hfuel : Leads (· = ·) (f fuel i) (f (k + fuel) i) :=
    search_mono h0 step (Nat.le_add_left fuel k) hi
  exact (hfuel.then_eq (hstay fuel i hi)).then_eq (search_mono h0 step (Nat.le_trans hk hn) hi)

end

variable {ρ : Renaming} {s t : Store} {v w : Value}

/-- A relation of pictures that looks at their parts only. -/
structure Snapshot.Congruence (ρ : Renaming) (R : Snapshot → Snapshot → Prop) : Prop where
  atom : ∀ a b, a.Alike ρ b → R (.atom a) (.atom b)
  list : ∀ ps qs, List.Forall₂ R ps qs → R (.list ps) (.list qs)
  map : ∀ ps qs, List.Forall₂ (fun p q : String × Snapshot => p.1 = q.1 ∧ R p.2 q.2) ps qs →
    R (.map ps) (.map qs)

section

variable {R : Snapshot → Snapshot → Prop} {ofMap ofMap' : Nat → Option Snapshot}
mutual

theorem snapshotWith_leads (hR : Snapshot.Congruence ρ R)
    (ho : ∀ c d, ρ.maps.rel c d → Leads R (ofMap c) (ofMap' d)) :
    {v w : Value} → v.Alike ρ w →
    Leads R (v.snapshotWith ofMap) (w.snapshotWith ofMap')
  | .atom _, _, .atom h => .some (hR.atom _ _ h)
  | .list _, _, .list h => by
    rw [Value.snapshotWith, Value.snapshotWith, Option.map_eq_bind, Option.map_eq_bind]
    exact (snapshotsWith_leads hR ho h).bind fun _ _ hps => .some (hR.list _ _ hps)
  | .map _, _, .map h => ho _ _ h

theorem snapshotsWith_leads (hR : Snapshot.Congruence ρ R)
    (ho : ∀ c d, ρ.maps.rel c d → Leads R (ofMap c) (ofMap' d)) :
    {vs ws : List Value} → List.Forall₂ (Value.Alike ρ) vs ws →
    Leads (List.Forall₂ R) (Value.snapshotsWith ofMap vs) (Value.snapshotsWith ofMap' ws)
  | [], _, .nil => .some .nil
  | _ :: _, _, .cons h hs =>
    (snapshotWith_leads hR ho h).bind fun _ _ hp =>
      (snapshotsWith_leads hR ho hs).bind fun _ _ hps => .some (.cons hp hps)

end

end

namespace Store

theorem entriesSnapshot_leads {R : Snapshot → Snapshot → Prop}
    {ofMap ofMap' : Nat → Option Snapshot} {e f : Entries Value}
    (hR : Snapshot.Congruence ρ R) (ho : ∀ c d, ρ.maps.rel c d → Leads R (ofMap c) (ofMap' d))
    (h : e.Alike ρ f) :
    Leads R
      ((e.toList.mapM fun pair : String × Value => (pair.2.snapshotWith ofMap).bind fun shown =>
        some (pair.1, shown)).bind fun entries => some (.map entries))
      ((f.toList.mapM fun pair : String × Value => (pair.2.snapshotWith ofMap').bind fun shown =>
        some (pair.1, shown)).bind fun entries => some (.map entries)) := by
  refine (Leads.mapM (S := fun p q => p.1 = q.1 ∧ R p.2 q.2) h fun p q hpq => ?_).bind
    fun ps qs hps => .some (hR.map ps qs hps)
  exact (snapshotWith_leads hR ho hpq.2).bind fun _ _ hshown => .some ⟨hpq.1, hshown⟩

theorem mapSnapshot_leads {R : Snapshot → Snapshot → Prop} (hR : Snapshot.Congruence ρ R)
    (h : s.Alike ρ t) (fuel : Nat) {c d : Nat} (hc : ρ.maps.rel c d) :
    Leads R (s.mapSnapshot? fuel c) (t.mapSnapshot? fuel d) := by
  induction fuel generalizing c d with
  | zero => exact .none
  | succ fuel ih => exact entriesSnapshot_leads hR (fun _ _ => ih) (h.entries hc)

end Store

theorem Atom.Alike.eq_of_onLeft {a b : Atom} (h : a.Alike ρ.onLeft b) : a = b := by
  cases h with
  | plain _ => rfl
  | host h => rw [h.1]
  | function _ h => rw [h.1]
  | rewriter h => rw [h.1]

theorem eq_of_forall₂_eq {α : Type} {xs ys : List α} (h : List.Forall₂ (· = ·) xs ys) : xs = ys :=
  List.forall₂_eq_eq_eq ▸ h

theorem Snapshot.congruence_eq (ρ : Renaming) : Congruence ρ.onLeft (· = ·) where
  atom _ _ h := by rw [h.eq_of_onLeft]
  list _ _ h := by rw [eq_of_forall₂_eq h]
  map _ _ h := by rw [eq_of_forall₂_eq (h.imp fun _ _ hp => Prod.ext hp.1 hp.2)]

namespace Store

open Classical in
noncomputable def partnered (ρ : Renaming) (s : Store) : Finset Nat :=
  (Finset.range s.maps.size).filter fun c => ∃ d, ρ.maps.rel c d

theorem mem_partnered (h : s.Alike ρ t) {c d : Nat} (hc : ρ.maps.rel c d) :
    c ∈ partnered ρ s := by
  classical
  exact Finset.mem_filter.mpr ⟨Finset.mem_range.mpr (h.maps.lt_left hc), d, hc⟩

theorem card_partnered_le (ρ : Renaming) (s : Store) : (partnered ρ s).card ≤ s.maps.size := by
  classical
  exact (Finset.card_filter_le _ _).trans_eq (Finset.card_range _)

theorem Alike.entries_onLeft (h : s.Alike ρ t) {c : Nat} (hc : c ∈ partnered ρ s) :
    (s.entries c).Alike ρ.onLeft (s.entries c) := by
  classical
  obtain ⟨d, hd⟩ := (Finset.mem_filter.mp hc).2
  exact (h.entries hd).onLeft

theorem mapSnapshot_settles (h : s.Alike ρ t) (fuel : Nat) {c d : Nat} (hc : ρ.maps.rel c d) :
    Leads (· = ·) (s.mapSnapshot? fuel c) (s.mapSnapshot? s.maps.size c) := by
  refine search_settles (fun _ => rfl) (fun m n hmn i hi => ?_) (card_partnered_le ρ s)
    fuel (mem_partnered h hc)
  refine entriesSnapshot_leads (Snapshot.congruence_eq ρ) ?_ (h.entries_onLeft hi)
  rintro c _ ⟨rfl, d, hd⟩
  exact hmn c (mem_partnered h hd)

theorem snapshot_leads {R : Snapshot → Snapshot → Prop} (hR : Snapshot.Congruence ρ R)
    (h : s.Alike ρ t) (hv : v.Alike ρ w) : Leads R (s.snapshot? v) (t.snapshot? w) :=
  snapshotWith_leads hR (fun _ _ hc =>
    (mapSnapshot_leads hR h s.maps.size hc).then_eq (mapSnapshot_settles h.symm _ hc)) hv

end Store

def Snapshot.SameText (p q : Snapshot) : Prop :=
  p.toText = q.toText ∧ p.outputText = q.outputText

theorem Atom.Alike.toText_eq {a b : Atom} (h : a.Alike ρ b) : a.toText = b.toText := by
  cases h <;> rfl

namespace Snapshot

theorem texts_eq {ps qs : List Snapshot} (h : List.Forall₂ SameText ps qs) :
    texts ps = texts qs := by
  induction h with
  | nil => rfl
  | cons hp _ ih => rw [texts, texts, hp.1, ih]

theorem entryTexts_eq {ps qs : List (String × Snapshot)}
    (h : List.Forall₂ (fun p q : String × Snapshot => p.1 = q.1 ∧ SameText p.2 q.2) ps qs) :
    entryTexts ps = entryTexts qs := by
  induction h with
  | nil => rfl
  | @cons p q _ _ hp _ ih =>
    obtain ⟨key, shown⟩ := p
    obtain ⟨key', shown'⟩ := q
    obtain ⟨rfl, hs⟩ : key = key' ∧ SameText shown shown' := hp
    rw [entryTexts, entryTexts, hs.1, ih]

theorem congruence_sameText (ρ : Renaming) : Congruence ρ SameText where
  atom a b h := by
    refine ⟨h.toText_eq, ?_⟩
    cases h with
    | plain _ => rfl
    | _ => rfl
  list ps qs h := by
    have he : toText (.list ps) = toText (.list qs) := by rw [toText, toText, texts_eq h]
    exact ⟨he, he⟩
  map ps qs h := by
    have he : toText (.map ps) = toText (.map qs) := by rw [toText, toText, entryTexts_eq h]
    exact ⟨he, he⟩

end Snapshot

namespace Store

theorem Alike.snapshot? (h : s.Alike ρ t) (hv : v.Alike ρ w) :
    Option.Rel Snapshot.SameText (s.snapshot? v) (t.snapshot? w) :=
  (snapshot_leads (Snapshot.congruence_sameText ρ) h hv).rel
    (snapshot_leads (Snapshot.congruence_sameText ρ.symm) h.symm hv.symm).trivial

theorem Alike.text? (h : s.Alike ρ t) (hv : v.Alike ρ w) : s.text? v = t.text? w :=
  rel_map_eq (h.snapshot? hv) fun _ _ hp => hp.1

theorem Alike.outputText? (h : s.Alike ρ t) (hv : v.Alike ρ w) :
    s.outputText? v = t.outputText? w :=
  rel_map_eq (h.snapshot? hv) fun _ _ hp => hp.2

theorem Alike.isTruthy (h : s.Alike ρ t) (hv : v.Alike ρ w) : s.isTruthy v = t.isTruthy w := by
  cases hv with
  | atom ha => cases ha <;> rfl
  | list hs => cases hs <;> rfl
  | map hc => exact congrArg (!·) (h.entries hc).isEmpty_eq

end Store

theorem Atom.Alike.equals_eq {a b c d : Atom} (h : a.Alike ρ b) (h' : c.Alike ρ d) :
    a.equals c = b.equals d := by
  cases h with
  | @plain a ha =>
    cases h' with
    | plain _ => rfl
    | _ => cases a <;> first | rfl | cases ha
  | host hc =>
    cases h' with
    | @plain c hc => cases c <;> first | rfl | cases hc
    | host hd => exact Matching.beq_eq hc hd
    | _ => rfl
  | function _ hm =>
    cases h' with
    | @plain c hc => cases c <;> first | rfl | cases hc
    | function _ hn =>
      simp only [Atom.equals, Closure.same, Matching.beq_eq hm hn]
    | _ => rfl
  | rewriter hm =>
    cases h' with
    | @plain c hc => cases c <;> first | rfl | cases hc
    | rewriter hn => exact Matching.beq_eq hm hn
    | _ => rfl

section

variable {ofMaps ofMaps' : Nat → Nat → Option Bool}
mutual

theorem equalsWith_leads (ho : ∀ c d c' d', ρ.maps.rel c d → ρ.maps.rel c' d' →
    Leads (· = ·) (ofMaps c c') (ofMaps' d d')) :
    {v w v' w' : Value} → v.Alike ρ w → v'.Alike ρ w' →
    Leads (· = ·) (v.equalsWith ofMaps v') (w.equalsWith ofMaps' w')
  | .atom _, _, _, _, .atom h, .atom h' => .some (h.equals_eq h')
  | .list _, _, _, _, .list h, .list h' => by
    rw [Value.equalsWith, Value.equalsWith, h.length_eq, h'.length_eq]
    split
    · exact allEqualWith_leads ho h h'
    · exact .some rfl
  | .map c, .map d, .map c', .map d', .map h, .map h' => by
    rw [Value.equalsWith, Value.equalsWith]
    have hiff : c = c' ↔ d = d' := by
      rw [← beq_iff_eq, Matching.beq_eq h h', beq_iff_eq]
    simp only [hiff]
    split
    · exact .some rfl
    · exact ho c d c' d' h h'
  | .atom _, _, _, _, .atom _, .list _ | .atom _, _, _, _, .atom _, .map _
  | .list _, _, _, _, .list _, .atom _ | .list _, _, _, _, .list _, .map _
  | .map _, _, _, _, .map _, .atom _ | .map _, _, _, _, .map _, .list _ => .some rfl

theorem allEqualWith_leads (ho : ∀ c d c' d', ρ.maps.rel c d → ρ.maps.rel c' d' →
    Leads (· = ·) (ofMaps c c') (ofMaps' d d')) :
    {vs ws vs' ws' : List Value} → List.Forall₂ (Value.Alike ρ) vs ws →
    List.Forall₂ (Value.Alike ρ) vs' ws' →
    Leads (· = ·) (Value.allEqualWith ofMaps vs vs') (Value.allEqualWith ofMaps' ws ws')
  | _ :: _, _, _, _, .cons h hs, .cons h' hs' => by
    rw [Value.allEqualWith, Value.allEqualWith]
    refine (equalsWith_leads ho h h').bind fun _ b hab => ?_
    subst hab
    split
    · exact allEqualWith_leads ho hs hs'
    · exact .some rfl
  | [], _, _, _, .nil, _ => by
    rw [Value.allEqualWith, Value.allEqualWith]
    · exact .some rfl
    · exact nofun
    · exact nofun
  | _ :: _, _, _, _, .cons _ _, .nil => .some rfl

end

end

namespace Store

theorem entriesEqual_leads {ofMaps ofMaps' : Nat → Nat → Option Bool} {e f e' f' : Entries Value}
    (ho : ∀ c d c' d', ρ.maps.rel c d → ρ.maps.rel c' d' →
      Leads (· = ·) (ofMaps c c') (ofMaps' d d'))
    (h : e.Alike ρ f) (h' : e'.Alike ρ f') :
    Leads (· = ·)
      (if e.size = e'.size then
        e.toList.allM fun (key, x) =>
          match e'.get? key with
          | some y => y.equalsWith ofMaps x
          | none => some false
      else some false)
      (if f.size = f'.size then
        f.toList.allM fun (key, x) =>
          match f'.get? key with
          | some y => y.equalsWith ofMaps' x
          | none => some false
      else some false) := by
  rw [h.size_eq, h'.size_eq]
  split
  · obtain ⟨pairs⟩ := e
    obtain ⟨pairs'⟩ := f
    change List.Forall₂ (Entry.Alike ρ) pairs pairs' at h
    change Leads _ (pairs.allM _) (pairs'.allM _)
    clear * - ho h h'
    induction h with
    | nil => exact .some rfl
    | @cons p q _ _ hp _ ih =>
      obtain ⟨key, x⟩ := p
      obtain ⟨key', y⟩ := q
      obtain ⟨rfl, hx⟩ : key = key' ∧ x.Alike ρ y := hp
      rw [List.allM, List.allM]
      refine Leads.bind (R := (· = ·)) ?_ fun a b hab => ?_
      · have hg := h'.get? key
        dsimp only
        generalize e'.get? key = found, f'.get? key = found' at hg ⊢
        cases hg with
        | none => exact .some rfl
        | some hy => exact equalsWith_leads ho hy hx
      · subst hab
        cases a with
        | true => exact ih
        | false => exact .some rfl
  · exact .some rfl

theorem mapsEqual_leads (h : s.Alike ρ t) (fuel : Nat) {c d c' d' : Nat} (hc : ρ.maps.rel c d)
    (hc' : ρ.maps.rel c' d') :
    Leads (· = ·) (s.mapsEqual? fuel c c') (t.mapsEqual? fuel d d') := by
  induction fuel generalizing c d c' d' with
  | zero => exact .none
  | succ fuel ih =>
    exact entriesEqual_leads (fun _ _ _ _ => ih) (h.entries hc) (h.entries hc')

theorem mapsEqual_settles (h : s.Alike ρ t) (fuel : Nat) {c d c' d' : Nat} (hc : ρ.maps.rel c d)
    (hc' : ρ.maps.rel c' d') :
    Leads (· = ·) (s.mapsEqual? fuel c c')
      (s.mapsEqual? (s.maps.size * s.maps.size) c c') := by
  have hcard : (partnered ρ s ×ˢ partnered ρ s).card ≤ s.maps.size * s.maps.size := by
    rw [Finset.card_product]
    exact Nat.mul_le_mul (card_partnered_le ρ s) (card_partnered_le ρ s)
  have hmem : (c, c') ∈ partnered ρ s ×ˢ partnered ρ s :=
    Finset.mk_mem_product (mem_partnered h hc) (mem_partnered h hc')
  refine search_settles (f := fun fuel (p : Nat × Nat) => s.mapsEqual? fuel p.1 p.2)
    (fun _ => rfl) (fun m n hmn p hp => ?_) hcard fuel hmem
  obtain ⟨h₁, h₂⟩ := Finset.mem_product.mp hp
  refine entriesEqual_leads ?_ (h.entries_onLeft h₁) (h.entries_onLeft h₂)
  rintro i _ j _ ⟨rfl, _, hi⟩ ⟨rfl, _, hj⟩
  exact hmn (i, j) (Finset.mk_mem_product (mem_partnered h hi) (mem_partnered h hj))

theorem equals_leads (h : s.Alike ρ t) {v' w' : Value} (hv : v.Alike ρ w) (hv' : v'.Alike ρ w') :
    Leads (· = ·) (s.equals? v v') (t.equals? w w') :=
  equalsWith_leads (fun _ _ _ _ hc hd =>
    (mapsEqual_leads h _ hc hd).then_eq (mapsEqual_settles h.symm _ hc hd)) hv hv'

theorem Alike.equals? (h : s.Alike ρ t) {v' w' : Value} (hv : v.Alike ρ w)
    (hv' : v'.Alike ρ w') : s.equals? v v' = t.equals? w w' :=
  rel_eq ((equals_leads h hv hv').rel (equals_leads h.symm hv.symm hv'.symm).trivial)

end Store

end DocTemplate
