import DocTemplate.Proofs.Outcome
import DocTemplate.Proofs.Run.Keeping
import DocTemplate.Proofs.Run.Pictures

namespace DocTemplate

namespace Run

variable {α β γ δ : Type} {ρ : Renaming} {R : Renaming → α → β → Prop}
variable {S : Renaming → γ → δ → Prop} {x : Run α} {y : Run β}

/-- From alike stores, the two computations go to alike stores and give what is related, or stop
for the same reason. They may make new cells; what was there stays. -/
def Alike (ρ : Renaming) (x : Run α) (y : Run β) (R : Renaming → α → β → Prop) : Prop :=
  ∀ s t : Store, s.Alike ρ t →
    s.Kept none (x.outcome s).2 ∧ t.Kept none (y.outcome t).2 ∧
      ∃ ρ', ρ ≤ ρ' ∧ (x.outcome s).2.Alike ρ' (y.outcome t).2 ∧
        Results (R ρ') (x.outcome s).1 (y.outcome t).1

/-- Results that are the same, whatever cells there are. -/
abbrev Same (_ : Renaming) (a b : α) : Prop := a = b

namespace Alike

theorem still {r : Except Stop α} {q : Except Stop β} (h : Results (R ρ) r q)
    (hx : ∀ s, x.outcome s = (r, s)) (hy : ∀ s, y.outcome s = (q, s)) : Alike ρ x y R := by
  intro s t hst
  rw [hx, hy]
  exact ⟨.refl _ s, .refl _ t, ρ, Renaming.le_refl ρ, hst, h⟩

theorem pure {a : α} {b : β} (h : R ρ a b) : Alike ρ (Pure.pure a) (Pure.pure b) R :=
  .still (.ok h) (fun _ => rfl) fun _ => rfl

theorem throw (stop : Stop) :
    Alike ρ (throwThe Stop stop : Run α) (throwThe Stop stop : Run β) R :=
  .still (.error stop) (fun _ => rfl) fun _ => rfl

theorem raise (cause : RunCause) : Alike ρ (Run.raise cause : Run α) (Run.raise cause) R :=
  .throw _

theorem fail (token : Token) (cause : RunCause) :
    Alike ρ (Run.fail token cause : Run α) (Run.fail token cause) R :=
  .throw _

theorem ofExcept {r : Except RunCause α} {q : Except RunCause β} (h : Results (R ρ) r q) :
    Alike ρ (Run.ofExcept r) (Run.ofExcept q) R := by
  cases h with
  | ok h => exact .pure h
  | error cause => exact .raise cause

theorem bind {f : α → Run γ} {g : β → Run δ} (hx : Alike ρ x y R)
    (hf : ∀ ρ', ρ ≤ ρ' → ∀ a b, R ρ' a b → Alike ρ' (f a) (g b) S) :
    Alike ρ (x >>= f) (y >>= g) S := by
  intro s t hst
  obtain ⟨hs, ht, ρ₁, hρ₁, hst₁, hr⟩ := hx s t hst
  rw [outcome_bind, outcome_bind]
  revert hs ht hst₁ hr
  rcases x.outcome s with ⟨r, s₁⟩
  rcases y.outcome t with ⟨q, t₁⟩
  intro hs ht hst₁ hr
  cases hr with
  | error stop => exact ⟨hs, ht, ρ₁, hρ₁, hst₁, .error stop⟩
  | ok hab =>
    obtain ⟨hs', ht', ρ₂, hρ₂, hst₂, hr₂⟩ := hf ρ₁ hρ₁ _ _ hab s₁ t₁ hst₁
    exact ⟨hs.trans hs', ht.trans ht', ρ₂, Renaming.le_trans hρ₁ hρ₂, hst₂, hr₂⟩

theorem bind_same {x' : Run α} {f : α → Run γ} {g : α → Run δ} (hx : Alike ρ x x' Same)
    (hf : ∀ ρ', ρ ≤ ρ' → ∀ a, Alike ρ' (f a) (g a) S) : Alike ρ (x >>= f) (x' >>= g) S :=
  hx.bind fun ρ' hρ a b hab => by
    subst hab
    exact hf ρ' hρ a

theorem boundTo (token : Token) (h : Alike ρ x y R) :
    Alike ρ (Run.boundTo token x) (Run.boundTo token y) R := by
  intro s t hst
  obtain ⟨hs, ht, ρ₁, hρ₁, hst₁, hr⟩ := h s t hst
  rw [outcome_boundTo, outcome_boundTo]
  revert hs ht hst₁ hr
  rcases x.outcome s with ⟨r, s₁⟩
  rcases y.outcome t with ⟨q, t₁⟩
  intro hs ht hst₁ hr
  cases hr with
  | ok hab => exact ⟨hs, ht, ρ₁, hρ₁, hst₁, .ok hab⟩
  | error stop => cases stop <;> exact ⟨hs, ht, ρ₁, hρ₁, hst₁, .error _⟩

theorem read {f : Store → α} {g : Store → β} (h : ∀ s t : Store, s.Alike ρ t → R ρ (f s) (g t)) :
    Alike ρ (Run.read f) (Run.read g) R :=
  fun s t hst => ⟨.refl _ s, .refl _ t, ρ, Renaming.le_refl ρ, hst, .ok (h s t hst)⟩

theorem observe {f : Store → Option α} {g : Store → Option β}
    (h : ∀ s t : Store, s.Alike ρ t → Option.Rel (R ρ) (f s) (g t)) :
    Alike ρ (Run.observe f) (Run.observe g) R := by
  intro s t hst
  have hr := h s t hst
  rw [Run.observe, Run.observe, outcome_bind, outcome_bind, outcome_read, outcome_read]
  dsimp only
  generalize f s = a, g t = b at hr
  cases hr with
  | none => exact throw .endless s t hst
  | some hab => exact (pure hab) s t hst

theorem observe_eq {f g : Store → Option α} (h : ∀ s t : Store, s.Alike ρ t → f s = g t) :
    Alike ρ (Run.observe f) (Run.observe g) Same := by
  refine .observe fun s t hst => ?_
  rw [h s t hst]
  cases g t with
  | none => exact .none
  | some a => exact .some rfl

theorem update {f : Store → α × Store} {g : Store → β × Store}
    (hf : ∀ s : Store, s.Kept none (f s).2) (hg : ∀ t : Store, t.Kept none (g t).2)
    (h : ∀ s t : Store, s.Alike ρ t →
      ∃ ρ', ρ ≤ ρ' ∧ (f s).2.Alike ρ' (g t).2 ∧ R ρ' (f s).1 (g t).1) :
    Alike ρ (Run.update f) (Run.update g) R := by
  intro s t hst
  obtain ⟨ρ', hρ, hst', hr⟩ := h s t hst
  exact ⟨hf s, hg t, ρ', hρ, hst', .ok hr⟩

theorem newMap {e f : Entries Value} (h : e.Alike ρ f) :
    Alike ρ (Run.update fun s => s.newMap e) (Run.update fun t => t.newMap f) Value.Alike :=
  .update (fun s => s.newMap_kept e) (fun t => t.newMap_kept f) fun s t hst =>
    ⟨ρ.addMap s t, Renaming.le_addMap hst, hst.newMap h, .map (Matching.add_self _ _ _)⟩

theorem newRewriter (kind : RewriterKind) :
    Alike ρ (Run.update fun s => s.newRewriter kind) (Run.update fun t => t.newRewriter kind)
      Value.Alike :=
  .update (fun s => s.newRewriter_kept kind) (fun t => t.newRewriter_kept kind) fun s t hst =>
    ⟨ρ.addRewriter s t, Renaming.le_addRewriter hst, hst.newRewriter kind,
      .atom (.rewriter (Matching.add_self _ _ _))⟩

theorem innerScope {m n : Nat} (hm : ρ.scopes.rel m n) {names names' : List (String × Value)}
    (hp : List.Forall₂ (Entry.Alike ρ) names names') :
    Alike ρ (Run.innerScope m names) (Run.innerScope n names') fun ρ' => ρ'.scopes.rel := by
  refine .update (fun s => ?_) (fun t => ?_) fun s t hst => ?_
  · exact (s.newScope_kept (some m)).narrow (Nat.le_refl _) (Store.defineAll_kept _ _ _)
  · exact (t.newScope_kept (some n)).narrow (Nat.le_refl _) (Store.defineAll_kept _ _ _)
  · have hρ := Renaming.le_addScope hst
    have hnew : (ρ.addScope s t).scopes.rel s.scopes.size t.scopes.size :=
      Matching.add_self _ _ _
    exact ⟨ρ.addScope s t, hρ,
      (hst.newScope (.some hm)).defineAll hnew (hp.imp fun _ _ he => he.mono hρ), hnew⟩

theorem mapM {P : γ → δ → Prop} {f : γ → Run α} {g : δ → Run β} {xs : List γ} {ys : List δ}
    (hR : ∀ ρ ρ' : Renaming, ρ ≤ ρ' → ∀ a b, R ρ a b → R ρ' a b) (h : List.Forall₂ P xs ys)
    (hf : ∀ ρ', ρ ≤ ρ' → ∀ c d, P c d → Alike ρ' (f c) (g d) R) :
    Alike ρ (xs.mapM f) (ys.mapM g) fun ρ' => List.Forall₂ (R ρ') := by
  induction h generalizing ρ with
  | nil => exact .pure .nil
  | cons hcd _ ih =>
    rw [List.mapM_cons, List.mapM_cons]
    refine (hf ρ (Renaming.le_refl ρ) _ _ hcd).bind fun ρ₁ hρ₁ a b hab => ?_
    refine (ih fun ρ' hρ' => hf ρ' (Renaming.le_trans hρ₁ hρ')).bind fun ρ₂ hρ₂ as bs habs => ?_
    exact .pure (.cons (hR ρ₁ ρ₂ hρ₂ a b hab) habs)

end Alike

end Run

variable {ρ : Renaming} {v w v' w' : Value}

namespace Value

theorem Alike.typeName_eq (h : v.Alike ρ w) : v.typeName = w.typeName := by
  cases h with
  | atom h => cases h <;> rfl
  | _ => rfl

theorem Alike.isNull_eq (h : v.Alike ρ w) : v.isNull = w.isNull := by
  cases h with
  | atom h => cases h <;> rfl
  | _ => rfl

theorem Alike.isNumber_eq (h : v.Alike ρ w) : v.isNumber = w.isNumber := by
  cases h with
  | atom h => cases h <;> rfl
  | _ => rfl

theorem Alike.isDecimal_eq (h : v.Alike ρ w) : v.isDecimal = w.isDecimal := by
  cases h with
  | atom h => cases h <;> rfl
  | _ => rfl

theorem Alike.isCallable_eq (h : v.Alike ρ w) : v.isCallable = w.isCallable := by
  cases h with
  | atom h => cases h <;> rfl
  | _ => rfl

theorem Alike.isOrderable_eq (h : v.Alike ρ w) : v.isOrderable = w.isOrderable := by
  cases h with
  | atom h => cases h <;> rfl
  | _ => rfl

theorem Alike.str?_eq (h : v.Alike ρ w) : v.str? = w.str? := by
  cases h with
  | atom h => cases h <;> rfl
  | _ => rfl

theorem Alike.leastArgs?_eq (h : v.Alike ρ w) : Run.leastArgs? v = Run.leastArgs? w := by
  cases h with
  | atom h => cases h <;> rfl
  | _ => rfl

theorem exists_number_of_isNumber {v : Value} (h : v.isNumber) : ∃ n, v = number n := by
  unfold isNumber at h
  split at h
  · exact ⟨_, rfl⟩
  · cases h

end Value

theorem Atom.Alike.compare?_eq {a b c d : Atom} (h : a.Alike ρ b) (h' : c.Alike ρ d) :
    a.compare? c = b.compare? d := by
  cases h with
  | @plain a _ =>
    cases h' with
    | plain _ => rfl
    | _ => cases a <;> rfl
  | _ => cases h' <;> rfl

namespace Run

theorem Results.cellFree {ε : Type} {r q : Except ε Value} (h : r = q)
    (hv : ∀ v, r = .ok v → v.CellFree) : Results (Value.Alike ρ) r q :=
  h ▸ .self fun v hr => (hv v hr).alike

theorem negate_alike (h : v.Alike ρ w) :
    Alike ρ (ofExcept v.negate) (ofExcept w.negate) Value.Alike := by
  refine .ofExcept (Results.cellFree ?_ fun _ => Value.negate_cellFree)
  cases h with
  | atom h => cases h <;> rfl
  | _ => rfl

theorem concat_alike (h : v.Alike ρ w) (h' : v'.Alike ρ w') :
    Alike ρ (concat v v') (concat w w') Value.Alike := by
  refine .observe fun s t hst => ?_
  rw [hst.text? h, hst.text? h']
  cases t.text? w with
  | none => exact .none
  | some l =>
    cases t.text? w' with
    | none => exact .none
    | some r => exact .some (.plain rfl)

theorem arithmetic_alike (op : ArithOp) (h : v.Alike ρ w) (h' : v'.Alike ρ w') :
    Alike ρ (arithmetic op v v') (arithmetic op w w') Value.Alike := by
  by_cases hn : v.isNumber ∧ v'.isNumber
  · obtain ⟨a, rfl⟩ := Value.exists_number_of_isNumber hn.1
    obtain ⟨b, rfl⟩ := Value.exists_number_of_isNumber hn.2
    obtain rfl := h.plain_eq rfl
    obtain rfl := h'.plain_eq rfl
    exact .ofExcept (Results.cellFree rfl fun _ => Value.arithmetic_cellFree)
  · have hn' : ¬ (w.isNumber ∧ w'.isNumber) := by rwa [← h.isNumber_eq, ← h'.isNumber_eq]
    rw [arithmetic.eq_2 op v v' fun a b ha hb => hn ⟨by rw [ha]; rfl, by rw [hb]; rfl⟩,
      arithmetic.eq_2 op w w' fun a b ha hb => hn' ⟨by rw [ha]; rfl, by rw [hb]; rfl⟩,
      h.isDecimal_eq, h'.isDecimal_eq, h.isNull_eq, h'.isNull_eq, h.str?_eq, h'.str?_eq]
    split
    · exact .raise _
    · split
      · exact concat_alike h h'
      · exact .raise _

theorem equals_alike (h : v.Alike ρ w) (h' : v'.Alike ρ w') :
    Alike ρ (equals v v') (equals w w') Same :=
  .observe_eq fun _ _ hst => hst.equals? h h'

theorem compare_alike (h : v.Alike ρ w) (h' : v'.Alike ρ w') : v.compare v' = w.compare w' := by
  have hc : v.compare? v' = w.compare? w' := by
    cases h with
    | atom ha =>
      cases h' with
      | atom hb => exact ha.compare?_eq hb
      | _ => rfl
    | _ => rfl
  rw [Value.compare, Value.compare, hc, h.isOrderable_eq, h'.isNull_eq, h.typeName_eq,
    h'.typeName_eq]

theorem binary_alike (op : BinaryOp) (h : v.Alike ρ w) (h' : v'.Alike ρ w') :
    Alike ρ (binary op v v') (binary op w w') Value.Alike := by
  cases op with
  | arith op => exact arithmetic_alike op h h'
  | order op =>
    rw [binary, binary, compare_alike h h']
    exact .bind_same (.ofExcept (.self fun _ _ => rfl)) fun _ _ _ => .pure (.plain rfl)
  | eq | ne => exact (equals_alike h h').bind_same fun _ _ _ => .pure (.plain rfl)

theorem isTruthy_alike (h : v.Alike ρ w) : Alike ρ (isTruthy v) (isTruthy w) Same :=
  .read fun _ _ hst => hst.isTruthy h

theorem head?_alike {xs ys : List Value} (h : List.Forall₂ (Value.Alike ρ) xs ys) :
    (xs.head?.getD .null).Alike ρ (ys.head?.getD .null) := by
  cases h with
  | nil => exact .plain rfl
  | cons h _ => exact h

theorem listProperty?_alike {xs ys : List Value} (h : List.Forall₂ (Value.Alike ρ) xs ys)
    (name : String) :
    Option.Rel (Value.Alike ρ) (Value.listProperty? xs name) (Value.listProperty? ys name) := by
  unfold Value.listProperty?
  split
  · rw [h.length_eq]
    exact .some (.plain rfl)
  · exact .some (head?_alike h)
  · rw [← List.head?_reverse, ← List.head?_reverse]
    exact .some (head?_alike (List.rel_reverse h))
  · refine .some ?_
    cases h <;> exact .plain rfl
  · exact .none

theorem elim_alike {found found' : Option Value} (h : Option.Rel (Value.Alike ρ) found found')
    (ho : v.Alike ρ w) (name : String) :
    Alike ρ (found.elim (undefinedProperty v name) pure)
      (found'.elim (undefinedProperty w name) pure) Value.Alike := by
  cases h with
  | none =>
    rw [Option.elim_none, Option.elim_none, undefinedProperty, undefinedProperty, ho.typeName_eq]
    exact .raise _
  | some h => exact .pure h

/-- Reading a field of a host object depends on what the object holds, but not on the numbers of
cells. -/
def FieldsAlike (host : Host) : Prop :=
  ∀ {typeName name field}, host.field? typeName name = some field →
    ∀ {ρ : Renaming} {e f : Entries Value}, e.Alike ρ f → (field.get e).Alike ρ (field.get f)

theorem getProperty_alike {host : Host} (hh : FieldsAlike host) (name : String)
    (h : v.Alike ρ w) :
    Alike ρ (getProperty host v name) (getProperty host w name) Value.Alike := by
  have hu : ∀ {typeName : String}, Alike ρ
      (raise (.property (.undefined name typeName)) : Run Value)
      (raise (.property (.undefined name typeName))) Value.Alike := .raise _
  cases h with
  | @atom a b ha =>
    cases ha with
    | plain hp =>
      cases a with
      | host _ => cases hp
      | null => exact .raise _
      | str text =>
        refine elim_alike ?_ (.plain rfl) name
        unfold Value.textProperty?
        split
        · exact .some (.plain rfl)
        · exact .some (.plain rfl)
        · exact .none
      | _ => exact hu
    | @host typeName c d hc =>
      simp only [getProperty]
      cases hf : host.field? typeName name with
      | none => exact .raise _
      | some field => exact .read fun s t hst => hh hf (hst.fields hc)
    | _ => exact hu
  | list h => exact elim_alike (listProperty?_alike h name) (.list h) name
  | map hc =>
    refine .read fun s t hst => ?_
    have hg := (hst.entries hc).get? name
    generalize (s.entries _).get? name = x, (t.entries _).get? name = y at hg ⊢
    cases hg with
    | none => exact .plain rfl
    | some h => exact h

theorem loopItems_alike (element : Token) (h : v.Alike ρ w) :
    Alike ρ (loopItems element v) (loopItems element w) fun ρ' =>
      List.Forall₂ (Value.Alike ρ') := by
  cases h with
  | list h => exact .pure h
  | map hc =>
    refine Alike.bind (R := fun ρ' => Entries.Alike ρ') (.read fun s t hst => hst.entries hc)
      fun ρ₁ _ e f hef => ?_
    refine .mapM (fun _ _ hρ _ _ hv => hv.mono hρ) hef fun ρ₂ hρ₂ p q hpq => ?_
    obtain ⟨key, value⟩ := p
    obtain ⟨key', value'⟩ := q
    obtain ⟨rfl, hv⟩ : key = key' ∧ value.Alike ρ₁ value' := hpq
    exact .newMap (.ofList (.cons ⟨rfl, .plain rfl⟩ (.cons ⟨rfl, hv.mono hρ₂⟩ .nil)))
  | @atom a b ha =>
    have hl : ∀ a : Atom, loopItems element (.atom a) =
        fail element (.notIterable a.typeName) := fun _ => rfl
    have ht : a.typeName = b.typeName := (Value.Alike.atom ha).typeName_eq
    rw [hl, hl, ht]
    exact .fail _ _

theorem rewriteBody_alike (ctx : Context) (keyword : Token) {r q : RewriterRef}
    (h : r.kind = q.kind) (body : List OutputToken) :
    Alike ρ (rewriteBody ctx keyword r body) (rewriteBody ctx keyword q body) Same := by
  rw [rewriteBody, rewriteBody, h]
  split
  · exact .pure rfl
  · exact .fail _ _

theorem copy_alike (item : StreamItem) : Alike ρ (copy item) (copy item) Same := by
  cases item with
  | raw token => exact .pure rfl
  | sentinel => exact .pure rfl
  | group id => exact .throw _

end Run

end DocTemplate
