import DocTemplate.Proofs.Run.Steady
import DocTemplate.Run.Parallel

namespace DocTemplate

namespace Run

variable {α β γ δ : Type} {ρ : Renaming}

def Fails (x : Run α) (s : Store) : Prop := ∃ stop s', x.outcome s = (.error stop, s')

theorem Fails.bind {x : Run α} {s : Store} (h : x.Fails s) (f : α → Run β) :
    (x >>= f).Fails s := by
  obtain ⟨stop, s', h⟩ := h
  exact ⟨stop, s', by rw [outcome_bind, h]⟩

theorem Fails.bind_of_ok {x : Run α} {s s' : Store} {a : α} (h : x.outcome s = (.ok a, s'))
    {f : α → Run β} (hf : (f a).Fails s') : (x >>= f).Fails s := by
  obtain ⟨stop, s'', hf⟩ := hf
  exact ⟨stop, s'', by rw [outcome_bind_of_ok h, hf]⟩

/-- From alike stores, both give the same and go to alike stores, or both fail. What was there
stays, but for the names of a scope on each side. -/
def SameOutput (ρ : Renaming) (m n : Option Nat) (x y : Run α) : Prop :=
  ∀ s t : Store, s.Alike ρ t →
    (∃ a s' t' ρ', x.outcome s = (.ok a, s') ∧ y.outcome t = (.ok a, t') ∧ s.Kept m s' ∧
      t.Kept n t' ∧ ρ ≤ ρ' ∧ s'.Alike ρ' t') ∨ x.Fails s ∧ y.Fails t

namespace SameOutput

variable {m n : Option Nat} {x y : Run α}

theorem pure (a : α) : SameOutput ρ m n (Pure.pure a) (Pure.pure a) :=
  fun s t hst => .inl ⟨a, s, t, ρ, rfl, rfl, .refl _ s, .refl _ t, Renaming.le_refl ρ, hst⟩

theorem after {R : Renaming → γ → δ → Prop} {x : Run γ} {y : Run δ} {f : γ → Run α}
    {g : δ → Run α} (hx : Alike ρ x y R)
    (hf : ∀ ρ', ρ ≤ ρ' → ∀ c d, R ρ' c d → SameOutput ρ' m n (f c) (g d)) :
    SameOutput ρ m n (x >>= f) (y >>= g) := by
  intro s t hst
  obtain ⟨hs, ht, ρ₁, hρ₁, hst₁, hr⟩ := hx s t hst
  rcases hxs : x.outcome s with ⟨r, s₁⟩
  rcases hyt : y.outcome t with ⟨q, t₁⟩
  rw [hxs] at hs hst₁ hr
  rw [hyt] at ht hst₁ hr
  cases hr with
  | error stop => exact .inr ⟨.bind ⟨stop, s₁, hxs⟩ f, .bind ⟨stop, t₁, hyt⟩ g⟩
  | @ok c d hcd =>
    obtain ⟨a, s', t', ρ', hs', ht', hks, hkt, hρ', hst'⟩ | ⟨hs', ht'⟩ :=
      hf ρ₁ hρ₁ c d hcd s₁ t₁ hst₁
    · exact .inl ⟨a, s', t', ρ', (outcome_bind_of_ok hxs f).trans hs',
        (outcome_bind_of_ok hyt g).trans ht', (hs.widen m).trans hks, (ht.widen n).trans hkt,
        Renaming.le_trans hρ₁ hρ', hst'⟩
    · exact .inr ⟨.bind_of_ok hxs hs', .bind_of_ok hyt ht'⟩

theorem bind {f g : α → Run β} (hx : SameOutput ρ m n x y)
    (hf : ∀ ρ', ρ ≤ ρ' → ∀ a, SameOutput ρ' m n (f a) (g a)) :
    SameOutput ρ m n (x >>= f) (y >>= g) := by
  intro s t hst
  obtain ⟨a, s₁, t₁, ρ₁, hs, ht, hks, hkt, hρ₁, hst₁⟩ | ⟨hs, ht⟩ := hx s t hst
  · obtain ⟨b, s', t', ρ', hs', ht', hks', hkt', hρ', hst'⟩ | ⟨hs', ht'⟩ :=
      hf ρ₁ hρ₁ a s₁ t₁ hst₁
    · exact .inl ⟨b, s', t', ρ', (outcome_bind_of_ok hs f).trans hs',
        (outcome_bind_of_ok ht g).trans ht', hks.trans hks', hkt.trans hkt',
        Renaming.le_trans hρ₁ hρ', hst'⟩
    · exact .inr ⟨.bind_of_ok hs hs', .bind_of_ok ht ht'⟩
  · exact .inr ⟨hs.bind f, ht.bind g⟩

theorem of_alike (h : Alike ρ x y Same) : SameOutput ρ m n x y := by
  rw [← bind_pure x, ← bind_pure y]
  refine after h fun ρ' _ a b hab => ?_
  subst hab
  exact .pure a

theorem fail (token : Token) (cause : RunCause) :
    SameOutput ρ m n (Run.fail token cause : Run α) (Run.fail token cause) :=
  .of_alike (.fail token cause)

theorem widen (h : SameOutput ρ none none x y) (m n : Option Nat) : SameOutput ρ m n x y := by
  intro s t hst
  obtain ⟨a, s', t', ρ', hs, ht, hks, hkt, hst'⟩ | hf := h s t hst
  · exact .inl ⟨a, s', t', ρ', hs, ht, hks.widen m, hkt.widen n, hst'⟩
  · exact .inr hf

theorem symm (h : SameOutput ρ m n x y) : SameOutput ρ.symm n m y x := by
  intro t s hts
  obtain ⟨a, s', t', ρ', hs, ht, hks, hkt, hρ, hst⟩ | ⟨hs, ht⟩ := h s t hts.symm
  · exact .inl ⟨a, t', s', ρ'.symm, ht, hs, hkt, hks, hρ.symm, hst.symm⟩
  · exact .inr ⟨ht, hs⟩

theorem inScope {i j : Nat} (hi : ρ.scopes.rel i j) {names names' : List (String × Value)}
    (hp : List.Forall₂ (Entry.Alike ρ) names names') {f g : Nat → Run α}
    (hf : ∀ ρ', ρ ≤ ρ' → ∀ k l, ρ'.scopes.rel k l → SameOutput ρ' (some k) (some l) (f k) (g l)) :
    SameOutput ρ none none (innerScope i names >>= f) (innerScope j names' >>= g) := by
  intro s t hst
  have hs₁ := (s.newScope_kept (some i)).narrow (Nat.le_refl _) (Store.defineAll_kept _ _ names)
  have ht₁ := (t.newScope_kept (some j)).narrow (Nat.le_refl _) (Store.defineAll_kept _ _ names')
  obtain ⟨-, -, ρ₁, hρ₁, hst₁, hr⟩ := Alike.innerScope hi hp s t hst
  cases hr with
  | ok hnew =>
    obtain ⟨a, s', t', ρ', hs', ht', hks, hkt, hρ', hst'⟩ | ⟨hs', ht'⟩ :=
      hf ρ₁ hρ₁ _ _ hnew _ _ hst₁
    · exact .inl ⟨a, s', t', ρ', hs', ht', hs₁.narrow (Nat.le_refl _) hks,
        ht₁.narrow (Nat.le_refl _) hkt, Renaming.le_trans hρ₁ hρ', hst'⟩
    · exact .inr ⟨.bind_of_ok (outcome_update _ s) hs', .bind_of_ok (outcome_update _ t) ht'⟩

theorem define {i j : Nat} (hi : ρ.scopes.rel i j) (name : String) {v w : Value}
    (hv : v.Alike ρ w) :
    SameOutput ρ (some i) (some j) (change fun s => s.define i name v)
      (change fun s => s.define j name w) :=
  fun s t hst => .inl ⟨(), _, _, ρ, rfl, rfl, s.define_kept i name v, t.define_kept j name w,
    Renaming.le_refl ρ, hst.define hi name hv⟩

end SameOutput

/-- Wherever `inv` holds, the computation gives the result, and `inv` holds again; if there is no
result, it fails. -/
def Settled (inv : Store → Prop) (x : Run α) : Option α → Prop
  | some a => ∀ s, inv s → ∃ s', x.outcome s = (.ok a, s') ∧ inv s'
  | none => ∀ s, inv s → x.Fails s

/-- What has the same output from alike stores has it from all stores that keep what these hold:
the other run stays as it is, while this one varies. -/
theorem SameOutput.settled_left {x y : Run α} (h : SameOutput ρ none none x y) {s t : Store}
    (hst : s.Alike ρ t) : Settled (s.Kept none) x (y.outcome t).1.toOption := by
  rcases hy : y.outcome t with ⟨r, t₁⟩
  cases r with
  | ok a =>
    intro s' hk
    obtain ⟨b, s₁, t₂, -, hs, ht, hk₁, -⟩ | ⟨-, stop, t₂, ht⟩ := h s' t (hst.kept hk (.refl _ t))
    · obtain rfl : b = a := Except.ok.inj (congrArg Prod.fst (ht.symm.trans hy))
      exact ⟨s₁, hs, hk.trans hk₁⟩
    · cases congrArg Prod.fst (ht.symm.trans hy)
  | error stop =>
    intro s' hk
    obtain ⟨b, s₁, t₂, -, -, ht, -⟩ | ⟨hf, -⟩ := h s' t (hst.kept hk (.refl _ t))
    · cases congrArg Prod.fst (ht.symm.trans hy)
    · exact hf

theorem SameOutput.result_eq {m n : Option Nat} {x y : Run α} (h : SameOutput ρ m n x y)
    {s t : Store} (hst : s.Alike ρ t) :
    (x.outcome s).1.toOption = (y.outcome t).1.toOption := by
  obtain ⟨a, s', t', -, hs, ht, -⟩ | ⟨⟨_, _, hs⟩, ⟨_, _, ht⟩⟩ := h s t hst
  · rw [hs, ht]
  · rw [hs, ht]
    rfl

theorem SameOutput.settled {x y : Run α} (h : SameOutput ρ none none x y) {s t : Store}
    (hst : s.Alike ρ t) :
    ∃ result, Settled (s.Kept none) x result ∧ Settled (t.Kept none) y result := by
  refine ⟨(y.outcome t).1.toOption, h.settled_left hst, ?_⟩
  rw [← h.result_eq hst]
  exact h.symm.settled_left hst.symm

section

variable {inv : Store → Prop} {turn : Value → Run (List OutputToken)} {items : List Value}

theorem mapM_gives {written : List (List OutputToken)}
    (h : List.Forall₂ (fun item tokens => Settled inv (turn item) (some tokens)) items written) :
    Settled inv (items.mapM turn) (some written) := by
  induction h with
  | nil => exact fun s hs => ⟨s, rfl, hs⟩
  | cons hitem _ ih =>
    intro s hs
    obtain ⟨s₁, h₁, hs₁⟩ := hitem s hs
    obtain ⟨s₂, h₂, hs₂⟩ := ih s₁ hs₁
    refine ⟨s₂, ?_, hs₂⟩
    rw [List.mapM_cons, outcome_bind_of_ok h₁, outcome_bind_of_ok h₂]
    rfl

theorem mapM_fails {results : List (Option (List OutputToken))}
    (h : List.Forall₂ (fun item result => Settled inv (turn item) result) items results)
    (hnone : none ∈ results) : Settled inv (items.mapM turn) none := by
  induction h with
  | nil => cases hnone
  | @cons item result _ _ hitem _ ih =>
    intro s hs
    rw [List.mapM_cons]
    cases result with
    | none => exact (hitem s hs).bind _
    | some tokens =>
      obtain ⟨s₁, h₁, hs₁⟩ := hitem s hs
      have hrest : none ∈ _ := (List.mem_cons.mp hnone).resolve_left nofun
      exact .bind_of_ok h₁ ((ih hrest s₁ hs₁).bind _)

theorem runTurns_gives {written : List (List OutputToken)}
    (h : List.Forall₂ (fun item tokens => Settled inv (turn item) (some tokens)) items written)
    (order : List Nat) (buffers : List (List OutputToken)) (hb : buffers.length = items.length) :
    ∀ s, inv s → ∃ filled s', (runTurns turn items order buffers).outcome s = (.ok filled, s') ∧
      inv s' ∧ ∀ i : Nat, filled[i]? = if i ∈ order then written[i]? else buffers[i]? := by
  induction order generalizing buffers with
  | nil => exact fun s hs => ⟨buffers, s, rfl, hs, fun i => by simp⟩
  | cons first order ih =>
    intro s hs
    rw [runTurns]
    cases hitem : items[first]? with
    | none =>
      obtain ⟨filled, s', h', hs', hfilled⟩ := ih buffers hb s hs
      refine ⟨filled, s', h', hs', fun i => ?_⟩
      rw [hfilled]
      by_cases hi : i = first
      · subst hi
        have hl : items.length ≤ i := List.getElem?_eq_none_iff.mp hitem
        simp [List.getElem?_eq_none (hb.trans_le hl),
          List.getElem?_eq_none (h.length_eq.symm.trans_le hl)]
      · simp [hi]
    | some item =>
      obtain ⟨hlt, hitem⟩ := List.getElem?_eq_some_iff.mp hitem
      have hwritten : first < written.length := by rw [← h.length_eq]; exact hlt
      have hturn := h.get hlt hwritten
      rw [List.get_eq_getElem, List.get_eq_getElem, hitem] at hturn
      obtain ⟨s₁, h₁, hs₁⟩ := hturn s hs
      obtain ⟨filled, s', h', hs', hfilled⟩ :=
        ih (buffers.set first written[first]) (by rw [List.length_set, hb]) s₁ hs₁
      refine ⟨filled, s', (outcome_bind_of_ok h₁ _).trans h', hs', fun i => ?_⟩
      rw [hfilled]
      by_cases hi : i = first
      · subst hi
        simp [hb, hlt, hwritten]
      · simp [hi, List.getElem?_set_ne (Ne.symm hi)]

theorem runTurns_fails {results : List (Option (List OutputToken))}
    (h : List.Forall₂ (fun item result => Settled inv (turn item) result) items results)
    {i : Nat} (hnone : results[i]? = some none) (order : List Nat) (hi : i ∈ order)
    (buffers : List (List OutputToken)) :
    Settled inv (runTurns turn items order buffers) none := by
  induction order generalizing buffers with
  | nil => cases hi
  | cons first order ih =>
    intro s hs
    rw [runTurns]
    cases hitem : items[first]? with
    | none =>
      refine ih ?_ buffers s hs
      refine (List.mem_cons.mp hi).resolve_left fun he => ?_
      subst he
      have hl : results.length ≤ i := h.length_eq ▸ List.getElem?_eq_none_iff.mp hitem
      rw [List.getElem?_eq_none hl] at hnone
      cases hnone
    | some item =>
      obtain ⟨hlt, hitem⟩ := List.getElem?_eq_some_iff.mp hitem
      have hresult : first < results.length := by rw [← h.length_eq]; exact hlt
      have hturn := h.get hlt hresult
      rw [List.get_eq_getElem, List.get_eq_getElem, hitem] at hturn
      cases hr : results[first] with
      | none =>
        rw [hr] at hturn
        exact (hturn s hs).bind _
      | some tokens =>
        rw [hr] at hturn
        obtain ⟨s₁, h₁, hs₁⟩ := hturn s hs
        refine .bind_of_ok h₁ (ih ((List.mem_cons.mp hi).resolve_left fun he => ?_) _ s₁ hs₁)
        subst he
        rw [List.getElem?_eq_getElem hresult, hr] at hnone
        cases hnone

theorem exists_eq_map_some {results : List (Option α)} (h : none ∉ results) :
    ∃ xs : List α, results = xs.map some := by
  induction results with
  | nil => exact ⟨[], rfl⟩
  | cons result results ih =>
    obtain ⟨xs, rfl⟩ := ih fun hm => h (List.mem_cons_of_mem _ hm)
    cases result with
    | none => exact absurd List.mem_cons_self h
    | some x => exact ⟨x :: xs, rfl⟩

/-- The turns of a loop in any order write what they write one after another. -/
theorem turns_sameOutput {turn turn' : Value → Run (List OutputToken)} {items items' : List Value}
    (h : List.Forall₂ (fun v w => SameOutput ρ none none (turn v) (turn' w)) items items')
    (schedule : Schedule) :
    SameOutput ρ none none (items.mapM turn)
      (read (fun s => schedule.order s items'.length) >>= fun order =>
        runTurns turn' items' order (items'.map fun _ => [])) := by
  intro s t hst
  -- what a turn gives is settled before any turn runs, so that their order does not matter
  obtain ⟨results, hl, hr⟩ : ∃ results : List (Option (List OutputToken)),
      List.Forall₂ (fun item result => Settled (s.Kept none) (turn item) result) items results ∧
        List.Forall₂ (fun item result => Settled (t.Kept none) (turn' item) result) items'
          results := by
    induction h with
    | nil => exact ⟨[], .nil, .nil⟩
    | cons hturn _ ih =>
      obtain ⟨result, hl, hr⟩ := hturn.settled hst
      obtain ⟨results, hls, hrs⟩ := ih
      exact ⟨result :: results, .cons hl hls, .cons hr hrs⟩
  have horder : ∀ i, i ∈ schedule.order t items'.length ↔ i < items'.length := fun i =>
    (schedule.perm t items'.length).mem_iff.trans List.mem_range
  by_cases hnone : none ∈ results
  -- a turn that fails does so in both orders
  · obtain ⟨i, hi⟩ := List.mem_iff_getElem?.mp hnone
    have hlt : i < items'.length := by
      rw [hr.length_eq]
      exact (List.getElem?_eq_some_iff.mp hi).1
    exact .inr ⟨mapM_fails hl hnone s (.refl _ s),
      runTurns_fails hr hi _ ((horder i).mpr hlt) _ t (.refl _ t)⟩
  · obtain ⟨written, rfl⟩ := exists_eq_map_some hnone
    rw [List.forall₂_map_right_iff] at hl hr
    obtain ⟨s', hs', hks⟩ := mapM_gives hl s (.refl _ s)
    obtain ⟨filled, t', ht', hkt, hfilled⟩ :=
      runTurns_gives hr (schedule.order t items'.length) (items'.map fun _ => [])
        (by rw [List.length_map]) t (.refl _ t)
    obtain rfl : filled = written := by
      refine List.ext_getElem? fun i => ?_
      rw [hfilled]
      by_cases hi : i < items'.length
      · rw [if_pos ((horder i).mpr hi)]
      · rw [if_neg (mt (horder i).mp hi), List.getElem?_eq_none (by simpa using hi),
          List.getElem?_eq_none (by rw [← hr.length_eq]; omega)]
    exact .inl ⟨filled, s', t', ρ, hs', ht', hks, hkt, Renaming.le_refl ρ, hst.kept hks hkt⟩

end

theorem runTurns_inOrder_from (turn : Value → Run (List OutputToken)) (before after : List Value)
    (written : List (List OutputToken)) (h : written.length = before.length) :
    runTurns turn (before ++ after) (List.range' before.length after.length)
        (written ++ after.map fun _ => []) =
      after.mapM turn >>= fun more => pure (written ++ more) := by
  induction after generalizing before written with
  | nil => simp [runTurns]
  | cons item after ih =>
    have hitem : (before ++ item :: after)[before.length]? = some item := by simp
    rw [List.length_cons, List.range'_succ, runTurns, hitem, List.mapM_cons, bind_assoc]
    refine bind_congr fun tokens => ?_
    have hset : (written ++ (item :: after).map fun _ => []).set before.length tokens =
        (written ++ [tokens]) ++ after.map fun _ => [] := by simp [← h]
    have hrest := ih (before ++ [item]) (written ++ [tokens]) (by simp [h])
    rw [List.append_assoc, List.length_append] at hrest
    rw [hset]
    refine hrest.trans ?_
    rw [bind_assoc]
    refine bind_congr fun more => ?_
    rw [pure_bind, List.append_assoc]
    rfl

theorem runTurns_inOrder (turn : Value → Run (List OutputToken)) (items : List Value) :
    runTurns turn items (List.range items.length) (items.map fun _ => []) = items.mapM turn := by
  have h := runTurns_inOrder_from turn [] items [] rfl
  rw [List.nil_append, List.nil_append, List.length_nil, ← List.range_eq_range'] at h
  exact h.trans (bind_pure _)

mutual

/-- In the order of the items, the turns of loops run as ever. -/
theorem execIn_inOrder (ctx : Context) (call : Invoke) (s : Stmt) (scope : Nat) :
    execIn .inOrder ctx call s scope = exec ctx call s scope := by
  match s with
  | .expr _ | .declare _ _ | .run _ | .verbatim _ => rw [execIn, exec]
  | .block body =>
    rw [execIn, exec]
    exact bind_congr fun inner => execAllIn_inOrder ctx call body inner []
  | .ifTrue condition body =>
    rw [execIn, exec]
    simp only [execAllIn_inOrder ctx call body]
  | .forEach element items body =>
    rw [execIn, exec]
    simp only [execAllIn_inOrder ctx call body]
    refine bind_congr fun v => bind_congr fun items => ?_
    refine Eq.trans ?_ (congrArg (· >>= fun turns => pure turns.flatten) (runTurns_inOrder _ items))
    rfl
  | .insert keyword target body | .rewrite keyword target body =>
    rw [execIn, exec]
    refine bind_congr fun v => ?_
    cases v with
    | list _ | map _ => rfl
    | atom a =>
      cases a with
      | null => exact bind_congr fun inner => execAllIn_inOrder ctx call body inner []
      | rewriter r =>
        exact bind_congr fun inner =>
          congrArg (· >>= rewriteBody ctx keyword r) (execAllIn_inOrder ctx call body inner [])
      | _ => rfl

theorem execAllIn_inOrder (ctx : Context) (call : Invoke) (body : List Stmt) (scope : Nat)
    (done : List (List OutputToken)) :
    execAllIn .inOrder ctx call body scope done = execAll ctx call body scope done := by
  match body with
  | [] => rw [execAllIn, execAll]
  | s :: ss =>
    rw [execAllIn, execAll, execIn_inOrder ctx call s scope]
    exact bind_congr fun tokens => execAllIn_inOrder ctx call ss scope (tokens :: done)

end

section

variable {ctx : Context} {call : Invoke} {m n : Nat}

theorem inScope_sameOutput {names names' : List (String × Value)} (h : Fits ctx call ρ m n)
    (hp : List.Forall₂ (Entry.Alike ρ) names names') {f g : Nat → Run α}
    (hf : ∀ ρ' k l, Fits ctx call ρ' k l → SameOutput ρ' (some k) (some l) (f k) (g l)) :
    SameOutput ρ none none (innerScope m names >>= f) (innerScope n names' >>= g) :=
  .inScope h.scope hp fun ρ' hρ k l hkl =>
    hf ρ' k l ⟨h.call.mono hρ, h.fields, hρ.scopes _ _ h.globals, hkl⟩

variable (schedule : Schedule)

mutual

theorem execIn_sameOutput (s : Stmt) (hs : ∀ part ∈ s.nodes, part.isChange = false)
    {ρ : Renaming} {m n : Nat} (h : Fits ctx call ρ m n) :
    SameOutput ρ (some m) (some n) (exec ctx call s m) (execIn schedule ctx call s n) := by
  match s with
  | .expr e =>
    refine .after (eval_alike e hs h) fun _ _ _ _ hv => ?_
    refine .after (.observe_eq fun _ _ hst => hst.outputText? hv) fun _ _ text text' htext => ?_
    subst htext
    exact .pure _
  | .declare name init =>
    exact .after (evalOrNull_alike init hs h) fun ρ₁ hρ₁ v w hv =>
      (SameOutput.define (h.mono hρ₁).scope name.lexeme hv).bind fun _ _ _ => .pure []
  | .block body =>
    exact (inScope_sameOutput h .nil fun _ _ _ h => execAllIn_sameOutput body hs h []).widen _ _
  | .ifTrue condition body =>
    simp only [Stmt.nodes, List.forall_mem_append] at hs
    refine .after (eval_alike condition hs.1 h) fun ρ₁ hρ₁ v w hv => ?_
    refine .after (isTruthy_alike hv) fun ρ₂ hρ₂ a b hab => ?_
    subst hab
    split
    · exact (inScope_sameOutput (h.mono (Renaming.le_trans hρ₁ hρ₂)) .nil fun _ _ _ h =>
        execAllIn_sameOutput body hs.2 h []).widen _ _
    · exact .pure []
  | .forEach element items body =>
    simp only [Stmt.nodes, List.forall_mem_append] at hs
    rw [exec, execIn]
    refine .after (eval_alike items hs.1 h) fun ρ₁ hρ₁ v w hv => ?_
    refine .after (loopItems_alike element hv) fun ρ₂ hρ₂ vs ws hvs => ?_
    have h₂ := h.mono (Renaming.le_trans hρ₁ hρ₂)
    rw [← bind_assoc (read _)]
    refine ((turns_sameOutput (hvs.imp fun a b hab => ?_) schedule).widen _ _).bind
      fun _ _ turns => .pure turns.flatten
    have helement : Entry.Alike ρ₂ (element.lexeme, a) (element.lexeme, b) := ⟨rfl, hab⟩
    exact inScope_sameOutput h₂ (.cons helement .nil) fun _ _ _ h =>
      execAllIn_sameOutput body hs.2 h []
  | .run e => exact .after (eval_alike e hs h) fun _ _ _ _ _ => .pure []
  | .verbatim item => exact .of_alike (copy_alike item)
  | .insert keyword target body | .rewrite keyword target body =>
    simp only [Stmt.nodes, List.forall_mem_append] at hs
    refine .after (eval_alike target hs.1 h) fun ρ₁ hρ₁ v w hv => ?_
    cases hv with
    | list _ => exact .fail _ _
    | map _ => exact .fail _ _
    | @atom a b hab =>
      cases hab with
      | host _ => exact .fail _ _
      | function _ _ => exact .fail _ _
      | rewriter _ =>
        exact (inScope_sameOutput (h.mono hρ₁) .nil fun _ _ _ h =>
          (execAllIn_sameOutput body hs.2 h []).bind fun _ _ tokens =>
            .of_alike (rewriteBody_alike ctx keyword rfl tokens)).widen _ _
      | plain hp =>
        cases a with
        | null =>
          exact (inScope_sameOutput (h.mono hρ₁) .nil fun _ _ _ h =>
            execAllIn_sameOutput body hs.2 h []).widen _ _
        | rewriter _ => cases hp
        | _ => exact .fail _ _

theorem execAllIn_sameOutput (body : List Stmt)
    (hs : ∀ part ∈ Stmt.nodesOfBody body, part.isChange = false) {ρ : Renaming} {m n : Nat}
    (h : Fits ctx call ρ m n) (done : List (List OutputToken)) :
    SameOutput ρ (some m) (some n) (execAll ctx call body m done)
      (execAllIn schedule ctx call body n done) := by
  match body with
  | [] => exact .pure _
  | s :: ss =>
    simp only [Stmt.nodesOfBody, List.forall_mem_append] at hs
    exact (execIn_sameOutput s hs.1 h).bind fun ρ₁ hρ₁ tokens =>
      execAllIn_sameOutput ss hs.2 (h.mono hρ₁) (tokens :: done)

end

end

end Run

end DocTemplate
