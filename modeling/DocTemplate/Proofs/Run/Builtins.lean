import DocTemplate.Proofs.Run.Likeness
import DocTemplate.Proofs.Run.Native

namespace DocTemplate

variable {ρ : Renaming} {v w v' w' : Value} {vs ws : List Value}

namespace Run

def Respects (ρ : Renaming) (call : Invoke) : Prop :=
  ∀ ρ', ρ ≤ ρ' → ∀ (f g : Value) (args args' : List Value), f.Alike ρ' g →
    List.Forall₂ (Value.Alike ρ') args args' → Alike ρ' (call f args) (call g args') Value.Alike

theorem Respects.mono {ρ' : Renaming} {call : Invoke} (h : Respects ρ call) (hρ : ρ ≤ ρ') :
    Respects ρ' call :=
  fun ρ'' hρ' => h ρ'' (Renaming.le_trans hρ hρ')

end Run

namespace Builtin

open Run

variable {call : Invoke} {k k' : List Value → Run Value}

theorem pureResult_alike (b : Builtin) {r q : Except ArgumentCause Value}
    (h : Results (Value.Alike ρ) r q) :
    Alike ρ (pureResult b r) (pureResult b q) Value.Alike := by
  cases h with
  | ok h => exact .pure h
  | error cause => exact .raise _

theorem listArgument_alike (h : v.Alike ρ w) :
    Results (List.Forall₂ (Value.Alike ρ)) (listArgument v) (listArgument w) := by
  cases h with
  | list h => exact .ok h
  | @atom a b h =>
    have ht : a.typeName = b.typeName := (Value.Alike.atom h).typeName_eq
    have hl : ∀ a : Atom, listArgument (.atom a) = .error (.notList a.typeName) := fun _ => rfl
    rw [hl, hl, ht]
    exact .error _
  | map _ => exact .error _

theorem functionArgument_eq (h : v.Alike ρ w) : functionArgument v = functionArgument w := by
  rw [functionArgument, functionArgument, h.isCallable_eq, h.typeName_eq]

theorem withList_alike (b : Builtin) (h : v.Alike ρ w)
    (hk : ∀ items items', List.Forall₂ (Value.Alike ρ) items items' →
      Alike ρ (k items) (k' items') Value.Alike) :
    Alike ρ (withList b v k) (withList b w k') Value.Alike := by
  rw [withList, withList, h.isNull_eq]
  split
  · exact .pure (.plain rfl)
  · have hl := listArgument_alike h
    generalize listArgument v = r, listArgument w = q at hl ⊢
    cases hl with
    | ok hi => exact hk _ _ hi
    | error cause => exact .raise _

theorem withFunction_alike (b : Builtin) (h : v.Alike ρ w) (hf : v'.Alike ρ w')
    (hk : ∀ items items', List.Forall₂ (Value.Alike ρ) items items' →
      Alike ρ (k items) (k' items') Value.Alike) :
    Alike ρ (withFunction b v v' k) (withFunction b w w' k') Value.Alike := by
  refine withList_alike b h fun items items' hi => ?_
  rw [functionArgument_eq hf]
  split
  · exact hk items items' hi
  · exact .raise _

theorem call_one {ρ' : Renaming} (hc : Respects ρ call) (hf : v'.Alike ρ w') (hρ : ρ ≤ ρ')
    (h : v.Alike ρ w) : Alike ρ' (call v' [v]) (call w' [w]) Value.Alike :=
  hc ρ' hρ _ _ _ _ (hf.mono hρ) (.cons (h.mono hρ) .nil)

theorem mapped_alike (hc : Respects ρ call) (h : v.Alike ρ w) (hf : v'.Alike ρ w') :
    Alike ρ (mapped call v v') (mapped call w w') Value.Alike := by
  refine withFunction_alike .map h hf fun items items' hi => ?_
  refine (Alike.mapM (fun _ _ hρ _ _ hv => hv.mono hρ) hi fun ρ' hρ a b hab => ?_).bind
    fun ρ' _ vs ws hvs => .pure (.list hvs)
  exact call_one hc hf hρ hab

theorem filterAuxM_alike {before : Renaming} {p q : Value → Run Bool} (hρ : before ≤ ρ)
    (hp : ∀ ρ', ρ ≤ ρ' → ∀ v w, v.Alike before w → Alike ρ' (p v) (q w) Same)
    {items items' kept kept' : List Value} (hi : List.Forall₂ (Value.Alike before) items items')
    (hk : List.Forall₂ (Value.Alike ρ) kept kept') :
    Alike ρ (items.filterAuxM p kept) (items'.filterAuxM q kept') fun ρ' =>
      List.Forall₂ (Value.Alike ρ') := by
  induction hi generalizing ρ kept kept' with
  | nil => exact .pure hk
  | @cons a b _ _ hab _ ih =>
    refine (hp ρ (Renaming.le_refl ρ) a b hab).bind_same fun ρ₁ hρ₁ holds => ?_
    have hk₁ : List.Forall₂ (Value.Alike ρ₁) kept kept' := hk.imp fun _ _ hv => hv.mono hρ₁
    refine ih (Renaming.le_trans hρ hρ₁) (fun ρ' hρ' => hp ρ' (Renaming.le_trans hρ₁ hρ')) ?_
    cases holds with
    | true => exact .cons (hab.mono (Renaming.le_trans hρ hρ₁)) hk₁
    | false => exact hk₁

theorem filtered_alike (hc : Respects ρ call) (h : v.Alike ρ w) (hf : v'.Alike ρ w') :
    Alike ρ (filtered call v v') (filtered call w w') Value.Alike := by
  refine withFunction_alike .filter h hf fun items items' hi => ?_
  rw [List.filterM, List.filterM, bind_assoc, bind_assoc]
  refine (filterAuxM_alike (Renaming.le_refl ρ) (fun ρ' hρ a b hab => ?_) hi .nil).bind
    fun _ _ vs ws hvs => ?_
  · exact (call_one hc hf hρ hab).bind fun _ _ _ _ hv => isTruthy_alike hv
  · rw [pure_bind, pure_bind]
    exact .pure (.list (List.rel_reverse hvs))

theorem folded_alike {before : Renaming} (hρ : before ≤ ρ) (hc : Respects before call)
    (hf : v'.Alike before w') (hi : List.Forall₂ (Value.Alike before) vs ws) (h : v.Alike ρ w) :
    Alike ρ (folded call v' v vs) (folded call w' w ws) Value.Alike := by
  rw [folded, folded]
  induction hi generalizing ρ v w with
  | nil => exact .pure h
  | cons hab _ ih =>
    rw [List.foldlM_cons, List.foldlM_cons]
    exact (hc ρ hρ _ _ _ _ (hf.mono hρ) (.cons h (.cons (hab.mono hρ) .nil))).bind
      fun _ hρ₁ _ _ hxy => ih (Renaming.le_trans hρ hρ₁) hxy

theorem reduced_alike (hc : Respects ρ call) (h : v.Alike ρ w) (hf : v'.Alike ρ w') :
    Alike ρ (reduced call v v') (reduced call w w') Value.Alike := by
  refine withFunction_alike .reduce h hf fun items items' hi => ?_
  cases hi with
  | nil => exact .pure (.plain rfl)
  | cons hab hrest => exact folded_alike (Renaming.le_refl ρ) hc hf hrest hab

theorem reducedFrom_alike {initial initial' : Value} (hc : Respects ρ call) (h : v.Alike ρ w)
    (hf : v'.Alike ρ w') (hi : initial.Alike ρ initial') :
    Alike ρ (reducedFrom call v v' initial) (reducedFrom call w w' initial') Value.Alike := by
  rw [reducedFrom, reducedFrom, h.isNull_eq]
  split
  · exact .pure hi
  · exact withFunction_alike .reduce h hf fun _ _ hitems =>
      folded_alike (Renaming.le_refl ρ) hc hf hitems hi

theorem texts_eq {s t : Store} (hst : s.Alike ρ t) (h : List.Forall₂ (Value.Alike ρ) vs ws) :
    vs.mapM s.text? = ws.mapM t.text? := by
  induction h with
  | nil => rfl
  | cons hab _ ih => rw [List.mapM_cons, List.mapM_cons, hst.text? hab, ih]

theorem joined_alike (h : v.Alike ρ w) (h' : v'.Alike ρ w') :
    Alike ρ (joined v v') (joined w w') Value.Alike := by
  refine withList_alike .join h fun items items' hi => .observe fun s t hst => ?_
  rw [hst.outputText? h', texts_eq hst hi]
  cases t.outputText? w' with
  | none => exact .none
  | some separator =>
    cases items'.mapM t.text? with
    | none => exact .none
    | some texts => exact .some (.plain rfl)

theorem placed_alike (count : Nat) (h : v.Alike ρ w) (i : Nat) :
    (placed count v i).Alike ρ (placed count w i) :=
  .ofList (.cons ⟨rfl, .plain rfl⟩ (.cons ⟨rfl, h⟩ (.cons ⟨rfl, .plain rfl⟩
    (.cons ⟨rfl, .plain rfl⟩ (.cons ⟨rfl, .plain rfl⟩ .nil)))))

theorem zipIdx_alike (h : List.Forall₂ (Value.Alike ρ) vs ws) (start : Nat) :
    List.Forall₂ (fun p q : Value × Nat => p.1.Alike ρ q.1 ∧ p.2 = q.2) (vs.zipIdx start)
      (ws.zipIdx start) := by
  induction h generalizing start with
  | nil => exact .nil
  | cons hab _ ih => exact .cons ⟨hab, rfl⟩ (ih (start + 1))

theorem enumerated_alike (h : v.Alike ρ w) :
    Alike ρ (enumerated v) (enumerated w) Value.Alike := by
  refine withList_alike .enumerate h fun items items' hi => ?_
  rw [hi.length_eq]
  refine (Alike.mapM (fun _ _ hρ _ _ hv => hv.mono hρ) (zipIdx_alike hi 0)
    fun ρ' hρ p q hpq => ?_).bind fun _ _ vs ws hvs => .pure (.list hvs)
  obtain ⟨a, i⟩ := p
  obtain ⟨b, j⟩ := q
  obtain ⟨hab, rfl⟩ : a.Alike ρ b ∧ i = j := hpq
  exact .newMap ((placed_alike _ hab i).mono hρ)

theorem filter_alike {p : Value → Bool} (hp : ∀ v w, v.Alike ρ w → p v = p w)
    (h : List.Forall₂ (Value.Alike ρ) vs ws) :
    List.Forall₂ (Value.Alike ρ) (vs.filter p) (ws.filter p) :=
  List.rel_filter (fun _ _ hv => iff_of_eq (congrArg (· = true) (hp _ _ hv))) h

theorem withoutNulls_alike (h : v.Alike ρ w) :
    Alike ρ (withoutNulls v) (withoutNulls w) Value.Alike :=
  withList_alike .filterNotNull h fun _ _ hi =>
    .pure (.list (filter_alike (fun _ _ hv => by rw [hv.isNull_eq]) hi))

theorem find?_alike {p : Value → Bool} (hp : ∀ v w, v.Alike ρ w → p v = p w)
    (h : List.Forall₂ (Value.Alike ρ) vs ws) :
    Option.Rel (Value.Alike ρ) (vs.find? p) (ws.find? p) := by
  induction h with
  | nil => exact .none
  | cons hab _ ih =>
    rw [List.find?_cons, List.find?_cons, hp _ _ hab]
    split
    · exact .some hab
    · exact ih

theorem filterMap_eq {α : Type} {f : Value → Option α} (hf : ∀ v w, v.Alike ρ w → f v = f w)
    (h : List.Forall₂ (Value.Alike ρ) vs ws) : vs.filterMap f = ws.filterMap f := by
  induction h with
  | nil => rfl
  | cons hab _ ih => rw [List.filterMap_cons, List.filterMap_cons, hf _ _ hab, ih]

theorem total_eq (h : List.Forall₂ (Value.Alike ρ) vs ws) : total vs = total ws := by
  have hi := filter_alike (p := (!·.isNull)) (fun _ _ hv => by rw [hv.isNull_eq]) h
  have hf := find?_alike (p := (!·.isNumber)) (fun _ _ hv => by rw [hv.isNumber_eq]) hi
  unfold total
  dsimp only
  rw [filterMap_eq (fun a b hab => ?_) hi]
  · generalize (vs.filter _).find? _ = x, (ws.filter _).find? _ = y at hf ⊢
    cases hf with
    | none => rfl
    | some hv => exact congrArg (fun t => Except.error (ArgumentCause.notNumbers t)) hv.typeName_eq
  · cases hab with
    | atom ha => cases ha <;> rfl
    | _ => rfl

theorem sumOrZero_eq (h : v.Alike ρ w) : sumOrZero v = sumOrZero w := by
  rw [sumOrZero, sumOrZero, h.isNull_eq]
  split
  · rfl
  · have hl := listArgument_alike h
    generalize listArgument v = r, listArgument w = q at hl ⊢
    cases hl with
    | ok hi => exact total_eq hi
    | error _ => rfl

theorem integerArgument_eq (h : v.Alike ρ w) : integerArgument v = integerArgument w := by
  cases h with
  | atom ha => cases ha <;> rfl
  | _ => rfl

theorem isLong_eq (h : v.Alike ρ w) : isLong v = isLong w := by
  cases h with
  | atom ha => cases ha <;> rfl
  | _ => rfl

theorem integers_eq (h : v.Alike ρ w) (h' : v'.Alike ρ w') : integers v v' = integers w w' := by
  rw [integers, integers, integerArgument_eq h, integerArgument_eq h', isLong_eq h, isLong_eq h']

theorem reversed_alike (h : v.Alike ρ w) :
    Results (Value.Alike ρ) (reversed v) (reversed w) := by
  cases h with
  | list h => exact .ok (.list (List.rel_reverse h))
  | map _ => exact .error _
  | @atom a b ha =>
    cases ha with
    | plain _ =>
      cases a with
      | null => exact .ok (.plain rfl)
      | str _ => exact .ok (.plain rfl)
      | _ => exact .error _
    | _ => exact .error _

theorem convert_eq (target : NumberType) (h : v.Alike ρ w) :
    convert target v = convert target w := by
  cases h with
  | atom ha => cases ha <;> rfl
  | _ => rfl

theorem patternArgument_eq (default : String) (h : v.Alike ρ w) :
    patternArgument default v = patternArgument default w := by
  cases h with
  | atom ha => cases ha <;> rfl
  | _ => rfl

theorem formatAny_eq (symbols : NumberSymbols) (h : v.Alike ρ w) (h' : v'.Alike ρ w') :
    formatAny symbols v v' = formatAny symbols w w' := by
  rw [formatAny, formatAny, patternArgument_eq _ h']
  cases h with
  | atom ha => cases ha <;> rfl
  | _ => rfl

theorem formatDateOrNull_eq (h : v.Alike ρ w) (h' : v'.Alike ρ w') :
    formatDateOrNull v v' = formatDateOrNull w w' := by
  rw [formatDateOrNull, formatDateOrNull, patternArgument_eq _ h']
  cases h with
  | atom ha => cases ha <;> rfl
  | _ => rfl

theorem formatNumberOrEmpty_eq (symbols : NumberSymbols) (h : v.Alike ρ w)
    (h' : v'.Alike ρ w') :
    formatNumberOrEmpty symbols v v' = formatNumberOrEmpty symbols w w' := by
  rw [formatNumberOrEmpty, formatNumberOrEmpty, patternArgument_eq _ h']
  cases h with
  | atom ha => cases ha <;> rfl
  | _ => rfl

variable {settings : Settings} {b : Builtin}

theorem newRewriter_alike (kind : RewriterKind) :
    Alike ρ (newRewriter kind) (newRewriter kind) Value.Alike :=
  .newRewriter kind

theorem call_none_alike :
    Alike ρ (b.call settings call []) (b.call settings call []) Value.Alike := by
  cases b with
  | now => exact .pure (.plain rfl)
  | identity => exact newRewriter_alike _
  | lineBreaksToTags =>
    rw [Builtin.call]
    split
    · exact newRewriter_alike _
    · exact .raise _
  | _ => exact .raise _

theorem rawXml_alike (h : v.Alike ρ w) :
    Alike ρ (Builtin.rawXml.call settings call [v]) (Builtin.rawXml.call settings call [w])
      Value.Alike := by
  cases h with
  | list _ => exact .raise _
  | map _ => exact .raise _
  | @atom a b ha =>
    cases ha with
    | plain _ =>
      cases a with
      | null => exact newRewriter_alike _
      | str _ => exact newRewriter_alike _
      | _ => exact .raise _
    | _ => exact .raise _

theorem rawXml_more (v w : Value) (vs : List Value) :
    Builtin.rawXml.call settings call (v :: w :: vs) =
      raise (.call (.wrongCount Builtin.rawXml.arity (vs.length + 2))) := by
  cases v with
  | atom a => cases a <;> rfl
  | _ => rfl

theorem call_one_alike (h : v.Alike ρ w) :
    Alike ρ (b.call settings call [v]) (b.call settings call [w]) Value.Alike := by
  cases b with
  | sum => exact pureResult_alike _ (Results.cellFree (sumOrZero_eq h) fun _ => sumOrZero_cellFree)
  | reverse => exact pureResult_alike _ (reversed_alike h)
  | enumerate => exact enumerated_alike h
  | filterNotNull => exact withoutNulls_alike h
  | notNull =>
    refine .pure ?_
    rw [h.isNull_eq]
    exact .plain rfl
  | cast target =>
    exact pureResult_alike _ (Results.cellFree (convert_eq target h) fun _ => convert_cellFree)
  | format =>
    exact pureResult_alike _
      (Results.cellFree (formatAny_eq _ h (.plain rfl)) fun _ => formatAny_cellFree)
  | formatNumber =>
    exact pureResult_alike _ (Results.cellFree (formatNumberOrEmpty_eq _ h (.plain rfl)) fun _ =>
      formatNumberOrEmpty_cellFree)
  | rawXml => exact rawXml_alike h
  | _ => exact .raise _

theorem call_two_alike (hc : Respects ρ call) (h : v.Alike ρ w) (h' : v'.Alike ρ w') :
    Alike ρ (b.call settings call [v, v']) (b.call settings call [w, w']) Value.Alike := by
  cases b with
  | map => exact mapped_alike hc h h'
  | filter => exact filtered_alike hc h h'
  | reduce => exact reduced_alike hc h h'
  | join => exact joined_alike h h'
  | range =>
    exact pureResult_alike _ (Results.cellFree (integers_eq h h') fun _ => integers_cellFree)
  | format =>
    exact pureResult_alike _ (Results.cellFree (formatAny_eq _ h h') fun _ => formatAny_cellFree)
  | formatDate =>
    exact pureResult_alike _
      (Results.cellFree (formatDateOrNull_eq h h') fun _ => formatDateOrNull_cellFree)
  | formatNumber =>
    exact pureResult_alike _
      (Results.cellFree (formatNumberOrEmpty_eq _ h h') fun _ => formatNumberOrEmpty_cellFree)
  | rawXml =>
    rw [rawXml_more, rawXml_more]
    exact .raise _
  | _ => exact .raise _

theorem call_alike (hc : Respects ρ call) (h : List.Forall₂ (Value.Alike ρ) vs ws) :
    Alike ρ (b.call settings call vs) (b.call settings call ws) Value.Alike := by
  cases h with
  | nil => exact call_none_alike
  | cons h₁ h =>
    cases h with
    | nil => exact call_one_alike h₁
    | cons h₂ h =>
      cases h with
      | nil => exact call_two_alike hc h₁ h₂
      | cons h₃ h =>
        cases h with
        | nil =>
          cases b with
          | reduce => exact reducedFrom_alike hc h₁ h₂ h₃
          | rawXml =>
            rw [rawXml_more, rawXml_more]
            exact .raise _
          | _ => exact .raise _
        | @cons v₄ w₄ vs ws h₄ h =>
          have hl : ∀ v₁ v₂ v₃ v₄ : Value, ∀ vs : List Value,
              b.call settings call (v₁ :: v₂ :: v₃ :: v₄ :: vs) =
                raise (.call (.wrongCount b.arity (vs.length + 4))) := by
            intro v₁ v₂ v₃ v₄ vs
            cases b <;> first | rfl | exact rawXml_more _ _ _
          rw [hl, hl, h.length_eq]
          exact .raise _

end Builtin

end DocTemplate
