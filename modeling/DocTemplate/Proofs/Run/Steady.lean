import DocTemplate.Proofs.Run.Builtins

namespace DocTemplate

variable {ρ : Renaming} {v w v' w' : Value} {vs ws : List Value}

/-- Host functions depend on what their arguments are and what these hold, but not on the numbers
of cells, and change nothing that was there. They may call functions and make new cells. Fields are
read in the same way. -/
structure Host.Pure (host : Host) : Prop where
  functions : ∀ (ρ : Renaming) (number : Nat) (call : Invoke) (args args' : List Value),
    Run.Respects ρ call → List.Forall₂ (Value.Alike ρ) args args' →
      Run.Alike ρ (host.functions number call args) (host.functions number call args') Value.Alike
  fields : Run.FieldsAlike host

namespace Run

variable {ctx : Context} {call : Invoke} {m n : Nat}

theorem lookup_alike (hg : ρ.scopes.rel ctx.globals ctx.globals) (hm : ρ.scopes.rel m n)
    (node : Nat) (name : Token) :
    Alike ρ (lookup ctx node name m) (lookup ctx node name n) Value.Alike := by
  refine Alike.bind (R := fun ρ' => Option.Rel (Value.Alike ρ')) (.read fun s t hst => ?_)
    fun _ _ _ _ hab => ?_
  · split
    · exact hst.lookupAt? hm _ _
    · exact hst.lookup? hg _
  · cases hab with
    | none => exact .fail _ _
    | some hv => exact .pure hv

theorem callPiped_alike (hc : Respects ρ call) (pipe : Token) (h : v.Alike ρ w)
    (ha : List.Forall₂ (Value.Alike ρ) vs ws) :
    Alike ρ (callPiped call pipe v vs) (callPiped call pipe w ws) Value.Alike := by
  rw [callPiped, callPiped, h.isCallable_eq]
  split
  · exact .boundTo pipe (hc ρ (Renaming.le_refl ρ) v w vs ws h ha)
  · exact .fail _ _

theorem callBarePiped_alike (hc : Respects ρ call) (pipe : Token) (h : v.Alike ρ w)
    (h' : v'.Alike ρ w') :
    Alike ρ (callBarePiped call pipe v v') (callBarePiped call pipe w w') Value.Alike := by
  rw [callBarePiped, callBarePiped, h.leastArgs?_eq]
  split
  · exact .fail _ _
  · exact callPiped_alike hc pipe h (.cons h' .nil)
  · exact .fail _ _

structure Fits (ctx : Context) (call : Invoke) (ρ : Renaming) (m n : Nat) : Prop where
  call : Respects ρ call
  fields : FieldsAlike ctx.host
  globals : ρ.scopes.rel ctx.globals ctx.globals
  scope : ρ.scopes.rel m n

theorem Fits.mono {ρ' : Renaming} (h : Fits ctx call ρ m n) (hρ : ρ ≤ ρ') :
    Fits ctx call ρ' m n :=
  ⟨h.call.mono hρ, h.fields, hρ.scopes _ _ h.globals, hρ.scopes _ _ h.scope⟩

mutual

/-- An expression without assignments does the same in scopes that stand for one another. -/
theorem eval_alike (e : Expr) (he : e.Steady) {ρ : Renaming} {m n : Nat} (h : Fits ctx call ρ m n) :
    Alike ρ (eval ctx call e m) (eval ctx call e n) Value.Alike := by
  simp only [Expr.Steady] at he
  match e with
  | .constant _ value => exact .pure (Value.cellFree_ofConstant value).alike
  | .name site token => exact lookup_alike h.globals h.scope site.id token
  -- assignments are no part of the expression
  | .assign site token value => exact absurd (he _ List.mem_cons_self) nofun
  | .set site object name value =>
    simp only [Expr.nodes, List.cons_append, List.forall_mem_cons] at he
    exact absurd he.1 nofun
  | .unary _ .neg token operand =>
    simp only [Expr.nodes, List.forall_mem_cons] at he
    exact (eval_alike operand he.2 h).bind fun _ _ _ _ hv => .boundTo token (negate_alike hv)
  | .unary _ .not _ operand =>
    simp only [Expr.nodes, List.forall_mem_cons] at he
    exact (eval_alike operand he.2 h).bind fun _ _ _ _ hv =>
      (isTruthy_alike hv).bind_same fun _ _ _ => .pure (.plain rfl)
  | .binary _ .pipe token left right =>
    simp only [Expr.nodes, List.cons_append, List.forall_mem_cons, List.forall_mem_append] at he
    have hr : ∀ {ρ' : Renaming}, Fits ctx call ρ' m n →
        Alike ρ' (eval ctx call right m) (eval ctx call right n) Value.Alike :=
      eval_alike right he.2.2
    rw [eval, eval]
    refine (eval_alike left he.2.1 h).bind fun ρ₁ hρ₁ v w hv => ?_
    cases right with
    | call site callee paren args =>
      simp only [Expr.nodes, List.cons_append, List.forall_mem_cons, List.forall_mem_append] at he
      refine (eval_alike callee he.2.2.2.1 (h.mono hρ₁)).bind fun ρ₂ hρ₂ f g hf => ?_
      have hρ := Renaming.le_trans hρ₁ hρ₂
      refine (evalAll_alike args he.2.2.2.2 (h.mono hρ)).bind fun ρ₃ hρ₃ vs ws hvs => ?_
      exact callPiped_alike (h.mono (Renaming.le_trans hρ hρ₃)).call token (hf.mono hρ₃)
        (.cons (hv.mono (Renaming.le_trans hρ₂ hρ₃)) hvs)
    | _ =>
      exact (hr (h.mono hρ₁)).bind fun ρ₂ hρ₂ f g hf =>
        callBarePiped_alike (h.mono (Renaming.le_trans hρ₁ hρ₂)).call token hf (hv.mono hρ₂)
  | .binary _ .coalesce _ left right =>
    simp only [Expr.nodes, List.cons_append, List.forall_mem_cons, List.forall_mem_append] at he
    refine (eval_alike left he.2.1 h).bind fun ρ₁ hρ₁ v w hv => ?_
    rw [hv.isNull_eq]
    split
    · exact eval_alike right he.2.2 (h.mono hρ₁)
    · exact .pure hv
  | .binary _ .or _ left right =>
    simp only [Expr.nodes, List.cons_append, List.forall_mem_cons, List.forall_mem_append] at he
    refine (eval_alike left he.2.1 h).bind fun ρ₁ hρ₁ v w hv => ?_
    refine (isTruthy_alike hv).bind_same fun ρ₂ hρ₂ holds => ?_
    have hρ := Renaming.le_trans hρ₁ hρ₂
    split
    · exact .pure (hv.mono hρ₂)
    · exact eval_alike right he.2.2 (h.mono hρ)
  | .binary _ .and _ left right =>
    simp only [Expr.nodes, List.cons_append, List.forall_mem_cons, List.forall_mem_append] at he
    refine (eval_alike left he.2.1 h).bind fun ρ₁ hρ₁ v w hv => ?_
    refine (isTruthy_alike hv).bind_same fun ρ₂ hρ₂ holds => ?_
    have hρ := Renaming.le_trans hρ₁ hρ₂
    split
    · exact eval_alike right he.2.2 (h.mono hρ)
    · exact .pure (hv.mono hρ₂)
  | .binary _ (.binary op) token left right =>
    simp only [Expr.nodes, List.cons_append, List.forall_mem_cons, List.forall_mem_append] at he
    refine (eval_alike left he.2.1 h).bind fun ρ₁ hρ₁ v w hv => ?_
    refine (eval_alike right he.2.2 (h.mono hρ₁)).bind fun ρ₂ hρ₂ v' w' hv' => ?_
    exact .boundTo token (binary_alike op (hv.mono hρ₂) hv')
  | .group _ inner =>
    simp only [Expr.nodes, List.forall_mem_cons] at he
    exact eval_alike inner he.2 h
  | .call _ callee paren args =>
    simp only [Expr.nodes, List.cons_append, List.forall_mem_cons, List.forall_mem_append] at he
    refine (eval_alike callee he.2.1 h).bind fun ρ₁ hρ₁ f g hf => ?_
    refine (evalAll_alike args he.2.2 (h.mono hρ₁)).bind fun ρ₂ hρ₂ vs ws hvs => ?_
    exact .boundTo paren (h.call ρ₂ (Renaming.le_trans hρ₁ hρ₂) f g vs ws (hf.mono hρ₂) hvs)
  | .get _ object name optional =>
    simp only [Expr.nodes, List.forall_mem_cons] at he
    refine (eval_alike object he.2 h).bind fun ρ₁ _ v w hv => ?_
    rw [hv.isNull_eq]
    split
    · exact .pure (.plain rfl)
    · exact .boundTo name (getProperty_alike h.fields name.lexeme hv)
  | .choose _ branches otherwise =>
    simp only [Expr.nodes, List.cons_append, List.forall_mem_cons, List.forall_mem_append] at he
    refine (evalBranches_alike branches he.2.1 h).bind fun ρ₁ hρ₁ a b hab => ?_
    cases hab with
    | some hv => exact .pure hv
    | none =>
      exact evalOrNull_alike otherwise he.2.2 (h.mono hρ₁)
  | .lambda _ params body =>
    simp only [Expr.nodes, List.forall_mem_cons] at he
    exact .pure (.atom (.function he.2 h.scope))
  | .list _ items =>
    simp only [Expr.nodes, List.forall_mem_cons] at he
    exact (evalAll_alike items he.2 h).bind fun _ _ _ _ hvs => .pure (.list hvs)

theorem evalAll_alike (es : List Expr)
    (he : ∀ part ∈ Expr.nodesOfItems es, part.isChange = false) {ρ : Renaming}
    {m n : Nat} (h : Fits ctx call ρ m n) :
    Alike ρ (evalAll ctx call es m) (evalAll ctx call es n) fun ρ' =>
      List.Forall₂ (Value.Alike ρ') := by
  match es with
  | [] => exact .pure .nil
  | e :: es =>
    simp only [Expr.nodesOfItems, List.forall_mem_append] at he
    refine (eval_alike e he.1 h).bind fun ρ₁ hρ₁ v w hv => ?_
    exact (evalAll_alike es he.2 (h.mono hρ₁)).bind
      fun ρ₂ hρ₂ vs ws hvs => .pure (.cons (hv.mono hρ₂) hvs)

theorem evalBranches_alike (branches : List (Expr × Expr))
    (he : ∀ part ∈ Expr.nodesOfBranches branches, part.isChange = false) {ρ : Renaming}
    {m n : Nat} (h : Fits ctx call ρ m n) :
    Alike ρ (evalBranches ctx call branches m) (evalBranches ctx call branches n) fun ρ' =>
      Option.Rel (Value.Alike ρ') := by
  match branches with
  | [] => exact .pure .none
  | (condition, result) :: branches =>
    simp only [Expr.nodesOfBranches, List.forall_mem_append] at he
    refine (eval_alike condition he.1.1 h).bind fun ρ₁ hρ₁ v w hv => ?_
    refine (isTruthy_alike hv).bind_same fun ρ₂ hρ₂ holds => ?_
    have hρ := Renaming.le_trans hρ₁ hρ₂
    split
    · exact (eval_alike result he.1.2 (h.mono hρ)).bind
        fun _ _ _ _ hv => .pure (.some hv)
    · exact evalBranches_alike branches he.2 (h.mono hρ)

theorem evalOrNull_alike (e : Option Expr)
    (he : ∀ part ∈ Expr.nodesOfOptional e, part.isChange = false) {ρ : Renaming}
    {m n : Nat} (h : Fits ctx call ρ m n) :
    Alike ρ (evalOrNull ctx call e m) (evalOrNull ctx call e n) Value.Alike := by
  match e with
  | none => exact .pure (.plain rfl)
  | some e => exact eval_alike e he h

end

theorem zip_alike (params : List String) (h : List.Forall₂ (Value.Alike ρ) vs ws) :
    List.Forall₂ (Entry.Alike ρ) (params.zip vs) (params.zip ws) := by
  induction h generalizing params with
  | nil => simp
  | cons hab _ ih =>
    cases params with
    | nil => exact .nil
    | cons param params => exact .cons ⟨rfl, hab⟩ (ih params)

/-- Calls do not see which cells stand for which, when host functions do not. -/
theorem apply_respects (hh : ctx.host.Pure) (depth : Nat) :
    ∀ ρ : Renaming, ρ.scopes.rel ctx.globals ctx.globals → Respects ρ (apply ctx depth) := by
  induction depth with
  | zero => exact fun ρ _ ρ' _ f g args args' _ _ => .throw .endless
  | succ depth ih =>
    intro ρ hg ρ' hρ f g args args' hf ha
    have hg' := hρ.scopes _ _ hg
    cases hf with
    | list _ => exact .raise _
    | map _ => exact .raise _
    | @atom a b hab =>
      cases hab with
      | host _ => exact .raise _
      | rewriter _ => exact .raise _
      | @function params body m n hb hm =>
        rw [apply, apply, ha.length_eq]
        dsimp only
        split
        · exact (Alike.innerScope hm (zip_alike params ha)).bind fun ρ₁ hρ₁ _ _ hscope =>
              eval_alike body hb
                ⟨ih ρ₁ (hρ₁.scopes _ _ hg'), hh.fields, hρ₁.scopes _ _ hg', hscope⟩
        · exact .raise _
      | plain hp =>
        cases a with
        | native f =>
          cases f with
          | builtin b =>
            rw [apply, apply, ha.length_eq]
            split
            · exact Builtin.call_alike (ih ρ' hg') ha
            · exact .raise _
          | host f =>
            rw [apply, apply, ha.length_eq]
            split
            · exact hh.functions ρ' f.number _ _ _ (ih ρ' hg') ha
            · exact .raise _
        | function _ => cases hp
        | _ => exact .raise _

end Run

end DocTemplate
