import DocTemplate.Program.Parse
import DocTemplate.Program.Resolve
import DocTemplate.Run.Stmt

namespace DocTemplate

namespace Resolver

theorem resolveStmts_append (body more : List Stmt) (r : Resolver) :
    resolveStmts (body ++ more) r = resolveStmts body r >>= resolveStmts more := by
  induction body generalizing r with
  | nil => rfl
  | cons s body ih =>
    rw [List.cons_append, resolveStmts, resolveStmts, bind_assoc]
    exact bind_congr fun r => ih r

end Resolver

namespace Run

variable {ctx : Context} {call : Invoke} {scope : Nat}

theorem execAll_done (body : List Stmt) (done : List (List OutputToken)) :
    execAll ctx call body scope done =
      (done.reverse.flatten ++ ·) <$> execAll ctx call body scope [] := by
  induction body generalizing done with
  | nil => simp [execAll]
  | cons s body ih =>
    rw [execAll, execAll, map_bind]
    refine bind_congr fun tokens => ?_
    rw [ih, ih [tokens], Functor.map_map]
    simp

theorem execAll_append (body more : List Stmt) :
    execAll ctx call (body ++ more) scope [] =
      execAll ctx call body scope [] >>= fun tokens =>
        (tokens ++ ·) <$> execAll ctx call more scope [] := by
  induction body with
  | nil => simp [execAll]
  | cons s body ih =>
    rw [List.cons_append, execAll, execAll, bind_assoc]
    refine bind_congr fun tokens => ?_
    rw [execAll_done, execAll_done body, ih, map_bind, bind_map_left]
    refine bind_congr fun tokens' => ?_
    rw [Functor.map_map]
    simp

end Run

/-- Statements that resolve and run alike. -/
structure Interchangeable (body body' : List Stmt) : Prop where
  resolve : ∀ r, Resolver.resolveStmts body r = Resolver.resolveStmts body' r
  exec : ∀ ctx call scope,
    Run.execAll ctx call body scope [] = Run.execAll ctx call body' scope []

namespace Interchangeable

variable {body body' more more' : List Stmt}

theorem refl (body : List Stmt) : Interchangeable body body := ⟨fun _ => rfl, fun _ _ _ => rfl⟩

theorem trans {body'' : List Stmt} (h : Interchangeable body body')
    (h' : Interchangeable body' body'') : Interchangeable body body'' :=
  ⟨fun r => (h.resolve r).trans (h'.resolve r),
    fun ctx call scope => (h.exec ctx call scope).trans (h'.exec ctx call scope)⟩

theorem append (h : Interchangeable body body') (hm : Interchangeable more more') :
    Interchangeable (body ++ more) (body' ++ more') := by
  refine ⟨fun r => ?_, fun ctx call scope => ?_⟩
  · rw [Resolver.resolveStmts_append, Resolver.resolveStmts_append, h.resolve]
    exact bind_congr hm.resolve
  · rw [Run.execAll_append, Run.execAll_append, h.exec, hm.exec]

theorem toStmt (h : Interchangeable body body') (head : BlockHead) :
    Interchangeable [head.toStmt body] [head.toStmt body'] := by
  refine ⟨fun r => ?_, fun ctx call scope => ?_⟩
  · cases head <;>
      simp only [BlockHead.toStmt, Resolver.resolveStmts, Resolver.resolveStmt, h.resolve]
  · cases head <;> simp only [BlockHead.toStmt, Run.execAll, Run.exec, h.exec]

theorem execAll_copies {items : List StreamItem} (hi : ∀ item ∈ items, item.group? = none) :
    ∃ tokens, ∀ ctx call scope,
      Run.execAll ctx call (items.map .verbatim) scope [] = pure tokens := by
  induction items with
  | nil => exact ⟨[], fun _ _ _ => rfl⟩
  | cons item items ih =>
    obtain ⟨hitem, hitems⟩ := List.forall_mem_cons.mp hi
    obtain ⟨tokens, ht⟩ := ih hitems
    obtain ⟨first, hfirst⟩ : ∃ first, Run.copy item = pure first := by
      cases item with
      | group id => cases hitem
      | raw | sentinel => exact ⟨_, rfl⟩
    refine ⟨first ++ tokens, fun ctx call scope => ?_⟩
    rw [List.map_cons, Run.execAll, Run.exec, hfirst, pure_bind, Run.execAll_done, ht]
    simp

theorem resolveStmts_copies (items : List StreamItem) (r : Resolver) :
    Resolver.resolveStmts (items.map .verbatim) r = .ok r := by
  induction items with
  | nil => rfl
  | cons item items ih => exact ih

/-- A `do` statement can change places with copies of markup. -/
theorem slide {items : List StreamItem} (hi : ∀ item ∈ items, item.group? = none) (e : Expr) :
    Interchangeable (items.map .verbatim ++ [.run e]) (.run e :: items.map .verbatim) := by
  obtain ⟨tokens, ht⟩ := execAll_copies hi
  refine ⟨fun r => ?_, fun ctx call scope => ?_⟩
  · rw [Resolver.resolveStmts_append, resolveStmts_copies]
    change Resolver.resolveStmts [.run e] r = _
    simp only [Resolver.resolveStmts, resolveStmts_copies]
  · calc Run.execAll ctx call (items.map .verbatim ++ [.run e]) scope []
      _ = (do let _ ← Run.eval ctx call e scope; pure tokens) := by
        rw [Run.execAll_append, ht, pure_bind]
        simp [Run.execAll, Run.exec]
      _ = Run.execAll ctx call (.run e :: items.map .verbatim) scope [] := by
        rw [Run.execAll, Run.exec, bind_assoc]
        refine bind_congr fun _ => ?_
        rw [pure_bind, Run.execAll_done, ht]
        simp

end Interchangeable

end DocTemplate
