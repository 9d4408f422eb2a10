import DocTemplate.Proofs.Program.Assembly

namespace DocTemplate

open DocTemplate.Expr

/-- Nodes with distinct numbers from `lo` up to, but not including, `hi`. -/
structure Numbered (lo hi : Nat) (nodes : List Expr) : Prop where
  le : lo ≤ hi
  nodup : (nodes.map (·.site.id)).Nodup
  bounds : ∀ e ∈ nodes, lo ≤ e.site.id ∧ e.site.id < hi

namespace Numbered

variable {lo mid hi : Nat} {e : Expr} {xs ys : List Expr}

theorem nil (h : lo ≤ hi) : Numbered lo hi [] := ⟨h, .nil, by simp⟩

theorem append (hx : Numbered lo mid xs) (hy : Numbered mid hi ys) : Numbered lo hi (xs ++ ys) := by
  have hle := hx.le
  have hle' := hy.le
  refine ⟨by omega, ?_, fun e he => ?_⟩
  · rw [List.map_append, List.nodup_append]
    refine ⟨hx.nodup, hy.nodup, fun i hi j hj => ?_⟩
    obtain ⟨x, hxm, rfl⟩ := List.mem_map.mp hi
    obtain ⟨y, hym, rfl⟩ := List.mem_map.mp hj
    have hxb := hx.bounds x hxm
    have hyb := hy.bounds y hym
    omega
  · rcases List.mem_append.mp he with he | he
    · have hb := hx.bounds e he
      omega
    · have hb := hy.bounds e he
      omega

theorem node (h : Numbered lo hi xs) (he : e.site.id = hi) : Numbered lo (hi + 1) (e :: xs) := by
  have hle := h.le
  refine ⟨by omega, ?_, fun x hx => ?_⟩
  · rw [List.map_cons, List.nodup_cons]
    refine ⟨fun hm => ?_, h.nodup⟩
    obtain ⟨x, hx, hi⟩ := List.mem_map.mp hm
    have hb := h.bounds x hx
    omega
  · rcases List.mem_cons.mp hx with rfl | hx
    · omega
    · have hb := h.bounds x hx
      omega

end Numbered

theorem Consecutive.numbered {lo hi : Nat} {es : List Expr} (h : Consecutive lo es hi) :
    Numbered lo hi (es.flatMap nodes) := by
  induction h with
  | nil n => exact .nil (Nat.le_refl n)
  | node fresh parts rest ihp ih =>
    rw [List.flatMap_cons, nodes_eq]
    exact (ihp.node rfl).append ih
  | @assign lo mid hi target value e es fresh made parts behind rest ihp ihb ih =>
    obtain ⟨hsite, hparts, -⟩ := assignTo?_eq_some made
    rw [List.flatMap_cons, nodes_eq, hparts, List.flatMap_append]
    have hid : e.site.id = target.site.id := by rw [hsite]
    exact ((ihp.node hid).append ihb).append ih

/-- The numbers of a program's nodes are distinct, and lie below the count of them. -/
theorem parseProgram_numbered {stream : TemplateStream} {program : Program}
    (h : parseProgram stream = .ok program) :
    Numbered 0 program.nodeCount program.nodes :=
  program.nodes_eq ▸ (parseProgram_assembled h).consecutive.numbered

end DocTemplate
