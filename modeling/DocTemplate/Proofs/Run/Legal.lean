import DocTemplate.Proofs.Run.Native
import DocTemplate.Run.Stmt

namespace DocTemplate

variable {known : Closure → Prop} {count n m : Nat}

namespace Value

inductive Legal (known : Closure → Prop) (count : Nat) : Value → Prop
  | atom {a : Atom} (h : ∀ c, a = .function c → known c) : Legal known count (.atom a)
  | list {items : List Value} (h : ∀ v ∈ items, Legal known count v) :
    Legal known count (.list items)
  | map {cell : Nat} (h : cell < count) : Legal known count (.map cell)

variable {v : Value}

theorem Legal.mono (h : v.Legal known n) (hle : n ≤ m) : v.Legal known m := by
  induction h with
  | atom h => exact .atom h
  | list _ ih => exact .list ih
  | map h => exact .map (Nat.lt_of_lt_of_le h hle)

theorem CellFree.legal (h : v.CellFree) : v.Legal known n := by
  induction h with
  | atom h =>
    refine .atom fun c hc => ?_
    rw [hc] at h
    cases h
  | list _ ih => exact .list ih

theorem legal_list {items : List Value} :
    (list items).Legal known n ↔ ∀ v ∈ items, v.Legal known n := by
  refine ⟨fun h => ?_, .list⟩
  cases h with
  | list h => exact h

theorem hereditary_legal (known : Closure → Prop) (n : Nat) : Hereditary (Legal known n) :=
  ⟨fun _ h => h.legal, fun _ => legal_list⟩

end Value

namespace Store

variable {s s' s'' : Store}

def Legal (known : Closure → Prop) (s : Store) : Prop := s.All (Value.Legal known s.maps.size)

/-- The store holds what the other one held, and more. A new map holds only maps that are older
than itself. -/
structure Extends (known : Closure → Prop) (s s' : Store) : Prop where
  maps : ∀ c < s.maps.size, s'.maps[c]? = s.maps[c]?
  hosts : ∀ c < s.hosts.size, s'.hosts[c]? = s.hosts[c]?
  fresh : ∀ (c : Nat) (e : Entries Value), s.maps.size ≤ c → s'.maps[c]? = some e →
    e.All (Value.Legal known c)

theorem size_le_of_getElem?_eq {α : Type} {xs ys : Array α}
    (h : ∀ c < xs.size, ys[c]? = xs[c]?) : xs.size ≤ ys.size := by
  refine Nat.le_of_not_lt fun hlt => ?_
  have hc := h ys.size hlt
  rw [Array.getElem?_eq_none (Nat.le_refl _), Array.getElem?_eq_getElem hlt] at hc
  cases hc

namespace Extends

theorem size_le (h : s.Extends known s') : s.maps.size ≤ s'.maps.size :=
  size_le_of_getElem?_eq h.maps

theorem of_cells_eq (hm : s'.maps = s.maps) (hh : s'.hosts = s.hosts) : s.Extends known s' := by
  refine ⟨fun c _ => by rw [hm], fun c _ => by rw [hh], fun c e hc he => ?_⟩
  rw [hm, Array.getElem?_eq_none hc] at he
  cases he

theorem refl (s : Store) : s.Extends known s := .of_cells_eq rfl rfl

theorem trans (h : s.Extends known s') (h' : s'.Extends known s'') : s.Extends known s'' where
  maps c hc := (h'.maps c (Nat.lt_of_lt_of_le hc h.size_le)).trans (h.maps c hc)
  hosts c hc :=
    (h'.hosts c (Nat.lt_of_lt_of_le hc (size_le_of_getElem?_eq h.hosts))).trans (h.hosts c hc)
  fresh c e hc he := by
    by_cases hlt : c < s'.maps.size
    · exact h.fresh c e hc ((h'.maps c hlt).symm.trans he)
    · exact h'.fresh c e (Nat.le_of_not_lt hlt) he

theorem newMap {entries : Entries Value} (he : entries.All (Value.Legal known s.maps.size)) :
    s.Extends known (s.newMap entries).2 where
  maps c hc := by rw [Store.newMap, Array.getElem?_push_lt hc, Array.getElem?_eq_getElem hc]
  hosts _ _ := rfl
  fresh c e hc hi := by
    rw [Store.newMap, Array.getElem?_push] at hi
    split at hi
    · rename_i heq
      obtain rfl := Option.some.inj hi
      rw [heq]
      exact he
    · rw [Array.getElem?_eq_none hc] at hi
      cases hi

theorem defineAll (s : Store) (scope : Nat) (names : List (String × Value)) :
    s.Extends known (s.defineAll scope names) := by
  induction names generalizing s with
  | nil => exact .refl s
  | cons pair names ih =>
    have hdefine : s.Extends known (s.define scope pair.1 pair.2) := .of_cells_eq rfl rfl
    exact hdefine.trans (ih _)

end Extends

theorem All.legal (h : s'.All (Value.Legal known n)) (hle : n ≤ s'.maps.size) : s'.Legal known :=
  h.mono fun _ hv => hv.mono hle

namespace Legal

variable {v : Value} {entries : Entries Value}

theorem newMap (h : s.Legal known) (he : entries.All (Value.Legal known s.maps.size)) :
    (s.newMap entries).2.Legal known :=
  (All.newMap h he).legal (Extends.newMap he).size_le

theorem newRewriter (h : s.Legal known) (kind : RewriterKind) :
    (s.newRewriter kind).2.Legal known :=
  All.newRewriter h kind

theorem newScope (h : s.Legal known) (parent : Option Nat) : (s.newScope parent).2.Legal known :=
  All.newScope h parent

theorem define (h : s.Legal known) (scope : Nat) (name : String)
    (hv : v.Legal known s.maps.size) : (s.define scope name v).Legal known :=
  All.define h scope name hv

theorem defineAll (h : s.Legal known) (scope : Nat) {names : List (String × Value)}
    (hn : ∀ pair ∈ names, pair.2.Legal known s.maps.size) :
    (s.defineAll scope names).Legal known := by
  have hext : s.Extends known (s.defineAll scope names) := .defineAll s scope names
  exact (All.defineAll h scope hn).legal hext.size_le

theorem release (h : s.Legal known) (first : Nat) : (s.release first).Legal known :=
  All.release h first

theorem setEntry (h : s.Legal known) (cell : Nat) (key : String)
    (hv : v.Legal known s.maps.size) : (s.setEntry cell key v).Legal known :=
  (All.setEntry h cell key hv).legal (by simp [Store.setEntry])

theorem setFields {fields : Entries Value} (h : s.Legal known) (cell : Nat)
    (hf : fields.All (Value.Legal known s.maps.size)) : (s.setFields cell fields).Legal known :=
  All.setFields h cell hf

end Legal

end Store

namespace Run

variable {α β γ : Type}

/-- In a legal store with at least `n` maps, the computation adds to the store, keeps it legal and
gives what satisfies `Q` for the count of maps in the end. -/
def Extending (known : Closure → Prop) (n : Nat) (x : Run α) (Q : Nat → α → Prop) : Prop :=
  ∀ s : Store, n ≤ s.maps.size → s.Legal known →
    s.Extends known (x.outcome s).2 ∧ (x.outcome s).2.Legal known ∧
      ∀ a, (x.outcome s).1 = .ok a → Q (x.outcome s).2.maps.size a

namespace Extending

variable {P Q : Nat → α → Prop} {R : Nat → β → Prop} {x : Run α}

theorem pure {a : α} (h : ∀ m, n ≤ m → Q m a) : Extending known n (Pure.pure a) Q := by
  intro s hn hs
  refine ⟨.refl s, hs, fun b hb => ?_⟩
  obtain rfl := Except.ok.inj hb
  exact h _ hn

theorem throw (stop : Stop) : Extending known n (throwThe Stop stop : Run α) Q :=
  fun s _ hs => ⟨.refl s, hs, nofun⟩

theorem raise (cause : RunCause) : Extending known n (Run.raise cause : Run α) Q := .throw _

theorem fail (token : Token) (cause : RunCause) :
    Extending known n (Run.fail token cause : Run α) Q := .throw _

theorem bind {f : α → Run β} (hx : Extending known n x P)
    (hf : ∀ m, n ≤ m → ∀ a, P m a → Extending known m (f a) R) :
    Extending known n (x >>= f) R := by
  intro s hn hs
  obtain ⟨hext, hleg, hres⟩ := hx s hn hs
  rw [outcome_bind]
  cases hr : x.outcome s with
  | mk r s' =>
    rw [hr] at hext hleg hres
    cases r with
    | error stop => exact ⟨hext, hleg, nofun⟩
    | ok a =>
      have hle := Nat.le_trans hn hext.size_le
      obtain ⟨hext', hleg', hres'⟩ := hf _ hle a (hres a rfl) s' (Nat.le_refl _) hleg
      exact ⟨hext.trans hext', hleg', hres'⟩

theorem update {f : Store → α × Store}
    (h : ∀ s : Store, n ≤ s.maps.size → s.Legal known →
      s.Extends known (f s).2 ∧ (f s).2.Legal known ∧ Q (f s).2.maps.size (f s).1) :
    Extending known n (Run.update f) Q := by
  intro s hn hs
  obtain ⟨hext, hleg, hres⟩ := h s hn hs
  refine ⟨hext, hleg, fun b hb => ?_⟩
  obtain rfl := Except.ok.inj hb
  exact hres

theorem read {f : Store → α}
    (h : ∀ s : Store, n ≤ s.maps.size → s.Legal known → Q s.maps.size (f s)) :
    Extending known n (Run.read f) Q := by
  intro s hn hs
  refine ⟨.refl s, hs, fun b hb => ?_⟩
  obtain rfl := Except.ok.inj hb
  exact h s hn hs

theorem observe {f : Store → Option α}
    (h : ∀ (s : Store) (a : α), f s = some a → Q s.maps.size a) :
    Extending known n (Run.observe f) Q := by
  intro s hn hs
  rw [Run.observe, outcome_bind, outcome_read]
  dsimp only
  cases hf : f s with
  | none =>
    refine ⟨.refl s, hs, fun b hb => ?_⟩
    cases hb
  | some a =>
    refine ⟨.refl s, hs, fun b hb => ?_⟩
    obtain rfl := Except.ok.inj hb
    exact h s a hf

theorem change {f : Store → Store}
    (h : ∀ s : Store, n ≤ s.maps.size → s.Legal known →
      s.Extends known (f s) ∧ (f s).Legal known) :
    Extending known n (Run.change f) fun _ _ => True :=
  fun s hn hs => ⟨(h s hn hs).1, (h s hn hs).2, fun _ _ => trivial⟩

theorem ofExcept {result : Except RunCause α} (h : ∀ a, result = .ok a → ∀ m, n ≤ m → Q m a) :
    Extending known n (Run.ofExcept result) Q := by
  cases result with
  | ok a => exact .pure (h a rfl)
  | error cause => exact .raise cause

theorem boundTo (token : Token) (hx : Extending known n x Q) :
    Extending known n (Run.boundTo token x) Q := by
  intro s hn hs
  have h := hx s hn hs
  rw [outcome_boundTo]
  split
  · rename_i cause s' hr
    rw [hr] at h
    exact ⟨h.1, h.2.1, nofun⟩
  · exact h

theorem give {v : Value} (h : v.Legal known n) :
    Extending known n (Pure.pure v) (Value.Legal known) :=
  .pure fun _ hm => h.mono hm

theorem giveCellFree {v : Value} (h : v.CellFree) :
    Extending known n (Pure.pure v) (Value.Legal known) :=
  .give h.legal

theorem mapM {xs : List γ} {f : γ → Run Value}
    (h : ∀ x ∈ xs, ∀ m, n ≤ m → Extending known m (f x) (Value.Legal known)) :
    Extending known n (xs.mapM f) fun m vs => ∀ v ∈ vs, v.Legal known m := by
  induction xs generalizing n with
  | nil => exact .pure fun _ _ => nofun
  | cons x xs ih =>
    rw [List.mapM_cons]
    refine (h x List.mem_cons_self n (Nat.le_refl n)).bind fun m hm v hv => ?_
    refine (ih fun x hx k hk => h x (List.mem_cons_of_mem _ hx) k (Nat.le_trans hm hk)).bind
      fun k hk vs hvs => ?_
    exact .pure fun l hl => List.forall_mem_cons.mpr
      ⟨hv.mono (Nat.le_trans hk hl), fun w hw => (hvs w hw).mono hl⟩

theorem newMap {entries : Entries Value} (he : entries.All (Value.Legal known n)) :
    Extending known n (Run.update fun s => s.newMap entries) (Value.Legal known) := by
  refine .update fun s hn hs => ?_
  have hs' := he.mono fun _ hv => hv.mono hn
  refine ⟨.newMap hs', hs.newMap hs', .map ?_⟩
  rw [Store.newMap, Array.size_push]
  exact Nat.lt_succ_self _

end Extending

theorem negate_extending (v : Value) :
    Extending known n (ofExcept v.negate) (Value.Legal known) :=
  .ofExcept fun _ hw _ _ => (Value.negate_cellFree hw).legal

theorem isTruthy_extending (v : Value) :
    Extending known n (isTruthy v) fun _ _ => True :=
  .read fun _ _ _ => trivial

theorem arithmetic_extending (op : ArithOp) (l r : Value) :
    Extending known n (arithmetic op l r) (Value.Legal known) := by
  unfold arithmetic
  split
  · exact .ofExcept fun v hv _ _ => (Value.arithmetic_cellFree hv).legal
  · split
    · exact .raise _
    · split
      · refine .observe fun s v hv => ?_
        simp only [Option.bind_eq_bind, Option.pure_def, Option.bind_eq_some_iff,
          Option.some.injEq] at hv
        obtain ⟨_, _, _, _, rfl⟩ := hv
        exact .atom nofun
      · exact .raise _

theorem equals_extending (l r : Value) : Extending known n (equals l r) fun _ _ => True :=
  .observe fun _ _ _ => trivial

theorem binary_extending (op : BinaryOp) (l r : Value) :
    Extending known n (binary op l r) (Value.Legal known) := by
  have hbool : ∀ (m : Nat) (b : Bool),
      Extending known m (pure (.bool b)) (Value.Legal known) := fun _ _ => .giveCellFree (.atom rfl)
  cases op with
  | arith op => exact arithmetic_extending op l r
  | order op =>
    refine Extending.bind (P := fun _ _ => True) (.ofExcept fun _ _ _ _ => trivial)
      fun m _ o _ => ?_
    exact hbool m _
  | eq => exact (equals_extending l r).bind fun m _ b _ => hbool m _
  | ne => exact (equals_extending l r).bind fun m _ b _ => hbool m _

theorem elim_extending {found : Option Value} {object : Value} {name : String}
    (h : ∀ v, found = some v → v.Legal known n) :
    Extending known n (found.elim (undefinedProperty object name) pure) (Value.Legal known) := by
  cases found with
  | none => exact .raise _
  | some v => exact .give (h v rfl)

theorem getProperty_extending {host : Host}
    (hh : ∀ m, n ≤ m → host.FieldsHold (Value.Legal known m)) {object : Value} (name : String)
    (ho : object.Legal known n) :
    Extending known n (getProperty host object name) (Value.Legal known) := by
  unfold getProperty
  split
  · exact .raise _
  · rename_i cell
    refine .read fun s _ hs => ?_
    cases hg : (s.entries cell).get? name with
    | none => exact .atom nofun
    | some v => exact (Store.All.entries hs cell).get? hg
  · exact elim_extending fun v hv =>
      listProperty_hereditary (Value.hereditary_legal known n) (Value.legal_list.mp ho) hv
  · exact elim_extending fun v hv => (textProperty_cellFree hv).legal
  · rename_i ref
    split
    · rename_i field hf
      exact .read fun s hn hs => (hh _ hn).get hf (Store.All.fields hs ref.cell)
    · exact .raise _
  · exact .raise _

theorem lookup_extending (ctx : Context) (node : Nat) (name : Token) (scope : Nat) :
    Extending known n (lookup ctx node name scope) (Value.Legal known) := by
  refine Extending.bind (P := fun m found => ∀ v, found = some v → v.Legal known m)
    (.read fun s _ hs v hv => ?_) fun m _ found hf => ?_
  · cases hd : ctx.resolution.get? node with
    | none =>
      rw [hd] at hv
      exact Store.All.lookup? hs hv
    | some distance =>
      rw [hd] at hv
      exact Store.All.lookupAt? hs hv
  · cases found with
    | none => exact .fail _ _
    | some v => exact .give (hf v rfl)

theorem assign_adds {s : Store} {v : Value} (hs : s.Legal known) (scope : Nat) (name : String)
    (hv : v.Legal known s.maps.size) :
    s.Extends known (s.assign scope name v).2 ∧ (s.assign scope name v).2.Legal known := by
  rw [Store.assign]
  split
  · exact ⟨.of_cells_eq rfl rfl, hs.define scope name hv⟩
  · exact ⟨.refl s, hs⟩

theorem assign_extending (ctx : Context) (node : Nat) (name : Token) {v : Value} (scope : Nat)
    (hv : v.Legal known n) :
    Extending known n (assign ctx node name v scope) fun _ _ => True := by
  refine Extending.bind (P := fun _ _ => True) (.update fun s hn hs => ?_) fun m _ done _ => ?_
  · have hv' := hv.mono hn
    cases ctx.resolution.get? node with
    | none => exact ⟨(assign_adds hs _ _ hv').1, (assign_adds hs _ _ hv').2, trivial⟩
    | some distance =>
      dsimp only
      rw [Store.assignAt]
      cases s.ancestor? scope distance with
      | none => exact ⟨.refl s, hs, trivial⟩
      | some outer => exact ⟨(assign_adds hs _ _ hv').1, (assign_adds hs _ _ hv').2, trivial⟩
  · split
    · exact .pure fun _ _ => trivial
    · exact .fail _ _

theorem define_extending (scope : Nat) (name : String) {v : Value} (hv : v.Legal known n) :
    Extending known n (change fun s => s.define scope name v) fun _ _ => True :=
  .change fun _ hn hs => ⟨.of_cells_eq rfl rfl, hs.define scope name (hv.mono hn)⟩

theorem innerScope_extending (outer : Nat) {names : List (String × Value)}
    (hn : ∀ pair ∈ names, pair.2.Legal known n) :
    Extending known n (innerScope outer names) fun _ _ => True := by
  refine .update fun s hle hs => ?_
  have hnew : s.Extends known (s.newScope (some outer)).2 := .of_cells_eq rfl rfl
  exact ⟨hnew.trans (.defineAll _ _ _),
    (hs.newScope _).defineAll _ fun pair hp => (hn pair hp).mono hle, trivial⟩

theorem loopItems_extending (element : Token) {v : Value} (hv : v.Legal known n) :
    Extending known n (loopItems element v) fun m items => ∀ item ∈ items, item.Legal known m := by
  unfold loopItems
  split
  · exact .pure fun m hm item hi => (Value.legal_list.mp hv item hi).mono hm
  · rename_i cell
    refine Extending.bind (P := fun m entries => entries.All (Value.Legal known m))
      (.read fun s _ hs => Store.All.entries hs cell) fun m hm entries he => ?_
    refine .mapM fun pair hp k hk => .newMap (.ofList fun p hp' => ?_)
    simp only [List.mem_cons, List.not_mem_nil, or_false] at hp'
    obtain rfl | rfl := hp'
    · exact .atom nofun
    · exact (he pair hp).mono hk
  · exact .fail _ _

end Run

namespace NativeProgram

/-- A program that adds to the store and works with legal values only, also where calls in between
have changed the store. -/
def Tame (known : Closure → Prop) : NativeProgram → Nat → Prop
  | done (.ok v), n => v.Legal known n
  | done (.error _), _ => True
  | change f next, n =>
    ∀ s : Store, n ≤ s.maps.size → s.Legal known →
      s.Extends known (f s) ∧ (f s).Legal known ∧ (next s).Tame known (f s).maps.size
  | call f args next, n =>
    f.Legal known n ∧ (∀ v ∈ args, v.Legal known n) ∧
      ∀ m, n ≤ m → ∀ result : Except Stop Value,
        (∀ v, result = .ok v → v.Legal known m) → (next result).Tame known m

theorem ofRun_tame {x : Run Value} (h : x.Extending known n (Value.Legal known)) :
    (ofRun x).Tame known n := by
  intro s hn hs
  obtain ⟨hext, hleg, hres⟩ := h s hn hs
  refine ⟨hext, hleg, ?_⟩
  change (done (x.outcome s).1).Tame known (x.outcome s).2.maps.size
  cases hr : (x.outcome s).1 with
  | ok v => exact hres v hr
  | error stop => trivial

theorem ask_tame {f : Value} {args : List Value} {next : Value → NativeProgram}
    (hf : f.Legal known n) (ha : ∀ v ∈ args, v.Legal known n)
    (hn : ∀ m, n ≤ m → ∀ v : Value, v.Legal known m → (next v).Tame known m) :
    (ask f args next).Tame known n := by
  refine ⟨hf, ha, fun m hm result hr => ?_⟩
  cases result with
  | ok v => exact hn m hm v (hr v rfl)
  | error stop => trivial

theorem askEach_tame {f : Value} {items : List Value} {next : List Value → NativeProgram}
    (hf : f.Legal known n) (hi : ∀ item ∈ items, item.Legal known n)
    (hn : ∀ m, n ≤ m → ∀ vs : List Value, (∀ v ∈ vs, v.Legal known m) → (next vs).Tame known m) :
    (askEach f items next).Tame known n := by
  induction items generalizing n next with
  | nil => exact hn n (Nat.le_refl n) [] nofun
  | cons item items ih =>
    obtain ⟨hitem, hi⟩ := List.forall_mem_cons.mp hi
    refine ask_tame hf (List.forall_mem_singleton.mpr hitem) fun m hm v hv => ?_
    refine ih (hf.mono hm) (fun w hw => (hi w hw).mono hm) fun k hk vs hvs => ?_
    exact hn k (Nat.le_trans hm hk) (v :: vs) (List.forall_mem_cons.mpr ⟨hv.mono hk, hvs⟩)

theorem askWhich_tame {f : Value} {items kept : List Value} {next : List Value → NativeProgram}
    (hf : f.Legal known n) (hi : ∀ item ∈ items, item.Legal known n)
    (hkept : ∀ item ∈ kept, item.Legal known n)
    (hn : ∀ m, n ≤ m → ∀ vs : List Value, (∀ v ∈ vs, v.Legal known m) → (next vs).Tame known m) :
    (askWhich f items kept next).Tame known n := by
  induction items generalizing n kept with
  | nil =>
    exact hn n (Nat.le_refl n) kept.reverse fun v hv => hkept v (List.mem_reverse.mp hv)
  | cons item items ih =>
    obtain ⟨hitem, hi⟩ := List.forall_mem_cons.mp hi
    refine ask_tame hf (List.forall_mem_singleton.mpr hitem) fun m hm verdict _ s hs hleg => ?_
    refine ⟨.refl s, hleg, ?_⟩
    have hle := Nat.le_trans hm hs
    refine ih (hf.mono hle) (fun w hw => (hi w hw).mono hle) (fun w hw => ?_)
      fun k hk => hn k (Nat.le_trans hle hk)
    split at hw
    · cases List.mem_cons.mp hw with
      | inl he => exact he ▸ hitem.mono hle
      | inr hw => exact (hkept w hw).mono hle
    · exact (hkept w hw).mono hle

theorem askFold_tame {f : Value} {items : List Value} {accumulated : Value}
    (hf : f.Legal known n) (hi : ∀ item ∈ items, item.Legal known n)
    (ha : accumulated.Legal known n) : (askFold f items accumulated).Tame known n := by
  induction items generalizing n accumulated with
  | nil => exact ha
  | cons item items ih =>
    obtain ⟨hitem, hi⟩ := List.forall_mem_cons.mp hi
    refine ask_tame hf (List.forall_mem_cons.mpr ⟨ha, List.forall_mem_singleton.mpr hitem⟩)
      fun m hm v hv => ?_
    exact ih (hf.mono hm) (fun w hw => (hi w hw).mono hm) hv

theorem overList_tame {b : Builtin} {list f : Value} {k : List Value → NativeProgram}
    (hl : list.Legal known n)
    (hk : ∀ items : List Value, (∀ item ∈ items, item.Legal known n) → (k items).Tame known n) :
    (overList b list f k).Tame known n := by
  unfold overList
  split
  · exact .atom nofun
  · split
    · rename_i items hi
      split
      · exact hk items (listArgument_hereditary (Value.hereditary_legal known n) hl hi)
      · trivial
    · trivial

end NativeProgram

namespace Builtin

open NativeProgram Run

variable {settings : Settings} {invoke : Invoke}

theorem pureResult_extending (b : Builtin) {result : Except ArgumentCause Value}
    (h : ∀ v, result = .ok v → v.Legal known n) :
    Extending known n (pureResult b result) (Value.Legal known) := by
  cases result with
  | ok v => exact .give (h v rfl)
  | error cause => exact .raise _

theorem withList_extending {b : Builtin} {list : Value} {k : List Value → Run Value}
    (hl : list.Legal known n)
    (hk : ∀ items : List Value, (∀ item ∈ items, item.Legal known n) →
      Extending known n (k items) (Value.Legal known)) :
    Extending known n (withList b list k) (Value.Legal known) := by
  unfold withList
  split
  · exact .giveCellFree (.atom rfl)
  · split
    · rename_i items hi
      exact hk items (listArgument_hereditary (Value.hereditary_legal known n) hl hi)
    · exact .raise _

theorem joined_extending {list separator : Value} (hl : list.Legal known n) :
    Extending known n (joined list separator) (Value.Legal known) := by
  refine withList_extending hl fun items _ => .observe fun s v hv => ?_
  simp only [Option.bind_eq_bind, Option.pure_def, Option.bind_eq_some_iff,
    Option.some.injEq] at hv
  obtain ⟨_, _, _, _, rfl⟩ := hv
  exact .atom nofun

theorem enumerated_extending {list : Value} (hl : list.Legal known n) :
    Extending known n (enumerated list) (Value.Legal known) := by
  refine withList_extending hl fun items hi => ?_
  refine Extending.bind (.mapM fun pair hp m hm => ?_) fun m _ vs hvs => .give (.list hvs)
  have hv := (hi pair.1 (List.fst_mem_of_mem_zipIdx hp)).mono hm
  exact .newMap (placed_hereditary (Value.hereditary_legal known m) hv pair.2)

theorem withoutNulls_extending {list : Value} (hl : list.Legal known n) :
    Extending known n (withoutNulls list) (Value.Legal known) :=
  withList_extending hl fun _ hi => .give (.list fun item hm => hi item (List.mem_filter.mp hm).1)

theorem newRewriter_extending (kind : RewriterKind) :
    Extending known n (newRewriter kind) (Value.Legal known) :=
  .update fun _ _ hs => ⟨.of_cells_eq rfl rfl, hs.newRewriter kind, .atom nofun⟩

theorem call_extending_of_other {b : Builtin} {args : List Value}
    (ha : ∀ v ∈ args, v.Legal known n)
    (hm : ∀ list f, b = .map → args = [list, f] → False)
    (hf : ∀ list f, b = .filter → args = [list, f] → False)
    (hr : ∀ list f, b = .reduce → args = [list, f] → False)
    (hi : ∀ list f initial, b = .reduce → args = [list, f, initial] → False) :
    Extending known n (b.call settings invoke args) (Value.Legal known) := by
  unfold call
  split
  · exact (hm _ _ rfl rfl).elim
  · exact (hf _ _ rfl rfl).elim
  · exact (hr _ _ rfl rfl).elim
  · exact (hi _ _ _ rfl rfl).elim
  · exact pureResult_extending _ fun v hv => (sumOrZero_cellFree hv).legal
  · exact joined_extending (ha _ List.mem_cons_self)
  · exact pureResult_extending _ fun v hv => (integers_cellFree hv).legal
  · exact pureResult_extending _ fun v hv =>
      reversed_hereditary (Value.hereditary_legal known n) (ha _ List.mem_cons_self) hv
  · exact enumerated_extending (ha _ List.mem_cons_self)
  · exact withoutNulls_extending (ha _ List.mem_cons_self)
  · exact .giveCellFree (.atom rfl)
  · exact .giveCellFree (.atom rfl)
  · exact pureResult_extending _ fun v hv => (convert_cellFree hv).legal
  · exact pureResult_extending _ fun v hv => (formatAny_cellFree hv).legal
  · exact pureResult_extending _ fun v hv => (formatAny_cellFree hv).legal
  · exact pureResult_extending _ fun v hv => (formatDateOrNull_cellFree hv).legal
  · exact pureResult_extending _ fun v hv => (formatNumberOrEmpty_cellFree hv).legal
  · exact pureResult_extending _ fun v hv => (formatNumberOrEmpty_cellFree hv).legal
  · exact newRewriter_extending _
  · exact newRewriter_extending _
  · exact newRewriter_extending _
  · exact .raise _
  · split
    · exact newRewriter_extending _
    · exact .raise _
  · exact .raise _

theorem program_tame (settings : Settings) (b : Builtin) {args : List Value}
    (ha : ∀ v ∈ args, v.Legal known n) : (b.program settings args).Tame known n := by
  unfold program
  split
  · rename_i list f
    refine overList_tame (ha list (by simp)) fun items hi => ?_
    exact askEach_tame (ha f (by simp)) hi fun m _ vs hvs => .list hvs
  · rename_i list f
    refine overList_tame (ha list (by simp)) fun items hi => ?_
    exact askWhich_tame (ha f (by simp)) hi nofun fun m _ vs hvs => .list hvs
  · rename_i list f
    refine overList_tame (ha list (by simp)) fun items hi => ?_
    cases items with
    | nil => exact .atom nofun
    | cons first items =>
      obtain ⟨hfirst, hi⟩ := List.forall_mem_cons.mp hi
      exact askFold_tame (ha f (by simp)) hi hfirst
  · rename_i list f initial
    have hn : initial.Legal known n := ha initial (by simp)
    split
    · exact hn
    · exact overList_tame (ha list (by simp)) fun items hi =>
        askFold_tame (ha f (by simp)) hi hn
  · rename_i hm hf hr hi
    exact ofRun_tame (call_extending_of_other ha hm hf hr hi)

end Builtin

/-- The host's functions are these programs. They add to the store and write over nothing. They,
and the fields of host objects, give legal values for legal ones, in stores that have `count` maps
or more. -/
structure Host.Tame (host : Host) (programs : Nat → List Value → NativeProgram)
    (known : Closure → Prop) (count : Nat) : Prop where
  functions : ∀ number invoke args,
    host.functions number invoke args = (programs number args).run invoke
  tame : ∀ n, count ≤ n → ∀ number args, (∀ v ∈ args, v.Legal known n) →
    (programs number args).Tame known n
  fields : ∀ n, count ≤ n → host.FieldsHold (Value.Legal known n)

end DocTemplate
