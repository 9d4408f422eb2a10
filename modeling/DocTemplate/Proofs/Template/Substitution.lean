import DocTemplate.Proofs.Group.Lifting
import DocTemplate.Proofs.Output.Serialized
import DocTemplate.Proofs.Program.Straight
import DocTemplate.Proofs.Run.Keeping
import DocTemplate.Template.Render

namespace DocTemplate

namespace Run

variable {α β : Type} {ctx : Context} {call : Invoke} {scope : Nat} {s s' : Store}

theorem outcome_bind_eq_ok {x : Run α} {f : α → Run β} {b : β} :
    (x >>= f).outcome s = (.ok b, s') ↔
      ∃ a s₁, x.outcome s = (.ok a, s₁) ∧ (f a).outcome s₁ = (.ok b, s') := by
  rw [outcome_bind]
  cases x.outcome s with
  | mk r s₁ => cases r <;> simp

theorem outcome_observe_eq_ok {f : Store → Option α} {a : α} :
    (observe f).outcome s = (.ok a, s') ↔ f s = some a ∧ s = s' := by
  rw [observe, outcome_bind, outcome_read]
  dsimp only
  cases f s with
  | none =>
    refine ⟨fun h => ?_, fun h => ?_⟩
    · cases h
    · cases h.1
  | some b =>
    change ((Except.ok b, s) : Except Stop α × Store) = _ ↔ _
    simp

theorem outcome_pure_eq_ok {a b : α} :
    (pure a : Run α).outcome s = (.ok b, s') ↔ a = b ∧ s = s' := by
  change ((Except.ok a, s) : Except Stop α × Store) = _ ↔ _
  simp

/-- What a statement that stands alone writes: an expression the escaped text of its value, any
other nothing. -/
inductive Writes (ctx : Context) (call : Invoke) (scope : Nat) :
    Stmt → Store → String → Store → Prop
  | expr {e : Expr} {s s' : Store} {v : Value} {text : String} :
      (eval ctx call e scope).outcome s = (.ok v, s') → s'.outputText? v = some text →
      Writes ctx call scope (.expr e) s (escapeText text) s'
  | declare {name : Token} {init : Option Expr} {s s' : Store} {v : Value} :
      (evalOrNull ctx call init scope).outcome s = (.ok v, s') →
      Writes ctx call scope (.declare name init) s "" (s'.define scope name.lexeme v)
  | run {e : Expr} {s s' : Store} {v : Value} :
      (eval ctx call e scope).outcome s = (.ok v, s') →
      Writes ctx call scope (.run e) s "" s'

inductive WritesAll (ctx : Context) (call : Invoke) (scope : Nat) (written : GroupId → String) :
    List (GroupId × Stmt) → Store → Store → Prop
  | nil {s : Store} : WritesAll ctx call scope written [] s s
  | cons {id : GroupId} {stmt : Stmt} {rest : List (GroupId × Stmt)} {s s₁ s' : Store} :
      Writes ctx call scope stmt s (written id) s₁ →
      WritesAll ctx call scope written rest s₁ s' →
      WritesAll ctx call scope written ((id, stmt) :: rest) s s'

theorem exec_writes {kind : GroupKind} {stmt : Stmt} {tokens : List OutputToken}
    (hk : kind.Reads stmt) (h : (exec ctx call stmt scope).outcome s = (.ok tokens, s')) :
    ∃ text, Writes ctx call scope stmt s text s' ∧
      tokens.flatMap OutputToken.chars = text.toList := by
  cases stmt with
  | expr e =>
    rw [exec] at h
    obtain ⟨v, s₁, hv, h⟩ := outcome_bind_eq_ok.mp h
    obtain ⟨text, s₂, ht, h⟩ := outcome_bind_eq_ok.mp h
    obtain ⟨hshown, rfl⟩ := outcome_observe_eq_ok.mp ht
    obtain ⟨rfl, rfl⟩ := outcome_pure_eq_ok.mp h
    exact ⟨escapeText text, .expr hv hshown, List.append_nil _⟩
  | declare name init =>
    rw [exec] at h
    obtain ⟨v, s₁, hv, h⟩ := outcome_bind_eq_ok.mp h
    obtain ⟨_, s₂, hd, h⟩ := outcome_bind_eq_ok.mp h
    obtain rfl := (Prod.mk.inj hd).2
    obtain ⟨rfl, rfl⟩ := outcome_pure_eq_ok.mp h
    exact ⟨"", .declare hv, rfl⟩
  | run e =>
    rw [exec] at h
    obtain ⟨v, s₁, hv, h⟩ := outcome_bind_eq_ok.mp h
    obtain ⟨rfl, rfl⟩ := outcome_pure_eq_ok.mp h
    exact ⟨"", .run hv, rfl⟩
  | _ => cases kind <;> cases hk

theorem Writes.eq_empty {e : Expr} {text : String} (h : Writes ctx call scope (.run e) s text s') :
    text = "" := by
  cases h
  rfl

theorem WritesAll.congr {written written' : GroupId → String} {order : List (GroupId × Stmt)}
    (h : WritesAll ctx call scope written order s s')
    (heq : ∀ id ∈ order.map Prod.fst, written' id = written id) :
    WritesAll ctx call scope written' order s s' := by
  induction h with
  | nil => exact .nil
  | @cons id stmt rest s s₁ s' hw _ ih =>
    rw [List.map_cons, List.forall_mem_cons] at heq
    exact .cons (heq.1 ▸ hw) (ih heq.2)

theorem WritesAll.of_mem {written : GroupId → String} {order : List (GroupId × Stmt)} {id : GroupId}
    {stmt : Stmt} (h : WritesAll ctx call scope written order s s') (hm : (id, stmt) ∈ order) :
    ∃ s₁ s₂, Writes ctx call scope stmt s₁ (written id) s₂ := by
  induction h with
  | nil => cases hm
  | cons hw _ ih =>
    rcases List.mem_cons.mp hm with he | hm
    · obtain ⟨rfl, rfl⟩ := Prod.mk.inj he
      exact ⟨_, _, hw⟩
    · exact ih hm

end Run

def Stmt.isVerbatim : Stmt → Bool
  | verbatim _ => true
  | _ => false

theorem GroupKind.Reads.not_isVerbatim {kind : GroupKind} {stmt : Stmt} (h : kind.Reads stmt) :
    stmt.isVerbatim = false := by
  cases stmt with
  | verbatim item => cases kind <;> cases h
  | _ => rfl

def StreamItem.rendered (written : GroupId → String) : StreamItem → List Char
  | raw token => token.text.toList
  | group id => (written id).toList
  | sentinel => []

theorem groupIds_subset_cons (item : StreamItem) (items : List StreamItem) :
    groupIds items ⊆ groupIds (item :: items) :=
  ((List.sublist_cons_self item items).filterMap _).subset

theorem rendered_congr {items : List StreamItem} {written written' : GroupId → String}
    (h : ∀ id ∈ groupIds items, written' id = written id) :
    items.flatMap (StreamItem.rendered written') = items.flatMap (StreamItem.rendered written) := by
  induction items with
  | nil => rfl
  | cons item items ih =>
    have htail := ih fun id hid => h id (groupIds_subset_cons item items hid)
    have hhead : item.rendered written' = item.rendered written := by
      cases item with
      | group id => rw [StreamItem.rendered, StreamItem.rendered, h id List.mem_cons_self]
      | raw | sentinel => rfl
    rw [List.flatMap_cons, List.flatMap_cons, htail, hhead]

namespace Run

variable {ctx : Context} {call : Invoke} {scope : Nat} {s s' : Store}

theorem execAll_writes {groups : Groups} {items : List StreamItem} {body : List Stmt}
    {done : List (List OutputToken)} {tokens : List OutputToken}
    (hb : List.Forall₂ (StreamItem.ReadAs groups) items body) (hn : (groupIds items).Nodup)
    (h : (execAll ctx call body scope done).outcome s = (.ok tokens, s')) :
    ∃ order written, order.map Prod.fst = groupIds items ∧
      order.map Prod.snd = body.filter (!·.isVerbatim) ∧
      (∀ ran ∈ order, StreamItem.ReadAs groups (.group ran.1) ran.2) ∧
      WritesAll ctx call scope written order s s' ∧
      tokens.flatMap OutputToken.chars =
        done.reverse.flatten.flatMap OutputToken.chars ++
          items.flatMap (StreamItem.rendered written) := by
  induction hb generalizing s done with
  | nil =>
    rw [execAll] at h
    obtain ⟨rfl, rfl⟩ := outcome_pure_eq_ok.mp h
    exact ⟨[], fun _ => "", rfl, rfl, by simp, .nil, by simp⟩
  | @cons item stmt items body hread hbody ih =>
    rw [execAll] at h
    obtain ⟨first, s₁, hfirst, h⟩ := outcome_bind_eq_ok.mp h
    have hdone : (first :: done).reverse.flatten.flatMap OutputToken.chars =
        done.reverse.flatten.flatMap OutputToken.chars ++ first.flatMap OutputToken.chars := by
      simp
    cases hread with
    | raw | sentinel =>
      rw [exec] at hfirst
      obtain ⟨rfl, rfl⟩ := outcome_pure_eq_ok.mp hfirst
      obtain ⟨order, written, hids, hbodies, hstmts, hw, ht⟩ := ih hn h
      refine ⟨order, written, hids, hbodies, hstmts, hw, ?_⟩
      rw [ht, hdone, List.append_assoc]
      simp [StreamItem.rendered, OutputToken.chars, OutputToken.write]
    | @group id _ n n' hparse hreads =>
      obtain ⟨text, htext, hchars⟩ := exec_writes hreads hfirst
      obtain ⟨hid, hn'⟩ := List.nodup_cons.mp hn
      obtain ⟨order, written, hids, hbodies, hstmts, hw, ht⟩ := ih hn' h
      -- No later item is this group, so what it writes can be added to what the others write.
      have hother : ∀ j ∈ groupIds items, Function.update written id text j = written j :=
        fun j hj => Function.update_of_ne (fun he : j = id => hid (he ▸ hj)) text written
      have hown : Function.update written id text id = text := Function.update_self id text written
      have hbodies' : ((id, stmt) :: order).map Prod.snd =
          (stmt :: body).filter (!·.isVerbatim) := by
        rw [List.map_cons, hbodies, List.filter_cons_of_pos (by rw [hreads.not_isVerbatim]; rfl)]
      refine ⟨(id, stmt) :: order, Function.update written id text, congrArg (id :: ·) hids,
        hbodies', List.forall_mem_cons.mpr ⟨.group hparse hreads, hstmts⟩, ?_, ?_⟩
      · exact .cons (by rwa [hown]) (hw.congr (by rwa [hids]))
      · rw [ht, hdone, hchars, List.flatMap_cons, List.append_assoc, rendered_congr hother,
          StreamItem.rendered, hown]

theorem execAll_verbatim {groups : Groups} {items : List StreamItem} {body : List Stmt}
    (hb : List.Forall₂ (StreamItem.ReadAs groups) items body) (hn : groupIds items = [])
    (done : List (List OutputToken)) :
    ∃ tokens, (execAll ctx call body scope done).outcome s = (.ok tokens, s) := by
  induction hb generalizing done with
  | nil => exact ⟨_, by rw [execAll]; exact outcome_pure_eq_ok.mpr ⟨rfl, rfl⟩⟩
  | @cons item stmt items body hread hbody ih =>
    rw [execAll]
    cases hread with
    | raw token =>
      obtain ⟨tokens, h⟩ := ih hn ([.raw token] :: done)
      exact ⟨tokens, outcome_bind_eq_ok.mpr ⟨[.raw token], s, by rw [exec]; rfl, h⟩⟩
    | sentinel =>
      obtain ⟨tokens, h⟩ := ih hn ([.sentinel] :: done)
      exact ⟨tokens, outcome_bind_eq_ok.mpr ⟨[.sentinel], s, by rw [exec]; rfl, h⟩⟩
    | group => cases hn

end Run

theorem resolveStmts_verbatim {groups : Groups} {items : List StreamItem} {body : List Stmt}
    (hb : List.Forall₂ (StreamItem.ReadAs groups) items body) (hn : groupIds items = [])
    (r : Resolver) : Resolver.resolveStmts body r = .ok r := by
  induction hb with
  | nil => rfl
  | @cons item stmt items body hread hbody ih =>
    cases hread with
    | raw | sentinel => exact ih hn
    | group => cases hn

def Part.substituted (written : GroupId → String) : Part → List Char
  | kept token => token.text.toList
  | opens id _ _ => (written id).toList
  | continues .. => []

section

variable {written : GroupId → String} {parts : List Part} {items : List StreamItem}
  {groups : Groups}

theorem rendered_items :
    (parts.filterMap Part.item?).flatMap (StreamItem.rendered written) =
      parts.flatMap (Part.substituted written) := by
  induction parts with
  | nil => rfl
  | cons part parts ih =>
    rw [List.flatMap_cons, ← ih]
    cases part <;> rfl

theorem rendered_fixed
    (h : ∀ id ∈ groupIds items, groups.fixed (.group id) = false → written id = "") :
    (items.filter groups.fixed).flatMap (StreamItem.rendered written) =
      items.flatMap (StreamItem.rendered written) := by
  induction items with
  | nil => rfl
  | cons item items ih =>
    have htail := ih fun id hid => h id (groupIds_subset_cons item items hid)
    rw [List.filter_cons, List.flatMap_cons, ← htail]
    split
    · rw [List.flatMap_cons]
    · next hf =>
      cases item with
      | group id =>
        rw [StreamItem.rendered, h id List.mem_cons_self (by simpa using hf)]
        rfl
      | raw | sentinel => simp [Groups.fixed] at hf

theorem substituted_of_kept (h : ∀ id, parts.filterMap (Part.given? id) = []) :
    parts.flatMap (Part.substituted written) = parts.flatMap Part.chars := by
  induction parts with
  | nil => rfl
  | cons part parts ih =>
    cases part with
    | kept token =>
      rw [List.flatMap_cons, List.flatMap_cons, ih h]
      rfl
    | opens id offset text =>
      have hid := h id
      simp [Part.given?] at hid
    | continues id offset text =>
      have hid := h id
      simp [Part.given?] at hid

end

/-- The context and the store in which a program starts to run: the built-in functions and the data
are its global names. -/
def Surroundings.start (around : Surroundings) (resolution : Resolution)
    (data : List (String × Value)) (store : Store) : Context × Store :=
  let (globals, store) := store.newScope none
  (⟨resolution, around.host, around.settings, globals⟩,
    store.defineAll globals (builtinNames ++ data))

theorem Template.render_eq_ok {t : Template} {around : Surroundings} {data : List (String × Value)}
    {store store' : Store} {text : String} :
    t.render around false data store = (.ok text, store') ↔
      ∃ resolution ctx start tokens left,
        resolveNames t.program (Builtin.all.map Builtin.name ++ data.map Prod.fst) =
          .ok resolution ∧
        around.start resolution data store = (ctx, start) ∧
        (Run.execAll ctx (Run.apply ctx around.depth) t.program.body ctx.globals []).outcome start =
          (.ok tokens, left) ∧
        left.release ctx.globals = store' ∧ serialize tokens = text := by
  unfold Template.render Program.render
  cases hres : resolveNames t.program (Builtin.all.map Builtin.name ++ data.map Prod.fst) with
  | error e => simp
  | ok resolution =>
    simp only [Program.run, Surroundings.start, Run.outcome, Except.ok.injEq, exists_and_left,
      exists_eq_left', Prod.mk.injEq, exists_eq_left', and_assoc]
    generalize Run.execAll _ _ _ _ _ _ = result
    obtain ⟨r, s⟩ := result
    cases r with
    | ok tokens => simp [and_comm]
    | error stop => simp

theorem reportAs_eq_ok {κ α : Type} {kind : ErrorKind} {message : κ → String}
    {result : Except (Fault κ) α} {a : α} : reportAs kind message result = .ok a ↔
      result = .ok a := by
  cases result <;> simp [reportAs]

theorem groupIds_filter (groups : Groups) (items : List StreamItem) :
    groupIds (items.filter groups.fixed) =
      (groupIds items).filter fun id => groups.fixed (.group id) := by
  unfold groupIds
  rw [List.filterMap_filter, List.filter_filterMap]
  congr 1
  funext item
  cases item with
  | group id => by_cases h : groups.fixed (.group id) <;> simp [StreamItem.group?, Option.filter, h]
  | raw | sentinel => simp [StreamItem.group?]

theorem StreamItem.ReadAs.eq_run {groups : Groups} {id : GroupId} {stmt : Stmt}
    (h : StreamItem.ReadAs groups (.group id) stmt) (hf : groups.fixed (.group id) = false) :
    ∃ e, stmt = .run e := by
  cases h with
  | group _ hreads =>
    cases hk : (groups.lookup id).kind with
    | placeholder => simp [Groups.fixed, hk] at hf
    | run =>
      rw [hk] at hreads
      cases stmt <;> first | exact ⟨_, rfl⟩ | cases hreads
    | _ =>
      rw [hk] at hreads
      cases hreads

theorem StreamItem.ReadAs.of_tokens {groups groups' : Groups} {id : GroupId} {stmt : Stmt}
    (h : StreamItem.ReadAs groups (.group id) stmt)
    (hk : (groups.lookup id).kind = (groups'.lookup id).kind)
    (ht : (groups.lookup id).tokens = (groups'.lookup id).tokens) :
    StreamItem.ReadAs groups' (.group id) stmt := by
  cases h with
  | group hparse hreads =>
    rw [Group.parse, ht] at hparse
    exact .group hparse (hk ▸ hreads)

/-- That `order` has the statements of a program that groups are read as: each group once, and all
but `do` groups in the order of the document. -/
structure Program.RunsGroups (p : Program) (groups : Groups) (order : List (GroupId × Stmt)) :
    Prop where
  statements : order.map Prod.snd = p.body.filter (!·.isVerbatim)
  read : ∀ id stmt, (id, stmt) ∈ order → StreamItem.ReadAs groups (.group id) stmt
  once : (order.map Prod.fst).Perm (List.range groups.size)
  inOrder : (order.map Prod.fst).filter (fun id => groups.fixed (.group id)) =
    (List.range groups.size).filter (fun id => groups.fixed (.group id))

namespace Template

variable {fileType : FileType} {delimiters : Delimiters} {document text : String}
  {stream out : TemplateStream} {template : Template} {parts : List Part}

/-- A document whose groups stand alone has, once it is expanded, one statement for each item, and
its `do` groups may stand elsewhere. -/
theorem compile_straight (hs : readStream fileType delimiters document = .ok stream)
    (hl : stream.Lifted delimiters fileType.nicknames parts)
    (hk : ∀ g ∈ stream.groups, g.kind = .placeholder ∨ g.kind = .run)
    (hc : compile fileType delimiters document = .ok template) :
    ∃ out, stream.Rearranged out ∧
      List.Forall₂ (StreamItem.ReadAs out.groups) out.items template.program.body := by
  obtain ⟨program, hp, hc⟩ := bind_eq_ok.mp hc
  obtain rfl := Except.ok.inj hc
  obtain ⟨stream', hs', hp⟩ := bind_eq_ok.mp hp
  obtain rfl := Except.ok.inj (hs.symm.trans hs')
  obtain ⟨out, ho, hp⟩ := bind_eq_ok.mp hp
  have hstands (id : GroupId) (hid : id ∈ groupIds stream.items) :
      (stream.groups.lookup id).kind.standsAlone := by
    have hsize := hl.sound.inTable id hid
    have hlookup : stream.groups.lookup id = stream.groups[id] := by
      simp [Groups.lookup, hsize]
    rw [hlookup]
    rcases hk stream.groups[id] (Array.getElem_mem hsize) with h | h <;> rw [h] <;> rfl
  have hstraight : stream.Straight := hstands
  have hr := hstraight.expand hl.sound.nodup (reportAs_eq_ok.mp ho)
  refine ⟨out, hr, parseProgram_straight (fun id hid => ?_) (reportAs_eq_ok.mp hp)⟩
  obtain ⟨target, ht⟩ := hr.same id
  rw [ht]
  have hid := (hr.perm.filterMap _).mem_iff.mp hid
  exact ⟨hstands id hid, hl.classified hid⟩

/-- What a run of the program writes, part by part of the document. -/
theorem execAll_substitutes {ctx : Context} {call : Invoke} {scope : Nat} {s s' : Store}
    {tokens : List OutputToken} {p : Program}
    (hl : stream.Lifted delimiters fileType.nicknames parts) (hout : stream.Rearranged out)
    (hbody : List.Forall₂ (StreamItem.ReadAs out.groups) out.items p.body)
    (h : (Run.execAll ctx call p.body scope []).outcome s = (.ok tokens, s')) :
    ∃ order written, p.RunsGroups stream.groups order ∧
      Run.WritesAll ctx call scope written order s s' ∧
      (serialize tokens).toList = parts.flatMap (Part.substituted written) := by
  obtain ⟨order, written, hids, hbodies, hstmts, hwrites, hchars⟩ :=
    Run.execAll_writes hbody hout.paired.nodup h
  have hread (id : GroupId) (stmt : Stmt) (h : (id, stmt) ∈ order) :
      StreamItem.ReadAs stream.groups (.group id) stmt := by
    obtain ⟨target, hsame⟩ := hout.same id
    exact (hstmts (id, stmt) h).of_tokens (by rw [hsame]) (by rw [hsame])
  have hmoved (id : GroupId) (hid : id ∈ groupIds out.items)
      (hf : stream.groups.fixed (.group id) = false) : written id = "" := by
    rw [← hids] at hid
    obtain ⟨⟨_, stmt⟩, hmem, rfl⟩ := List.mem_map.mp hid
    obtain ⟨e, rfl⟩ := (hread _ stmt hmem).eq_run hf
    obtain ⟨s₁, s₂, hw⟩ := hwrites.of_mem hmem
    exact hw.eq_empty
  have hperm : (groupIds out.items).Perm (groupIds stream.items) := hout.perm.filterMap _
  refine ⟨order, written, ⟨hbodies, hread, ?_, ?_⟩, hwrites, ?_⟩
  · rwa [hids, ← hl.ids]
  · rw [hids, ← groupIds_filter, hout.fixed, groupIds_filter, hl.ids]
  -- Expansion moves only groups that write nothing: left out, they leave both streams the same.
  calc (serialize tokens).toList
      = out.items.flatMap (StreamItem.rendered written) := by
        rw [OutputToken.toList_serialize, hchars]
        rfl
    _ = (out.items.filter stream.groups.fixed).flatMap (StreamItem.rendered written) :=
        (rendered_fixed hmoved).symm
    _ = (stream.items.filter stream.groups.fixed).flatMap (StreamItem.rendered written) := by
        rw [hout.fixed]
    _ = stream.items.flatMap (StreamItem.rendered written) :=
        rendered_fixed fun id hid => hmoved id (hperm.mem_iff.mpr hid)
    _ = parts.flatMap (Part.substituted written) := by rw [hl.items, rendered_items]

theorem render_plain (hl : stream.Lifted delimiters fileType.nicknames parts)
    (hout : stream.Rearranged out)
    (hbody : List.Forall₂ (StreamItem.ReadAs out.groups) out.items template.program.body)
    (hd : document.toList = parts.flatMap Part.chars) (hn : stream.groups = #[])
    (around : Surroundings) (data : List (String × Value)) (store : Store) :
    ∃ store', template.render around false data store = (.ok document, store') := by
  have hids : groupIds stream.items = [] := by rw [hl.ids, hn]; rfl
  have hids' : groupIds out.items = [] := by
    rw [← List.perm_nil, ← hids]
    exact hout.perm.filterMap _
  have hres : ∃ resolution, resolveNames template.program
      (Builtin.all.map Builtin.name ++ data.map Prod.fst) = .ok resolution := by
    refine ⟨_, reportAs_eq_ok.mpr (bind_eq_ok.mpr ⟨_, resolveStmts_verbatim hbody hids' _, rfl⟩)⟩
  obtain ⟨resolution, hres⟩ := hres
  obtain ⟨tokens, hexec⟩ := Run.execAll_verbatim hbody hids' []
  obtain ⟨order, written, -, -, htext⟩ := execAll_substitutes hl hout hbody hexec
  refine ⟨_, render_eq_ok.mpr ⟨resolution, _, _, tokens, _, hres, rfl, hexec, rfl, ?_⟩⟩
  have hkept (id : GroupId) : parts.filterMap (Part.given? id) = [] := hl.owned id (by simp [hn])
  rw [substituted_of_kept hkept, ← hd] at htext
  exact String.toList_injective htext

/-- Rendering a document whose groups stand alone substitutes: the document is divided into parts,
and in the rendered text the parts that groups start with are what the groups write, the other
texts of groups are left out, and everything else is as it is. A document without groups always
comes out as it is. -/
theorem render_substitutes {around : Surroundings} {data : List (String × Value)}
    {store store' : Store} (hs : readStream fileType delimiters document = .ok stream)
    (hk : ∀ g ∈ stream.groups, g.kind = .placeholder ∨ g.kind = .run)
    (hc : compile fileType delimiters document = .ok template)
    (hr : template.render around false data store = (.ok text, store')) :
    ∃ pieces parts resolution ctx start left order written,
      tokenize fileType.textTags document = .ok pieces ∧
      Divided Span.clamp delimiters.opening.toList 0 0 pieces parts ∧
      stream.Lifted delimiters fileType.nicknames parts ∧
      document.toList = parts.flatMap Part.chars ∧
      text.toList = parts.flatMap (Part.substituted written) ∧
      resolveNames template.program (Builtin.all.map Builtin.name ++ data.map Prod.fst) =
        .ok resolution ∧
      around.start resolution data store = (ctx, start) ∧
      template.program.RunsGroups stream.groups order ∧
      Run.WritesAll ctx (Run.apply ctx around.depth) ctx.globals written order start left ∧
      left.release ctx.globals = store' ∧
      (stream.groups = #[] → ∀ around data store, ∃ store',
        template.render around false data store = (.ok document, store')) := by
  obtain ⟨pieces, ht, hextract⟩ := bind_eq_ok.mp hs
  rw [reportAs_eq_ok] at ht hextract
  obtain ⟨parts, hdivided, hlifted⟩ := extractGroups_lifted ht hextract
  obtain ⟨out, hout, hbody⟩ := compile_straight hs hlifted hk hc
  obtain ⟨resolution, ctx, start, tokens, left, hres, hstart, hexec, hleft, rfl⟩ :=
    render_eq_ok.mp hr
  obtain ⟨order, written, hruns, hwrites, htext⟩ := execAll_substitutes hlifted hout hbody hexec
  have hdocument : document.toList = parts.flatMap Part.chars := by
    rw [hdivided.chars, tokenize_text ht]
  exact ⟨pieces, parts, resolution, ctx, start, left, order, written, ht, hdivided, hlifted,
    hdocument, htext, hres, hstart, hruns, hwrites, hleft,
    render_plain hlifted hout hbody hdocument⟩

/-- A group that spans two runs of text, and one that only calls a function. -/
def spreadDocument : String := "<t>a \x7bx</t><t>\x7d\x7bdo x\x7d &amp; b</t>"

def textInT : FileType := { FileType.plain with textTags := ["t"] }

def noSurroundings : Surroundings := ⟨.none, ⟨.standard, none, default⟩, 0⟩

def stages? (document : String) (data : List (String × Value)) :
    Option (TemplateStream × Template × String) :=
  match readStream textInT .standard document, compile textInT .standard document with
  | .ok stream, .ok template =>
    match (template.render noSurroundings false data .empty).1 with
    | .ok text => some (stream, template, text)
    | .error _ => none
  | _, _ => none

theorem of_stages? {data : List (String × Value)}
    (h : stages? document data = some (stream, template, text)) :
    readStream textInT .standard document = .ok stream ∧
      compile textInT .standard document = .ok template ∧
      ∃ store', template.render noSurroundings false data .empty = (.ok text, store') := by
  unfold stages? at h
  split at h
  next stream' template' hs hc =>
    split at h
    next text' hr =>
      obtain ⟨rfl, rfl, rfl⟩ := by simpa using h
      exact ⟨hs, hc, _, Prod.ext hr rfl⟩
    next => cases h
  next => cases h

theorem render_substitutes_spreadDocument :
    ∃ stream template store',
      readStream textInT .standard spreadDocument = .ok stream ∧
      (∀ g ∈ stream.groups, g.kind = .placeholder ∨ g.kind = .run) ∧
      compile textInT .standard spreadDocument = .ok template ∧
      template.render noSurroundings false [("x", .str "<")] .empty =
        (.ok "<t>a &lt;</t><t> &amp; b</t>", store') ∧
      ∃ (parts : List Part) (written : GroupId → String),
        spreadDocument.toList = parts.flatMap Part.chars ∧
        "<t>a &lt;</t><t> &amp; b</t>".toList = parts.flatMap (Part.substituted written) := by
  have hstages : (stages? spreadDocument [("x", .str "<")]).map (fun result =>
      (result.2.2, result.1.groups.all fun g => g.kind = .placeholder ∨ g.kind = .run)) =
        some ("<t>a &lt;</t><t> &amp; b</t>", true) := by
    decide +kernel
  obtain ⟨⟨stream, template, text⟩, hresult, htext⟩ := Option.map_eq_some_iff.mp hstages
  obtain ⟨rfl, hall⟩ := Prod.mk.inj htext
  obtain ⟨hs, hc, store', hr⟩ := of_stages? hresult
  have hk : ∀ g ∈ stream.groups, g.kind = .placeholder ∨ g.kind = .run := by
    intro g hg
    simpa using (Array.all_eq_true_iff_forall_mem.mp hall) g hg
  obtain ⟨_, parts, _, _, _, _, _, written, -, -, -, hd, ht, -⟩ := render_substitutes hs hk hc hr
  exact ⟨stream, template, store', hs, hk, hc, hr, parts, written, hd, ht⟩

end Template

end DocTemplate
