import DocTemplate.Output.Repair
import DocTemplate.Proofs.Nesting

namespace DocTemplate

namespace OutputToken

def tag? : OutputToken → Option (String × TagPart)
  | raw token => token.tag?
  | _ => none

def elementNames : OutputToken → List String
  | raw (.tag name part _ _ _) => if part = .closing then [] else [name]
  | markup xml => Repair.tagNames xml
  | _ => []

end OutputToken

def outputTags (tokens : List OutputToken) : List (String × TagPart) :=
  tokens.filterMap OutputToken.tag?

def namesWithin (tokens : List OutputToken) : List String :=
  tokens.flatMap OutputToken.elementNames

def WellNested (tokens : List OutputToken) : Prop := nest .right [] (outputTags tokens) = some []

/-- Somewhere in the list stands an element of this name around these tokens. A self-closing tag
has nothing to stand around. -/
def HasElement (tokens : List OutputToken) (name : String) (body : List OutputToken) : Prop :=
  ∃ before opening closing after, tokens = before ++ opening :: (body ++ closing :: after) ∧
    opening.tag? = some (name, .opening) ∧ closing.tag? = some (name, .closing) ∧ WellNested body

/-- The list is well nested, and `P` holds of each element and what it holds. -/
inductive Elements (P : String → List OutputToken → Prop) : List OutputToken → Prop
  | nil : Elements P []
  | plain {token : OutputToken} {rest : List OutputToken} :
      (∀ name part, token.tag? = some (name, part) → part = .selfClosing) →
      Elements P rest → Elements P (token :: rest)
  | element {opening closing : OutputToken} {name : String} {body rest : List OutputToken} :
      opening.tag? = some (name, .opening) → closing.tag? = some (name, .closing) →
      P name body → Elements P body → Elements P rest →
      Elements P (opening :: (body ++ closing :: rest))

section

variable {P : String → List OutputToken → Prop} {token opening closing : OutputToken}
  {name : String} {tokens body rest before after : List OutputToken} {opened : List String}

theorem outputTags_cons_some {mark : String × TagPart} (h : token.tag? = some mark) :
    outputTags (token :: rest) = mark :: outputTags rest := List.filterMap_cons_some h

theorem outputTags_append (xs ys : List OutputToken) :
    outputTags (xs ++ ys) = outputTags xs ++ outputTags ys := List.filterMap_append

theorem namesWithin_append (xs ys : List OutputToken) :
    namesWithin (xs ++ ys) = namesWithin xs ++ namesWithin ys := List.flatMap_append

theorem nest_opening (h : opening.tag? = some (name, .opening)) (opened : List String) :
    nest .right opened (outputTags (opening :: rest)) =
      nest .right (name :: opened) (outputTags rest) := by
  rw [outputTags_cons_some h]
  exact nest_entry .right opened name _

theorem nest_plain (h : ∀ name part, token.tag? = some (name, part) → part = .selfClosing)
    (opened : List String) :
    nest .right opened (outputTags (token :: rest)) = nest .right opened (outputTags rest) := by
  cases ht : token.tag? with
  | none => rw [outputTags, List.filterMap_cons_none ht, outputTags]
  | some mark =>
    obtain ⟨name, part⟩ := mark
    obtain rfl := h name part ht
    rw [outputTags_cons_some ht, nest_selfClosing]

theorem WellNested.not_before_opening (h : WellNested (before ++ opening :: rest))
    (ho : opening.tag? = some (name, .opening)) {deeper : List String}
    (hr : nest .right [] (outputTags rest) = some deeper) : False := by
  rw [WellNested, outputTags_append, nest_append_eq_some] at h
  obtain ⟨opened, -, h⟩ := h
  rw [nest_opening ho] at h
  have hn : nest .right (name :: opened) (outputTags rest) = some (deeper ++ name :: opened) :=
    nest_extend hr (name :: opened)
  rw [h] at hn
  cases deeper <;> cases hn

theorem WellNested.not_closing (h : WellNested (body ++ closing :: rest)) (hb : WellNested body)
    (hc : closing.tag? = some (name, .closing)) : False := by
  rw [WellNested, outputTags_append, nest_skip hb, outputTags_cons_some hc] at h
  rw [show TagPart.closing = Side.right.exit from rfl, nest_exit_nil] at h
  cases h

theorem WellNested.body_unique {body' after' : List OutputToken} {closing' : OutputToken}
    {name' : String} (h : body ++ closing :: after = body' ++ closing' :: after')
    (hb : WellNested body) (hb' : WellNested body') (hc : closing.tag? = some (name, .closing))
    (hc' : closing'.tag? = some (name', .closing)) : body = body' := by
  obtain ⟨more, rfl, hm⟩ | ⟨more, rfl, hm⟩ := List.append_eq_append_iff.mp h
  · cases more with
    | nil => exact (List.append_nil body).symm
    | cons token more =>
      obtain ⟨rfl, -⟩ := List.cons.inj hm
      exact (hb'.not_closing hb hc).elim
  · cases more with
    | nil => exact List.append_nil body'
    | cons token more =>
      obtain ⟨rfl, -⟩ := List.cons.inj hm
      exact (hb.not_closing hb' hc').elim

namespace Elements

theorem append {more : List OutputToken} (h : Elements P tokens) (h' : Elements P more) :
    Elements P (tokens ++ more) := by
  induction h with
  | nil => exact h'
  | plain ht _ ih => exact .plain ht ih
  | element ho hc hp hb _ _ ih =>
    rw [List.cons_append, List.append_assoc, List.cons_append]
    exact .element ho hc hp hb ih

theorem single (h : ∀ name part, token.tag? = some (name, part) → part = .selfClosing) :
    Elements P [token] := .plain h .nil

theorem wellNested (h : Elements P tokens) : WellNested tokens := by
  induction h with
  | nil => rfl
  | plain ht _ ih => exact (nest_plain ht []).trans ih
  | @element opening closing name body rest ho hc _ _ _ ihb ihr =>
    rw [WellNested, nest_opening ho, outputTags_append, nest_skip ihb, outputTags_cons_some hc]
    exact (nest_exit .right [] name _).trans ihr

theorem of_hasElement (h : Elements P tokens) (he : HasElement tokens name body) :
    P name body := by
  obtain ⟨before, opening, closing, after, heq, ho, hc, hw⟩ := he
  induction h generalizing before after with
  | nil => cases before <;> cases heq
  | @plain token rest ht _ ih =>
    cases before with
    | nil =>
      obtain ⟨rfl, -⟩ := List.cons.inj heq
      cases ht _ _ ho
    | cons first before => exact ih before after (List.cons.inj heq).2
  | @element opening' closing' name' body' rest ho' hc' hp hb _ ihb ihr =>
    cases before with
    | nil =>
      obtain ⟨rfl, htail⟩ := List.cons.inj heq
      obtain rfl : name' = name := congrArg Prod.fst (Option.some.inj (ho'.symm.trans ho))
      obtain rfl := WellNested.body_unique htail hb.wellNested hw hc' hc
      exact hp
    | cons first before =>
      obtain ⟨within, rfl, hin⟩ | ⟨within, rfl, hin⟩ :=
        List.append_eq_append_iff.mp (List.cons.inj heq).2
      · cases within with
        | nil =>
          obtain ⟨rfl, -⟩ := List.cons.inj hin
          cases hc'.symm.trans ho
        | cons token within => exact ihr within after (List.cons.inj hin).2
      · cases within with
        | nil =>
          obtain ⟨rfl, -⟩ := List.cons.inj hin
          cases hc'.symm.trans ho
        | cons token within =>
          obtain ⟨rfl, htail⟩ := List.cons.inj hin
          -- The opening tag lies in the outer element; so does the closing tag, since the body of
          -- the outer element closes what it opens.
          obtain ⟨more, rfl, hmore⟩ | ⟨more, rfl, hmore⟩ := List.append_eq_append_iff.mp htail
          · cases more with
            | nil =>
              rw [List.append_nil] at hb
              exact (hb.wellNested.not_before_opening ho hw).elim
            | cons token more =>
              obtain ⟨rfl, -⟩ := List.cons.inj hmore
              exact ihb before more rfl
          · rw [WellNested, outputTags_append, nest_append_eq_some] at hw
            obtain ⟨deeper, hd, -⟩ := hw
            exact (hb.wellNested.not_before_opening ho hd).elim

end Elements

end

end DocTemplate
