import DocTemplate.Run.Basic

namespace DocTemplate

abbrev Invoke := Value → List Value → Run Value

/-- How templates read a field of an object and assign to it. Both work on all that the object
holds. -/
structure HostField where
  name : String
  get : Entries Value → Value
  /-- What the object holds after a value is assigned to the field, or why the value is refused.
  A field without it is read-only. -/
  set : Option (Entries Value → Value → Except Stop (Entries Value))

structure Host where
  types : List (String × List HostField)
  /-- Host functions by number. -/
  functions : Nat → Invoke → List Value → Run Value
  /-- Host rewriters by number. -/
  rewriters : Nat → StreamRewriter

namespace Host

def none : Host := ⟨[], fun _ _ _ => pure .null, fun _ => .ok⟩

def field? (h : Host) (typeName name : String) : Option HostField :=
  (h.types.lookup typeName).bind fun fields => fields.find? (·.name == name)

def rewrite (h : Host) (kind : RewriterKind) (tokens : List OutputToken) :
    Except String (List OutputToken) :=
  match kind with
  | .identity => .ok tokens
  | .replaceWith xml => .ok (DocTemplate.replaceWith xml tokens)
  | .lineBreaks b => .ok (b.rewrite tokens)
  | .host number => h.rewriters number tokens

end Host

end DocTemplate
