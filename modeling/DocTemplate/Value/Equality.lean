import DocTemplate.Number.Arithmetic
import DocTemplate.Value.Store

namespace DocTemplate

namespace Atom

def equals : Atom → Atom → Bool
  | null, null => true
  | bool a, bool b => a == b
  | number a, number b => a.equals b
  | str a, str b => a == b
  | date a, date b => a == b
  | dateTime a, dateTime b => a == b
  | zoned a, zoned b => a.compare b == .eq
  | host a, host b => a.cell == b.cell
  | function a, function b => a.same b
  | native a, native b => a == b
  | rewriter a, rewriter b => a.serial == b.serial
  | _, _ => false

/-- Texts are ordered by code points, and zoned times by the instant that they name. -/
def compare? : Atom → Atom → Option Ordering
  | bool a, bool b => some (Ord.compare a b)
  | number a, number b => some (a.compare b)
  | str a, str b => some (Ord.compare a b)
  | date a, date b => some (a.compare b)
  | dateTime a, dateTime b => some (a.compare b)
  | zoned a, zoned b => some (a.compare b)
  | _, _ => none

/-- Values of this kind are ordered among one another. -/
def isOrderable : Atom → Bool
  | bool _ | number _ | str _ | date _ | dateTime _ | zoned _ => true
  | _ => false

end Atom

namespace Value

mutual

/-- Equality of values, given the equality of different maps. -/
def equalsWith (ofMaps : Nat → Nat → Option Bool) : Value → Value → Option Bool
  | atom a, atom b => some (a.equals b)
  | list xs, list ys =>
    if xs.length = ys.length then allEqualWith ofMaps xs ys else some false
  | map c, map d => if c = d then some true else ofMaps c d
  | _, _ => some false

/-- The first pair that differs decides. -/
def allEqualWith (ofMaps : Nat → Nat → Option Bool) : List Value → List Value → Option Bool
  | x :: xs, y :: ys => do
    if ← equalsWith ofMaps x y then allEqualWith ofMaps xs ys else return false
  | _, _ => some true

end

def compare? : Value → Value → Option Ordering
  | atom a, atom b => a.compare? b
  | _, _ => none

def isOrderable : Value → Bool
  | atom a => a.isOrderable
  | _ => false

end Value

namespace Store

/-- Equality of maps that lie at most `depth` deep in one another. -/
def mapsEqual? (s : Store) : Nat → Nat → Nat → Option Bool
  | 0, _, _ => none
  | depth + 1, c, d =>
    let xs := s.entries c
    let ys := s.entries d
    if xs.size = ys.size then
      xs.toList.allM fun (key, x) =>
        match ys.get? key with
        | some y => y.equalsWith (mapsEqual? s depth) x
        | none => some false
    else some false

/-- On a path that is longer than there are pairs of maps, a pair comes twice, and then the
comparison has no end. -/
def equals? (s : Store) (a b : Value) : Option Bool :=
  a.equalsWith (s.mapsEqual? (s.maps.size * s.maps.size)) b

end Store

end DocTemplate
