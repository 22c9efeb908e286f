import Mathlib.Algebra.GroupWithZero.Nat
import Mathlib.Data.List.Lex
import Mathlib.Data.Fintype.Basic

/-!
# Keys and spans

The `Key` and `Span` of `roachpb`. Keys are byte strings ordered
lexicographically. An end key may be nil, which the code sometimes tells apart
from an empty one.
-/
namespace MeshDB.Roachpb

abbrev Byte := Fin 256

instance neZero_byte : NeZero 256 := ⟨by decide⟩

abbrev Key := List Byte

/-- The point `key` if the end key has length zero, otherwise the keys before the end key. -/
structure Span where
  key : Key
  endKey : Option Key
deriving DecidableEq, Inhabited

namespace Span

def endKeyBytes (sp : Span) : Key := sp.endKey.getD []

def isPoint (sp : Span) : Bool := sp.endKeyBytes.isEmpty

def Mem (k : Key) (sp : Span) : Prop :=
  if sp.isPoint then k = sp.key else sp.key ≤ k ∧ k < sp.endKeyBytes

instance (k : Key) (sp : Span) : Decidable (Mem k sp) :=
  inferInstanceAs (Decidable (if sp.isPoint then k = sp.key else
    sp.key ≤ k ∧ k < sp.endKeyBytes))

def Wf (sp : Span) : Prop := sp.isPoint ∨ sp.key < sp.endKeyBytes

end Span

/-- The addresses from a key up to, and without, the end key. -/
structure RSpan where
  key : Key
  endKey : Key
deriving DecidableEq

namespace RSpan

def containsKey (rs : RSpan) (k : Key) : Bool := decide (rs.key ≤ k) && decide (k < rs.endKey)

def containsKeyInverted (rs : RSpan) (k : Key) : Bool :=
  decide (rs.key < k) && decide (k ≤ rs.endKey)

def containsKeyRange (rs : RSpan) (start stop : Key) : Bool :=
  if stop.isEmpty then rs.containsKey start
  else if stop < start then false
  else if stop = start then rs.containsKey start
  else decide (rs.key ≤ start) && decide (stop ≤ rs.endKey)

/-- `Intersect`, which fails if the spans do not overlap. -/
def intersect (rs rspan : RSpan) : Option RSpan :=
  if ¬ rs.key < rspan.endKey ∨ ¬ rspan.key < rs.endKey then none
  else
    let key := if rs.key < rspan.key then rspan.key else rs.key
    let endKey := if rspan.containsKeyRange rspan.key rs.endKey then rs.endKey else rspan.endKey
    some ⟨key, endKey⟩

end RSpan
end MeshDB.Roachpb
