import MeshDB.Roachpb.Span
import MeshDB.Util.Hlc

/-!
# Span sets

The `SpanSet` of `spanset`: the spans a request declares, by access and scope.
-/
namespace MeshDB.Spanset

inductive SpanAccess where
  | spanReadOnly
  | spanReadWrite
deriving DecidableEq

inductive SpanScope where
  | spanGlobal
  | spanLocal
deriving DecidableEq

structure Span where
  span : Roachpb.Span
  timestamp : Hlc.Timestamp
deriving DecidableEq

structure SpanSet where
  spans : SpanAccess → SpanScope → List Span

namespace SpanSet

def getSpans (s : SpanSet) (access : SpanAccess) (scope : SpanScope) : List Span :=
  s.spans access scope

end SpanSet

def scopes : List SpanScope := [.spanGlobal, .spanLocal]

def accesses : List SpanAccess := [.spanReadOnly, .spanReadWrite]

@[simp] lemma mem_scopes (s : SpanScope) : s ∈ scopes := by cases s <;> decide

@[simp] lemma mem_accesses (a : SpanAccess) : a ∈ accesses := by cases a <;> decide

instance : DecidableEq SpanSet := fun s t =>
  decidable_of_iff
    (∀ access ∈ accesses, ∀ scope ∈ scopes, s.spans access scope = t.spans access scope)
    ⟨fun h => by
      obtain ⟨f⟩ := s
      obtain ⟨g⟩ := t
      congr
      funext access scope
      exact h access (mem_accesses access) scope (mem_scopes scope),
    fun h _ _ _ _ => by rw [h]⟩

end MeshDB.Spanset
