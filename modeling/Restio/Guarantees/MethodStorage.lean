import Restio.Source.UriParser

/-!
# Where `buildParser` stores its methods

An empty URI is split into one empty part, which is popped as if it stood behind a
trailing slash. The loop over the parts then runs zero times and the method is
pushed through `roots.end()` (`empty_uri_hits_end`). Every other string fails an
assertion or leads to a node: slashes in front, doubled or alone leave an empty
part for the assertion, and one behind is popped. `no_method_lost_iff` says for
which lists of methods the build aborts by its own assertions or stores each
method at the path of its own parts.
-/

set_option autoImplicit false

namespace Restio.Guarantees.MethodStorage
open Restio.Lib Restio.Source.Http Restio.Source.ApiMapper

variable {J H : Type}

/-- The build fails an assertion or stores each method at the path of its own parts
and nowhere else; it never pushes through `roots.end()`. -/
structure NoMethodLost (api : API J H) : Prop where
  outcome : api.buildParser = .error .assertion ∨
    ∃ roots, api.buildParser = .ok { api with roots := roots } ∧ StoredInOrder api.methods roots
  noEnd : api.buildParser ≠ .error .endIterator

theorem not_reachesEmpty_iff (methods : List (Method J H)) :
    ¬ ReachesEmpty methods ↔ ∀ front m back, methods = front ++ m :: back → m.uri = [] →
      ∃ earlier ∈ front, FailsAssertion earlier.uri := by
  unfold ReachesEmpty
  push Not
  rfl

/-- On empty roots and any URIs: no method is lost if and only if every method with
an empty URI comes behind one whose URI fails an assertion. -/
theorem no_method_lost_iff (api : API J H) (fresh : api.roots = []) :
    NoMethodLost api ↔ ∀ front m back, api.methods = front ++ m :: back → m.uri = [] →
      ∃ earlier ∈ front, FailsAssertion earlier.uri := by
  rw [← not_reachesEmpty_iff]
  have run := foldlM_addMethod_cases api.methods (StoredInOrder.nil (J := J) (H := H))
  have build : api.buildParser =
      (api.methods.foldlM addMethod []).map (fun roots => { api with roots := roots }) := by
    unfold API.buildParser
    rw [fresh]
  constructor
  · intro stored
    rcases run with ⟨ended, -⟩ | ⟨condition, -⟩
    · refine absurd ?_ stored.noEnd
      rw [build, ended]
      rfl
    · exact condition
  · intro condition
    rcases run with ⟨-, reached⟩ | ⟨-, failed | ⟨roots, done, kept⟩⟩
    · exact absurd reached condition
    · have aborted : api.buildParser = .error .assertion := by
        rw [build, failed]
        rfl
      refine ⟨Or.inl aborted, ?_⟩
      rw [aborted]
      intro same
      cases same
    · have finished : api.buildParser = .ok { api with roots := roots } := by
        rw [build, done]
        rfl
      refine ⟨Or.inr ⟨roots, finished, kept⟩, ?_⟩
      rw [finished]
      intro same
      cases same

/-- A method with an empty URI before a page. -/
def emptyUri : API Unit Nat where
  methods := [⟨.get, [], [], (), (), [], 1⟩, ⟨.get, "page".toList, [], (), (), [], 2⟩]

def slashedPages : API Unit Nat where
  methods := [⟨.get, "page/".toList, [], (), (), [], 1⟩, ⟨.put, "page".toList, [], (), (), [], 2⟩]

theorem slashedPages_kept : NoMethodLost slashedPages :=
  (no_method_lost_iff slashedPages rfl).mpr (by
    intro front m back split empty
    have member : m ∈ slashedPages.methods := by
      rw [split]
      exact List.mem_append_right _ List.mem_cons_self
    simp only [slashedPages, List.mem_cons, List.not_mem_nil, or_false] at member
    rcases member with rfl | rfl <;> cases empty)

/-- The method with the empty URI is pushed through `roots.end()`. -/
theorem empty_uri_hits_end :
    emptyUri.buildParser = .error .endIterator ∧ ¬ NoMethodLost emptyUri := by
  have ended : emptyUri.buildParser = .error .endIterator := rfl
  exact ⟨ended, fun stored => stored.noEnd ended⟩

end Restio.Guarantees.MethodStorage
