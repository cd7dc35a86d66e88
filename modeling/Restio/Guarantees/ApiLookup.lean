import Restio.Source.ApiTree

/-!
# Lookup against the registered methods

For an API with well-formed URIs, `buildParser` on empty roots succeeds, and the
lookup over its tree answers exactly the requests that a registered method's verb
and template answer (`lookup_sound_and_complete`). The target counts by its
non-empty parts between slashes; leading, repeated and trailing slashes are
immaterial.

Which of several answering methods is returned, and with which bindings, is not
part of this result.
-/

set_option autoImplicit false

namespace Restio.Guarantees.ApiLookup
open Restio.Lib Restio.Source.Http Restio.Source.ApiMapper Restio.Spec

variable {J H : Type}

/-- The lookup succeeds exactly when some registered method answers, and returns
one that does. -/
structure SoundAndComplete (api built : API J H) (verb : Verb) (target : Str) : Prop where
  succeeds_iff : (built.lookup verb target).isSome ↔
    ∃ m ∈ api.methods, Answers m verb (Text.pieces '/' target)
  returns_one : ∀ result, built.lookup verb target = some result →
    result.method ∈ api.methods ∧ Answers result.method verb (Text.pieces '/' target)

theorem lookup_sound_and_complete (api : API J H) (fresh : api.roots = [])
    (wellFormed : ∀ m ∈ api.methods, WellFormedUri m.uri) :
    ∃ built, api.buildParser = .ok built ∧
      ∀ verb target, SoundAndComplete api built verb target := by
  obtain ⟨roots, run, built⟩ := api.buildParser_built fresh wellFormed
  refine ⟨{ api with roots := roots }, run, fun verb target => ⟨?_, ?_⟩⟩
  · rw [API.lookup_eq]
    exact built.lookup_helper_isSome_iff verb (Text.pieces '/' target)
  · intro result found
    rw [API.lookup_eq, lookup_helper_eq_some_iff] at found
    obtain ⟨ending, rfl⟩ := found
    exact ending.method_answers built

/-- Overlapping templates, the second written with a trailing slash. -/
def versionedItems : API Unit Nat where
  methods :=
    [⟨.get, "items/<string:name>".toList, [], (), (), [], 1⟩,
      ⟨.get, "items/<int:number>/".toList, [], (), (), [], 2⟩]

theorem versionedItems_wellFormed : ∀ m ∈ versionedItems.methods, WellFormedUri m.uri := by
  intro m member
  rcases List.mem_cons.mp member with rfl | member
  · exact ⟨⟨[.literal "items".toList, .stringVar "name".toList], by decide, by decide⟩,
      Or.inl (by decide)⟩
  · rw [List.mem_singleton.mp member]
    exact ⟨⟨[.literal "items".toList, .intVar "number".toList], by decide, by decide⟩,
      Or.inr (by decide)⟩

theorem versionedItems_sound_and_complete :
    ∃ built, versionedItems.buildParser = .ok built ∧
      ∀ verb target, SoundAndComplete versionedItems built verb target :=
  lookup_sound_and_complete versionedItems rfl versionedItems_wellFormed

end Restio.Guarantees.ApiLookup
