import Restio.Source.StoreHistory

/-!
# Base path confinement

The HttpServer constructor documents that whatever is outside of the base path
gets a 404. `lookup_node` compares sizes only: it drops as many characters as
the base path has and routes what is left, so a target that merely is as long as
the base path is routed too (`foreign_prefix_is_routed`). `lookup_confined_iff`
says exactly when the documented confinement holds.
-/

set_option autoImplicit false

namespace Restio.Guarantees.BasePath
open Restio.Lib Restio.Source.Http Restio.Source.HandlerStore HttpHandlerStore

variable {H : Type}

/-- A handler is found only for a target under the base path. -/
def Confined (store : HttpHandlerStore H) (req : Request) : Prop :=
  (store.lookup req).isSome → UnderBase store.base_path req.target

/-- Confinement holds of a request exactly when its target is under the base
path, or shorter than it, or no route with a handler for its verb covers what
follows the first `base_path_.size()` characters. -/
theorem lookup_confined_iff (base_path : Str) (ops : List (Op H)) (req : Request) :
    Confined (run base_path ops) req ↔
      UnderBase (run base_path ops).base_path req.target ∨
      req.target.length < (run base_path ops).base_path.length ∨
      ∀ route, ((run base_path ops).handlerFor req.method route).isSome →
        ¬ Covers route (req.target.drop (run base_path ops).base_path.length) := by
  rw [Confined, lookup_isSome_iff]
  constructor
  · intro confined
    by_cases under : UnderBase (run base_path ops).base_path req.target
    · exact Or.inl under
    · refine Or.inr ?_
      by_contra routable
      rw [not_or, not_lt] at routable
      push Not at routable
      exact under (confined routable)
  · rintro (under | short | uncovered) ⟨fits, route, registered, covers⟩
    · exact under
    · exact absurd short (not_lt.mpr fits)
    · exact absurd covers (uncovered route registered)

/-- The base path `/api`, the route `test` and a target under `/xyz`. -/
theorem foreign_prefix_is_routed :
    ¬ Confined (run "/api".toList [.add .unknown "test".toList (1 : Nat)])
      { method := .get, target := "/xyz/test".toList } := by
  intro confined
  obtain ⟨rest, target, -⟩ := confined (by decide +kernel)
  have base : (run "/api".toList [.add .unknown "test".toList (1 : Nat)]).base_path =
      "/api".toList := by decide +kernel
  rw [base] at target
  exact absurd (congrArg (List.take 4) target) (by simp)

end Restio.Guarantees.BasePath
