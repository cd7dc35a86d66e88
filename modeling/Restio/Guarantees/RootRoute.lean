import Restio.Source.StoreHistory

/-!
# The root route as a catch-all

A handler on the empty route lives under a child named `""`. The main loop of
`lookup_node` breaks on an empty part and never visits it; the fallback behind
the loop does, unless the target is empty once the base path and one slash are
dropped. So the root route is a catch-all of last resort exactly for the targets
with something left behind the base path and a slash (`root_route_last_resort_iff`),
and a request for the base path itself finds nothing (`base_path_itself_is_unrouted`).
-/

set_option autoImplicit false

namespace Restio.Guarantees.RootRoute
open Restio.Lib Restio.Source.Http Restio.Source.HandlerStore HttpHandlerStore

variable {H : Type}

/-- A registered non-root route with an applicable handler matches the request. -/
def LongerMatch (store : HttpHandlerStore H) (verb : Verb) (rest : Str) : Prop :=
  ∃ route, route ≠ [] ∧ route ≠ [[]] ∧ (store.handlerFor verb route).isSome ∧
    route <+: requestSegments rest

/-- `lookup` always answers, and with the root handler and the whole remaining
text exactly when nothing longer matches. -/
structure LastResort (store : HttpHandlerStore H) (req : Request) (root : H) : Prop where
  answers : store.lookup req ≠ none
  last : store.lookup req = some (store.remainder req, root) ↔
    ¬ LongerMatch store req.method (req.target.drop store.base_path.length)

/-- A non-root route that starts a request's segments takes some of its text. -/
theorem tail_shorter {rest tail : Str} {route : List Str} (nonempty : route ≠ [])
    (below : route <+: requestSegments rest)
    (split : dropSlash rest = ['/'].intercalate route ++ tail) :
    tail.length < (dropSlash rest).length := by
  obtain ⟨part, more, rfl⟩ := List.exists_cons_of_ne_nil nonempty
  have partNonempty := ne_nil_of_mem_requestSegments (below.subset List.mem_cons_self)
  have taken := Text.length_le_intercalate '/' part more
  have positive := List.length_pos_iff.mpr partNonempty
  rw [split, List.length_append]
  omega

/-- A longer match is one that the main loop finds. -/
theorem longerMatch_iff (store : HttpHandlerStore H) (verb : Verb) (rest : Str) :
    LongerMatch store verb rest ↔
      longestMatch (store.handlerFor verb) (Text.steps '/' isStop (dropSlash rest)) ≠ none := by
  rw [ne_eq, longestMatch_eq_none_iff, Text.steps_map_fst '/' isStop isStop_slash]
  constructor
  · intro ⟨route, nonempty, _, applied, below⟩ nothing
    rw [nothing route nonempty below] at applied
    cases applied
  · intro something
    push Not at something
    obtain ⟨route, nonempty, below, applied⟩ := something
    refine ⟨route, nonempty, ?_, Option.isSome_iff_ne_none.mpr applied, below⟩
    rintro rfl
    exact ne_nil_of_mem_requestSegments (below.subset List.mem_cons_self) rfl

/-- With a handler for the verb or for any verb on the empty route and a target
under the base path, the root route is the catch-all of last resort if and only
if something is left of the target behind the base path and one slash. -/
theorem root_route_last_resort_iff (base_path : Str) (ops : List (Op H)) (req : Request) (root : H)
    (registered : (run base_path ops).handlerFor req.method [[]] = some root)
    (under : UnderBase (run base_path ops).base_path req.target) :
    LastResort (run base_path ops) req root ↔ (run base_path ops).remainder req ≠ [] := by
  have looked := lookup_eq (run base_path ops) req
  rw [if_neg (not_lt.mpr under.length_le), registered] at looked
  generalize (run base_path ops) = store at *
  constructor
  · intro lastResort empty
    have nothing : Text.steps '/' isStop ([] : Str) = [] := by
      rw [Text.steps]
      exact if_pos rfl
    rw [empty, nothing] at looked
    exact lastResort.answers looked
  · intro nonempty
    simp only [List.isEmpty_iff, nonempty, if_false, Option.map_some] at looked
    cases matched : longestMatch (store.handlerFor req.method)
        (Text.steps '/' isStop (store.remainder req)) with
    | none =>
      rw [matched, Option.none_or] at looked
      refine ⟨by simp [looked], ⟨fun _ => ?_, fun _ => looked⟩⟩
      rintro ⟨route, notEmpty, -, applied, below⟩
      rw [longestMatch_eq_none_iff, Text.steps_map_fst '/' isStop isStop_slash] at matched
      rw [matched route notEmpty below] at applied
      cases applied
    | some found =>
      obtain ⟨tail, handler⟩ := found
      rw [matched, Option.some_or] at looked
      obtain ⟨route, longest, applied, split⟩ :=
        (longestMatch_steps_iff '/' isStop isStop_slash (handlerFor_nil store _) _ _ _).mp matched
      have notEmpty : route ≠ [] := by
        rintro rfl
        cases applied
      have shorter := tail_shorter notEmpty longest.below split
      refine ⟨by simp [looked], ⟨fun same => ?_, fun noLonger => ?_⟩⟩
      · rw [looked, Option.some.injEq, Prod.mk.injEq] at same
        rw [same.1, remainder] at shorter
        exact absurd shorter (lt_irrefl _)
      · refine absurd ⟨route, notEmpty, ?_, longest.applied, longest.below⟩ noLonger
        rintro rfl
        exact ne_nil_of_mem_requestSegments (longest.below.subset List.mem_cons_self) rfl

/-- A target that starts its query right behind the base path falls to the root. -/
theorem query_falls_to_root :
    LastResort (run "/srv".toList [.add .unknown [] (7 : Nat)])
      { method := .get, target := "/srv?x".toList } 7 :=
  (root_route_last_resort_iff "/srv".toList [.add .unknown [] (7 : Nat)]
    { method := .get, target := "/srv?x".toList } 7 (by decide +kernel)
    ⟨"?x".toList, by decide +kernel, by decide +kernel⟩).mpr (by decide +kernel)

/-- The base path itself is under the base path and finds no handler. -/
theorem base_path_itself_is_unrouted :
    UnderBase (run "/srv".toList [.add .unknown [] (7 : Nat)]).base_path "/srv".toList ∧
    ¬ LastResort (run "/srv".toList [.add .unknown [] (7 : Nat)])
      { method := .get, target := "/srv".toList } 7 := by
  refine ⟨⟨[], by decide +kernel, by decide +kernel⟩, fun lastResort => ?_⟩
  exact lastResort.answers (by decide +kernel)

end Restio.Guarantees.RootRoute
