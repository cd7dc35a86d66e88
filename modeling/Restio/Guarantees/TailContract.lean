import Restio.Guarantees.RootRoute

/-!
# What a handler is told of the target

`HttpServer::route` documents that a handler gets the remaining part of the
target, starting with `/`, `?` or `#` if it is not empty. The main loop of
`lookup_node` keeps that. The fallback for the root route hands over what is left
behind the base path and one slash, so the slash is neither part of the tail nor
of the route, and a handler of the root route is told `foo` for `/foo`
(`root_tail_has_no_slash`). `tail_contract_iff` says when the contract holds.
-/

set_option autoImplicit false

namespace Restio.Guarantees.TailContract
open Restio.Lib Restio.Source.Http Restio.Source.HandlerStore HttpHandlerStore
open Restio.Guarantees.RootRoute

variable {H : Type}

/-- The target is base path, separator, route and tail, and the tail is empty or
starts with a delimiter. -/
structure TailPromised (base_path target : Str) (route : List Str) (tail : Str) : Prop where
  suffix : tail <:+ target
  split : target = base_path ++ '/' :: ['/'].intercalate route ++ tail
  boundary : Boundary tail

/-- Whatever route the lookup of a request succeeds on, its tail keeps the contract. -/
def KeepsContract (base_path : Str) (ops : List (Op H)) (req : Request) : Prop :=
  ∀ tail route handler, (runTagged base_path ops).lookup req = some (tail, (route, handler)) →
    TailPromised (run base_path ops).base_path req.target route tail

theorem contract_of_split {base_path target tail : Str} {route : List Str}
    (split : target = base_path ++ '/' :: ['/'].intercalate route ++ tail)
    (boundary : Boundary tail) : TailPromised base_path target route tail :=
  ⟨⟨_, split.symm⟩, split, boundary⟩

section Branches
variable {base_path target rest tail : Str}

/-- Without a slash behind the base path there is no segment to route by. -/
theorem requestSegments_of_stop {c : Char} {more : Str} (other : c ≠ '/')
    (boundary : Boundary (c :: more)) : requestSegments (c :: more) = [] := by
  have stops : isStop c = true := by
    have delimiter := (boundary_iff (c :: more)).mp boundary c rfl
    simpa [Text.delim, other] using delimiter
  rw [requestSegments, dropSlash, if_neg (by simpa using other),
    List.takeWhile_cons_of_neg (by simp [stops])]
  simp

/-- The main loop keeps the contract. -/
theorem promised_of_loop {route : List Str} (under : target = base_path ++ rest)
    (starts : Boundary rest) (nonempty : route ≠ []) (below : route <+: requestSegments rest)
    (split : dropSlash rest = ['/'].intercalate route ++ tail) (boundary : Boundary tail) :
    TailPromised base_path target route tail := by
  refine contract_of_split ?_ boundary
  cases rest with
  | nil => exact absurd (List.prefix_nil.mp below) nonempty
  | cons c more =>
    by_cases slash : c = '/'
    · subst slash
      rw [dropSlash_cons_slash] at split
      rw [under, split]
      simp
    · rw [requestSegments_of_stop slash starts] at below
      exact absurd (List.prefix_nil.mp below) nonempty

/-- The fallback keeps it when a delimiter follows the slash behind the base path. -/
theorem promised_of_root_iff (under : target = base_path ++ rest)
    (left : dropSlash rest ≠ []) :
    TailPromised base_path target [[]] (dropSlash rest) ↔
      ∃ more, rest = '/' :: more ∧ Boundary more := by
  constructor
  · intro promised
    have whole := promised.split
    rw [under, List.append_assoc] at whole
    have behind := List.append_cancel_left whole
    refine ⟨dropSlash rest, by simpa using behind, promised.boundary⟩
  · intro ⟨more, same, boundary⟩
    subst same
    exact contract_of_split (by simp [under]) boundary

end Branches

section Outcomes
variable {base_path : Str} {ops : List (Op H)} {req : Request} {rest : Str}

/-- Where nothing is found, nothing is promised. -/
theorem keepsContract_of_none (nothing : (runTagged base_path ops).lookup req = none) :
    KeepsContract base_path ops req := by
  intro tail route handler answer
  rw [nothing] at answer
  cases answer

theorem keepsContract_iff {tail : Str} {route : List Str} {handler : H}
    (answered : (runTagged base_path ops).lookup req = some (tail, (route, handler))) :
    KeepsContract base_path ops req ↔
      TailPromised (run base_path ops).base_path req.target route tail := by
  unfold KeepsContract
  rw [answered]
  constructor
  · intro kept
    exact kept _ _ _ rfl
  · intro promised tail route handler same
    cases same
    exact promised

theorem lookup_tagged_behind (under : req.target = (run base_path ops).base_path ++ rest) :
    (runTagged base_path ops).lookup req =
      (longestMatch ((runTagged base_path ops).handlerFor req.method)
          (Text.steps '/' isStop (dropSlash rest))).or
        (if (dropSlash rest).isEmpty then none
        else ((run base_path ops).handlerFor req.method [[]]).map
          (fun handler => (dropSlash rest, ([[]], handler)))) := by
  have behind : req.target = (runTagged base_path ops).base_path ++ rest := by
    rw [runTagged_base_path, under]
  rw [lookup_behind _ behind, handlerFor_runTagged, Option.map_map]
  rfl

/-- What the main loop finds keeps the contract, for the route it is tagged with. -/
theorem promised_of_match (under : req.target = (run base_path ops).base_path ++ rest)
    (starts : Boundary rest) {tail : Str} {route : List Str} {handler : H}
    (matched : longestMatch ((runTagged base_path ops).handlerFor req.method)
      (Text.steps '/' isStop (dropSlash rest)) = some (tail, (route, handler))) :
    TailPromised (run base_path ops).base_path req.target route tail := by
  obtain ⟨own, longest, applied, split⟩ :=
    (longestMatch_steps_iff '/' isStop isStop_slash (handlerFor_nil _ _) _ _ _).mp matched
  rw [handlerFor_runTagged] at applied
  obtain ⟨_, registered, tag⟩ := Option.map_eq_some_iff.mp applied
  obtain ⟨rfl, -⟩ := Prod.mk.inj tag
  have nonempty : own ≠ [] := by
    rintro rfl
    cases registered
  exact promised_of_loop under starts nonempty longest.below split
    ((boundary_iff tail).mpr (longestMatch_steps_after '/' isStop matched))

theorem longerMatch_tagged_iff (verb : Verb) :
    LongerMatch (runTagged base_path ops) verb rest ↔
      LongerMatch (run base_path ops) verb rest := by
  unfold LongerMatch
  simp only [handlerFor_runTagged, Option.isSome_map]

end Outcomes

/-- For a request under the base path the contract is kept if and only if the root
route has no handler for the verb, or a longer route matches, or the base path is
followed by nothing or by a slash and then by nothing or a delimiter. -/
theorem tail_contract_iff (base_path : Str) (ops : List (Op H)) (req : Request) (rest : Str)
    (under : req.target = (run base_path ops).base_path ++ rest) (starts : Boundary rest) :
    KeepsContract base_path ops req ↔
      (run base_path ops).handlerFor req.method [[]] = none ∨
        LongerMatch (run base_path ops) req.method rest ∨
        rest = [] ∨ ∃ more, rest = '/' :: more ∧ Boundary more := by
  have looked := lookup_tagged_behind under
  rw [← longerMatch_tagged_iff, longerMatch_iff]
  cases matched : longestMatch ((runTagged base_path ops).handlerFor req.method)
      (Text.steps '/' isStop (dropSlash rest)) with
  | some found =>
    rw [matched, Option.some_or] at looked
    have kept := (keepsContract_iff looked).mpr (promised_of_match under starts matched)
    exact iff_of_true kept (Or.inr (Or.inl (by simp)))
  | none =>
    rw [matched, Option.none_or] at looked
    cases root : (run base_path ops).handlerFor req.method [[]] with
    | none =>
      rw [root, Option.map_none, ite_self] at looked
      exact iff_of_true (keepsContract_of_none looked) (Or.inl rfl)
    | some handler =>
      by_cases left : dropSlash rest = []
      · refine iff_of_true (keepsContract_of_none (by simp [looked, left])) ?_
        rcases (dropSlash_eq_nil_iff rest).mp left with rfl | rfl
        · exact Or.inr (Or.inr (Or.inl rfl))
        · exact Or.inr (Or.inr (Or.inr ⟨[], rfl, rfl⟩))
      · have answered : (runTagged base_path ops).lookup req =
            some (dropSlash rest, ([[]], handler)) := by simp [looked, left, root]
        have something : rest ≠ [] := by
          rintro rfl
          exact left rfl
        rw [keepsContract_iff answered, promised_of_root_iff under left]
        simp [something]

/-- A query behind the base path's slash on a store with a root route. -/
theorem root_query_keeps_contract :
    KeepsContract "/srv".toList [.add .unknown [] (7 : Nat)]
      { method := .get, target := "/srv/?x".toList } :=
  (tail_contract_iff "/srv".toList [.add .unknown [] (7 : Nat)]
    { method := .get, target := "/srv/?x".toList } "/?x".toList (by decide +kernel)
    (by decide +kernel)).mpr (Or.inr (Or.inr (Or.inr ⟨"?x".toList, rfl, by decide +kernel⟩)))

/-- The handler of the root route is told `foo` for `/foo`. -/
theorem root_tail_has_no_slash :
    ¬ KeepsContract [] [.add .unknown [] (7 : Nat)]
      { method := .get, target := "/foo".toList } := by
  intro kept
  have promised := kept "foo".toList [[]] 7 (by decide +kernel)
  exact absurd promised.boundary (by decide +kernel)

end Restio.Guarantees.TailContract
