import Restio.Source.StoreHistory

/-!
# The store refines a finite map with longest-prefix lookup

The abstract route map takes a list of segments and a verb to a handler; `add`
overwrites one entry, `remove` deletes one and `clear` empties the map. On
histories whose paths are lists of proper segments the store's entries are those
of the abstract map (`entry_run`), and `lookup` answers every request under the
base path with the longest route of the map that is a prefix of the request's
segments (`lookup_refines_longest_route`).
-/

set_option autoImplicit false

namespace Restio.Guarantees.RouteRefinement
open Restio.Lib Restio.Source.Http Restio.Source.HandlerStore HttpHandlerStore

variable {H : Type}

/-- The purpose of the store: a map from routes and verbs to handlers. -/
abbrev RouteMap (H : Type) := List Str → Verb → Option H

def RouteMap.set (map : RouteMap H) (route : List Str) (verb : Verb) (value : Option H) :
    RouteMap H :=
  fun other tag => if other = route ∧ tag = verb then value else map other tag

def RouteMap.apply (map : RouteMap H) : Op H → RouteMap H
  | .add verb path handler => map.set ((Text.trim '/' path).splitOn '/') verb (some handler)
  | .remove verb path => map.set (path.splitOn '/') verb none
  | .clear => fun _ _ => none

def RouteMap.run (ops : List (Op H)) : RouteMap H :=
  ops.foldl RouteMap.apply (fun _ _ => none)

/-- The handler that answers `verb` on `route`: its own is preferred. -/
def RouteMap.handlerFor (map : RouteMap H) (verb : Verb) (route : List Str) : Option H :=
  (map route verb).or (map route .unknown)

/-- One or more non-empty segments free of `/`, `?` and `#`. -/
def ProperRoute (route : List Str) : Prop :=
  route ≠ [] ∧ ∀ part ∈ route, part ≠ [] ∧ part.any isDelim = false

/-- Added paths are proper routes once trimmed, removed ones as they are. -/
def ProperOp : Op H → Prop
  | .add _ path _ =>
      ∃ route, ProperRoute route ∧ Text.trim '/' path = ['/'].intercalate route
  | .remove _ path => ∃ route, ProperRoute route ∧ path = ['/'].intercalate route
  | .clear => True

theorem ProperRoute.plain {route : List Str} (proper : ProperRoute route) {part : Str}
    (inRoute : part ∈ route) {c : Char} (inPart : c ∈ part) : isDelim c = false := by
  have none_delim := (proper.2 part inRoute).2
  rw [List.any_eq_false] at none_delim
  simpa using none_delim c inPart

theorem ProperRoute.splitOn {route : List Str} (proper : ProperRoute route) :
    (['/'].intercalate route).splitOn '/' = route := by
  refine List.splitOn_intercalate '/' (fun part member slash => ?_) proper.1
  have plain := proper.plain member slash
  cases plain

theorem ProperRoute.removeRoute_eq {route : List Str} (proper : ProperRoute route) :
    removeRoute (['/'].intercalate route) = route := by
  have noStop : (['/'].intercalate route).takeWhile (fun c => !isStop c) =
      ['/'].intercalate route := by
    refine List.takeWhile_eq_self_iff.mpr (fun c member => ?_)
    rcases Text.mem_intercalate member with rfl | ⟨part, inRoute, inPart⟩
    · rfl
    · have plain := proper.plain inRoute inPart
      rw [← delim_eq_isDelim, Text.delim, Bool.or_eq_false_iff] at plain
      simp [plain.2]
  rw [removeRoute, Text.segments, noStop, proper.splitOn]

/-- A proper route starts with a character that is no delimiter. -/
theorem ProperRoute.head {route : List Str} (proper : ProperRoute route) :
    ∃ c text, ['/'].intercalate route = c :: text ∧ isDelim c = false := by
  obtain ⟨part, rest, rfl⟩ := List.exists_cons_of_ne_nil proper.1
  obtain ⟨nonempty, -⟩ := proper.2 part List.mem_cons_self
  obtain ⟨c, more, rfl⟩ := List.exists_cons_of_ne_nil nonempty
  have plain : isDelim c = false := proper.plain List.mem_cons_self List.mem_cons_self
  cases rest with
  | nil => exact ⟨c, more, by simp, plain⟩
  | cons next rest => exact ⟨c, _, by rw [List.intercalate_cons_cons]; rfl, plain⟩

/-- One operation on the store is the same operation on the map of its entries. -/
theorem entry_apply (store : HttpHandlerStore H) (op : Op H) (proper : ProperOp op) :
    (store.apply op).entry = RouteMap.apply store.entry op := by
  funext route verb
  cases op with
  | add tag path handler => exact entry_add store tag path handler route verb
  | remove tag path =>
    obtain ⟨segments, properRoute, rfl⟩ := proper
    rw [HttpHandlerStore.apply, entry_remove, properRoute.removeRoute_eq, RouteMap.apply,
      RouteMap.set, properRoute.splitOn]
  | clear => exact entry_clear store route verb

/-- Over a whole history the entries are the abstract map. -/
theorem entry_run (base_path : Str) (ops : List (Op H)) (proper : ∀ op ∈ ops, ProperOp op) :
    (run base_path ops).entry = RouteMap.run ops := by
  have simulation : ∀ store : HttpHandlerStore H,
      (ops.foldl HttpHandlerStore.apply store).entry = ops.foldl RouteMap.apply store.entry := by
    induction ops with
    | nil => exact fun _ => rfl
    | cons op ops ih =>
      intro store
      rw [List.foldl_cons, List.foldl_cons, ← entry_apply store op (proper op List.mem_cons_self)]
      exact ih (fun other member => proper other (List.mem_cons_of_mem _ member)) _
  rw [run, simulation, RouteMap.run]
  exact congrArg (fun map => ops.foldl RouteMap.apply map)
    (funext fun route => funext fun verb => entry_new base_path route verb)

/-- Only proper routes are ever registered by such a history. -/
theorem RouteMap.run_proper (ops : List (Op H)) (proper : ∀ op ∈ ops, ProperOp op)
    {route : List Str} {verb : Verb} (registered : (RouteMap.run ops route verb).isSome) :
    ProperRoute route := by
  induction ops using List.reverseRecOn with
  | nil => cases registered
  | append_singleton ops op ih =>
    have earlier := ih (fun other member => proper other (List.mem_append_left _ member))
    have last := proper op (List.mem_append_right _ List.mem_cons_self)
    rw [RouteMap.run, List.foldl_append, List.foldl_cons, List.foldl_nil] at registered
    cases op with
    | add tag path handler =>
      obtain ⟨segments, properRoute, trimmed⟩ := last
      rw [RouteMap.apply, RouteMap.set] at registered
      split at registered
      · next same =>
        rw [same.1, trimmed, properRoute.splitOn]
        exact properRoute
      · exact earlier registered
    | remove tag path =>
      rw [RouteMap.apply, RouteMap.set] at registered
      split at registered
      · cases registered
      · exact earlier registered
    | clear => cases registered

theorem RouteMap.handlerFor_proper (ops : List (Op H)) (proper : ∀ op ∈ ops, ProperOp op)
    {route : List Str} {verb : Verb} (applied : ((RouteMap.run ops).handlerFor verb route).isSome) :
    ProperRoute route := by
  rw [RouteMap.handlerFor, Option.isSome_or, Bool.or_eq_true] at applied
  exact applied.elim (RouteMap.run_proper ops proper) (RouteMap.run_proper ops proper)

/-- A text behind the base path starts with a route's text, up to the slash that is
dropped, only if it starts with that slash. -/
theorem dropSlash_eq_route_iff {route : List Str} (proper : ProperRoute route) {rest : Str}
    (boundary : Boundary rest) (tail : Str) :
    dropSlash rest = ['/'].intercalate route ++ tail ↔
      rest = '/' :: ['/'].intercalate route ++ tail := by
  obtain ⟨c, text, head, plain⟩ := proper.head
  rw [head]
  cases rest with
  | nil => simp [dropSlash]
  | cons first rest =>
    by_cases slash : first = '/'
    · simp [dropSlash, slash]
    · constructor
      · intro same
        rw [dropSlash, if_neg (by simpa using slash)] at same
        have delim : isDelim first = true := boundary
        rw [List.cons_append, List.cons.injEq] at same
        rw [same.1, plain] at delim
        cases delim
      · intro same
        rw [List.cons_append, List.cons.injEq] at same
        exact absurd same.1 slash

/-- `lookup` returns the handler of the longest route of the abstract map whose
segments start the request's, among those with a handler for the verb or for any
verb, together with what the route leaves of the target. -/
theorem lookup_refines_longest_route (base_path : Str) (ops : List (Op H))
    (proper : ∀ op ∈ ops, ProperOp op) (req : Request) (rest : Str)
    (target : req.target = (run base_path ops).base_path ++ rest) (boundary : Boundary rest)
    (tail : Str) (handler : H) :
    (run base_path ops).lookup req = some (tail, handler) ↔
      ∃ route,
        IsLongest ((RouteMap.run ops).handlerFor req.method) (requestSegments rest) route ∧
        (RouteMap.run ops).handlerFor req.method route = some handler ∧
        rest = '/' :: ['/'].intercalate route ++ tail := by
  have entries : (run base_path ops).handlerFor req.method =
      (RouteMap.run ops).handlerFor req.method := by
    funext route
    rw [HttpHandlerStore.handlerFor, entry_run base_path ops proper, RouteMap.handlerFor]
  have noRoot : (RouteMap.run ops).handlerFor req.method [[]] = none := by
    cases registered : (RouteMap.run ops).handlerFor req.method [[]] with
    | none => rfl
    | some root =>
      have properRoot := RouteMap.handlerFor_proper ops proper (by rw [registered]; rfl)
      exact absurd rfl (properRoot.2 [] List.mem_cons_self).1
  rw [lookup_behind _ target, entries, noRoot]
  simp only [Option.map_none, ite_self, Option.or_none]
  rw [longestMatch_steps_iff '/' isStop isStop_slash (by rw [← entries, handlerFor_nil]),
    ← requestSegments_eq]
  refine exists_congr (fun route => and_congr_right (fun longest => and_congr_right
    (fun applied => ?_)))
  have properRoute := RouteMap.handlerFor_proper ops proper (by rw [applied]; rfl)
  exact dropSlash_eq_route_iff properRoute boundary tail

/-- Two nested routes, the deeper one for one verb only, and a removed third. -/
def nestedHistory : List (Op Nat) :=
  [.add .unknown "/test/".toList 3, .add .get "test/a".toList 5, .add .get "b".toList 6,
    .remove .get "b".toList]

theorem nestedHistory_proper : ∀ op ∈ nestedHistory, ProperOp op := by
  intro op member
  simp only [nestedHistory, List.mem_cons, List.not_mem_nil, or_false] at member
  rcases member with rfl | rfl | rfl | rfl
  · exact ⟨["test".toList], ⟨by decide +kernel, by decide +kernel⟩, by decide +kernel⟩
  · exact ⟨["test".toList, "a".toList], ⟨by decide +kernel, by decide +kernel⟩, by decide +kernel⟩
  · exact ⟨["b".toList], ⟨by decide +kernel, by decide +kernel⟩, by decide +kernel⟩
  · exact ⟨["b".toList], ⟨by decide +kernel, by decide +kernel⟩, by decide +kernel⟩

theorem nested_route_wins :
    ∃ route,
      IsLongest ((RouteMap.run nestedHistory).handlerFor .get)
        (requestSegments "/test/a/ggg?hello".toList) route ∧
      (RouteMap.run nestedHistory).handlerFor .get route = some 5 ∧
      "/test/a/ggg?hello".toList = '/' :: ['/'].intercalate route ++ "/ggg?hello".toList :=
  (lookup_refines_longest_route "/srv/".toList nestedHistory nestedHistory_proper
    { method := .get, target := "/srv/test/a/ggg?hello".toList } "/test/a/ggg?hello".toList
    (by decide +kernel) (by decide +kernel) "/ggg?hello".toList 5).mp (by decide +kernel)

end Restio.Guarantees.RouteRefinement
