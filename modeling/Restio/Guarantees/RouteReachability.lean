import Restio.Source.StoreHistory

/-!
# Registered routes are reachable

`add` splits the trimmed path at every `/` and keeps empty parts, as
`remove_helper` does; the main loop of `lookup_node` ends at the first empty
part. So a route with two adjacent slashes inside is stored at nodes that no
request gets to (`doubled_slash_is_dead`), and every other route is found at its
own path, whatever else is registered (`route_reachable_iff`).
-/

set_option autoImplicit false

namespace Restio.Guarantees.RouteReachability
open Restio.Lib Restio.Source.Http Restio.Source.HandlerStore HttpHandlerStore

variable {H : Type}

/-- A request for exactly the trimmed path gets the handler and an empty tail. -/
def Reachable (store : HttpHandlerStore H) (verb : Verb) (path : Str) (handler : H) : Prop :=
  ∀ req : Request, req.method = verb →
    req.target = store.base_path ++ '/' :: Text.trim '/' path →
      store.lookup req = some ([], handler)

/-- A text without `?` and `#` is routed by all its parts up to an empty one. -/
theorem leading_plain {text : Str} (plain : ∀ c ∈ text, isStop c = false) :
    leading '/' isStop text = (text.splitOn '/').takeWhile (fun part => !part.isEmpty) := by
  have whole : text.takeWhile (fun c => !isStop c) = text :=
    List.takeWhile_eq_self_iff.mpr (fun c member => by simp [plain c member])
  rw [leading, Text.segments, whole]

/-- A route of non-empty parts is read back from the text it leaves nothing of. -/
theorem splitOn_of_leading {text : Str} {route : List Str} (nonempty : route ≠ [])
    (below : route <+: leading '/' isStop text) (split : text = ['/'].intercalate route) :
    [] ∉ text.splitOn '/' := by
  have kept : ∀ part ∈ route, part ∈ Text.segments '/' isStop text ∧ part ≠ [] := by
    intro part member
    have inLeading := below.subset member
    refine ⟨(List.takeWhile_prefix _).subset inLeading, ?_⟩
    have notEmpty := List.mem_takeWhile_imp inLeading
    simpa using notEmpty
  have slashFree : ∀ part ∈ route, '/' ∉ part := by
    intro part member slash
    exact Text.sep_not_mem_of_mem_splitOn '/' (kept part member).1 slash
  rw [split, List.splitOn_intercalate '/' slashFree nonempty]
  exact fun empty => (kept [] empty).2 rfl

section Lookups
variable {store : HttpHandlerStore H} {verb : Verb} {text : Str}

/-- A request for a text without delimiters other than `/` behind the base path. -/
theorem lookup_own_path (nonempty : text ≠ []) {req : Request} (method : req.method = verb)
    (target : req.target = store.base_path ++ '/' :: text) :
    store.lookup req = (longestMatch (store.handlerFor verb) (Text.steps '/' isStop text)).or
      ((store.handlerFor verb [[]]).map (fun root => (text, root))) := by
  rw [lookup_behind _ target, dropSlash_cons_slash, method, if_neg (by simpa using nonempty)]

/-- A match that leaves nothing of the text has no empty part to stop at. -/
theorem single_of_found {handler : H} (nonempty : text ≠ [])
    (found : (longestMatch (store.handlerFor verb) (Text.steps '/' isStop text)).or
      ((store.handlerFor verb [[]]).map (fun root => (text, root))) = some ([], handler)) :
    [] ∉ text.splitOn '/' := by
  rcases Option.or_eq_some_iff.mp found with matched | ⟨-, rooted⟩
  · obtain ⟨route, longest, applied, split⟩ :=
      (longestMatch_steps_iff '/' isStop isStop_slash (handlerFor_nil store verb) _ _ _).mp matched
    rw [List.append_nil] at split
    refine splitOn_of_leading ?_ longest.below split
    rintro rfl
    exact nonempty split
  · -- the root route leaves the whole path
    obtain ⟨root, -, same⟩ := Option.map_eq_some_iff.mp rooted
    exact absurd (Prod.mk.inj same).1 nonempty

/-- A text of non-empty parts is matched as a whole by its own route. -/
theorem matched_of_single {handler : H} (plain : ∀ c ∈ text, isStop c = false)
    (single : [] ∉ text.splitOn '/')
    (registered : store.handlerFor verb (text.splitOn '/') = some handler) :
    longestMatch (store.handlerFor verb) (Text.steps '/' isStop text) = some ([], handler) := by
  have whole : leading '/' isStop text = text.splitOn '/' := by
    rw [leading_plain plain, List.takeWhile_eq_self_iff]
    intro part member
    have notEmpty : part ≠ [] := fun empty => single (empty ▸ member)
    simpa using notEmpty
  have longest :
      IsLongest (store.handlerFor verb) (leading '/' isStop text) (text.splitOn '/') := by
    rw [whole]
    refine ⟨List.prefix_rfl, by rw [registered]; rfl, ?_⟩
    intro other below _
    exact below.length_le
  refine (longestMatch_steps_iff '/' isStop isStop_slash (handlerFor_nil store verb) _ _ _).mpr
    ⟨text.splitOn '/', longest, registered, ?_⟩
  rw [List.intercalate_splitOn, List.append_nil]

end Lookups

/-- A route is reachable after its registration if and only if no two slashes
stand side by side inside the trimmed path. -/
theorem route_reachable_iff (base_path : Str) (ops : List (Op H)) (verb : Verb) (path : Str)
    (handler : H) (plain : ∀ c ∈ path, isStop c = false) (nonempty : Text.trim '/' path ≠ []) :
    Reachable ((run base_path ops).add verb path handler) verb path handler ↔
      [] ∉ (Text.trim '/' path).splitOn '/' := by
  have kept : ∀ c ∈ Text.trim '/' path, isStop c = false :=
    fun c member => plain c (Text.mem_of_mem_trim '/' member)
  have registered : ((run base_path ops).add verb path handler).handlerFor verb
      ((Text.trim '/' path).splitOn '/') = some handler := by
    rw [handlerFor, entry_add, if_pos ⟨rfl, rfl⟩]
    rfl
  generalize (run base_path ops).add verb path handler = store at registered ⊢
  constructor
  · intro reachable
    have found := reachable
      { method := verb, target := store.base_path ++ '/' :: Text.trim '/' path } rfl rfl
    rw [lookup_own_path nonempty rfl rfl] at found
    exact single_of_found nonempty found
  · intro single req method target
    rw [lookup_own_path nonempty method target, matched_of_single kept single registered,
      Option.some_or]

/-- A path with interior slashes only one at a time, beside a shorter route. -/
theorem nested_is_reachable :
    Reachable ((run "/srv".toList [.add .unknown "a".toList (1 : Nat)]).add .get "/a/b/".toList 2)
      .get "/a/b/".toList 2 :=
  (route_reachable_iff "/srv".toList [.add .unknown "a".toList 1] .get "/a/b/".toList 2
    (by simp [isStop]) (by decide +kernel)).mpr (by decide +kernel)

/-- `a//b` on an empty store: its own path is not routed. -/
theorem doubled_slash_is_dead :
    ¬ Reachable ((run [] ([] : List (Op Nat))).add .get "a//b".toList 1) .get "a//b".toList 1 := by
  intro reachable
  have found := reachable { method := .get, target := "/a//b".toList } rfl (by decide +kernel)
  revert found
  decide +kernel

end Restio.Guarantees.RouteReachability
