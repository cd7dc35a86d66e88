import Restio.Source.HandlerStore

/-!
# The handler store as a trie of entries

The store's map is the children map of a virtual root without handlers. On it
`add`, `remove_helper` and the main loop of `lookup_node` are the trie's
insertion, pruning erasure and remembering walk; the tokenizers of the three
functions are `List.splitOn`, `Text.segments` and `Text.steps`. What follows is
stated on the entries of a store: which handler a (route, verb) pair holds.

The results hold for arbitrary path strings. A route is the list of parts that
`add` makes of a path, empty parts included.
-/

set_option autoImplicit false

namespace Restio.Source.HandlerStore
open Restio.Lib Restio.Source.Http

variable {H : Type}

/-- The delimiters other than the separator `/`. -/
def isStop (c : Char) : Bool := c == '?' || c == '#'

theorem delim_eq_isDelim : Text.delim '/' isStop = HttpHandlerStore.isDelim := by
  funext c
  rw [Text.delim, isStop, HttpHandlerStore.isDelim, Bool.or_assoc, beq_eq_decide c '/']

theorem isStop_slash : isStop '/' = false := rfl

theorem firstPart_eq (text : Str) :
    Text.firstPart '/' isStop text = text.takeWhile (fun c => !HttpHandlerStore.isDelim c) := by
  rw [Text.firstPart, delim_eq_isDelim]

theorem afterPart_eq (text : Str) :
    Text.afterPart '/' isStop text = text.dropWhile (fun c => !HttpHandlerStore.isDelim c) := by
  rw [Text.afterPart, delim_eq_isDelim]

/-- The route `add` stores a path under. -/
def addRoute (path : Str) : List Str := (Text.trim '/' path).splitOn '/'

/-- The route `remove` looks a path up under. -/
def removeRoute (path : Str) : List Str := Text.segments '/' isStop path

/-- The segments a request is routed by: one leading `/` dropped, cut at the
first `?` or `#`, split at `/` and ended by the first empty segment. -/
def requestSegments (rest : Str) : List Str :=
  (((HttpHandlerStore.dropSlash rest).takeWhile (fun c => !isStop c)).splitOn '/').takeWhile
    (fun part => !part.isEmpty)

/-- Empty, or starting with `/`, `?` or `#`. -/
def Boundary (rest : Str) : Prop := rest.head?.all HttpHandlerStore.isDelim = true

instance : DecidablePred Boundary := fun rest =>
  inferInstanceAs (Decidable (rest.head?.all HttpHandlerStore.isDelim = true))

theorem boundary_iff (rest : Str) :
    Boundary rest ↔ ∀ c, rest.head? = some c → Text.delim '/' isStop c = true := by
  rw [Boundary, delim_eq_isDelim]
  cases rest <;> simp

/-- The target starts with the base path and the next character, if any, is one
of `/`, `?` and `#`. -/
def UnderBase (base_path target : Str) : Prop :=
  ∃ rest, target = base_path ++ rest ∧ Boundary rest

theorem UnderBase.length_le {base_path target : Str} (under : UnderBase base_path target) :
    base_path.length ≤ target.length := by
  obtain ⟨rest, rfl, -⟩ := under
  simp

theorem addRoute_ne_nil (path : Str) : addRoute path ≠ [] := by simp [addRoute]

namespace HttpHandlerStore

@[simp] theorem dropSlash_cons_slash (rest : Str) : dropSlash ('/' :: rest) = rest := if_pos rfl

theorem dropSlash_eq_nil_iff (rest : Str) : dropSlash rest = [] ↔ rest = [] ∨ rest = ['/'] := by
  unfold dropSlash
  cases rest with
  | nil => simp
  | cons c more => by_cases slash : c = '/' <;> simp [slash]

/-- The virtual node above the store's map. -/
def root (store : HttpHandlerStore H) : Node H := ⟨[], store.nodes⟩

/-- The handler registered for a route and a verb. -/
def entry (store : HttpHandlerStore H) (route : List Str) (verb : Verb) : Option H :=
  store.root.get route verb

/-- The handler that answers a verb on a route: its own, else the one for any verb. -/
def handlerFor (store : HttpHandlerStore H) (verb : Verb) (route : List Str) : Option H :=
  (store.entry route verb).or (store.entry route .unknown)

theorem addParts_eq_insert (verb : Verb) (handler : H) (parts : List Str) (nonempty : parts ≠ [])
    (node : Node H) :
    Trie.insert parts verb handler node =
      { node with children := addParts verb handler parts node.children } := by
  induction parts generalizing node with
  | nil => exact absurd rfl nonempty
  | cons part rest ih =>
    cases rest with
    | nil => rfl
    | cons next rest =>
      rw [Trie.insert, addParts, ih (by simp)]

theorem remove_helper_eq_erase (verb : Verb) (path_tail : Str) (node : Node H) :
    Trie.erase (removeRoute path_tail) verb node =
      { node with children := remove_helper verb path_tail node.children } := by
  induction size : path_tail.length using Nat.strongRecOn generalizing path_tail node with
  | ind n ih =>
    subst size
    rw [removeRoute, Text.segments_eq '/' isStop isStop_slash, firstPart_eq, afterPart_eq,
      remove_helper, Trie.erase]
    cases found : FiniteMap.find node.children
        (path_tail.takeWhile (fun c => !isDelim c)) with
    | none => exact (Trie.eta node).symm
    | some child =>
      have childEq : Trie.erase
          (if (path_tail.dropWhile (fun c => !isDelim c)).head? = some '/' then
            Text.segments '/' isStop (path_tail.dropWhile (fun c => !isDelim c)).tail
          else []) verb child =
          if _more : (path_tail.dropWhile (fun c => !isDelim c)).head? = some '/' then
            { child with
              children := remove_helper verb (path_tail.dropWhile (fun c => !isDelim c)).tail
                child.children }
          else { child with handlers := FiniteMap.erase child.handlers verb } := by
        by_cases more : (path_tail.dropWhile (fun c => !isDelim c)).head? = some '/'
        · rw [if_pos more, dif_pos more]
          exact ih _ (length_tail_lt more) _ child rfl
        · rw [if_neg more, dif_neg more]
          rfl
      simp only [childEq]
      generalize (if _more : (path_tail.dropWhile (fun c => !isDelim c)).head? = some '/' then
          ({ child with
            children := remove_helper verb (path_tail.dropWhile (fun c => !isDelim c)).tail
              child.children } : Node H)
        else { child with handlers := FiniteMap.erase child.handlers verb }) = child'
      rw [Trie.isDead]
      by_cases dead : (List.isEmpty child'.handlers && child'.children.isEmpty) = true
      · rw [if_pos dead, if_pos dead]
      · rw [if_neg dead, if_neg dead]

section Indices
variable (req_target : Str) (start : Nat)

/-- The part that the loop cuts out at `start` is the first of what is left there. -/
theorem take_findDelim :
    (req_target.drop start).take (findDelim req_target start - start) =
      Text.firstPart '/' isStop (req_target.drop start) := by
  rw [findDelim, Nat.add_sub_cancel_left, firstPart_eq]
  exact (List.prefix_iff_eq_take.mp (List.takeWhile_prefix _)).symm

theorem drop_findDelim :
    req_target.drop (findDelim req_target start) =
      Text.afterPart '/' isStop (req_target.drop start) := by
  have split := List.takeWhile_append_dropWhile (p := fun c => !isDelim c)
    (l := req_target.drop start)
  rw [findDelim, ← List.drop_drop, afterPart_eq]
  nth_rewrite 2 [← split]
  exact List.drop_left

theorem getElem_findDelim :
    req_target[findDelim req_target start]? =
      (Text.afterPart '/' isStop (req_target.drop start)).head? := by
  rw [← drop_findDelim, List.head?_drop]

theorem drop_findDelim_succ :
    req_target.drop (findDelim req_target start + 1) =
      (Text.afterPart '/' isStop (req_target.drop start)).tail := by
  rw [← drop_findDelim, List.tail_drop]

end Indices

/-- The index scan over a target is the walk along the steps of what is left of
the target at `start`. -/
theorem lookupLoop_eq_walk (req_verb : Verb) (req_target : Str) (node : Node H) (start : Nat)
    (last : Option (Str × Node H × H)) :
    lookupLoop req_verb req_target node.children start last =
      Trie.walk (get_handler req_verb) (Text.steps '/' isStop (req_target.drop start)) node
        last := by
  induction size : req_target.length - start using Nat.strongRecOn
    generalizing node start last with
  | ind n ih =>
    subst size
    have atDelim := getElem_findDelim req_target start
    rw [lookupLoop, Text.steps]
    simp only [take_findDelim, drop_findDelim, atDelim]
    by_cases empty : Text.firstPart '/' isStop (req_target.drop start) = []
    · rw [if_pos empty, if_pos (by simp [empty])]
      rfl
    · rw [if_neg empty, if_neg (by simpa using empty), Trie.walk]
      cases found : FiniteMap.find node.children
          (Text.firstPart '/' isStop (req_target.drop start)) with
      | none => rfl
      | some child =>
        simp only
        by_cases more : (Text.afterPart '/' isStop (req_target.drop start)).head? = some '/'
        · rw [dif_pos more, dif_pos more, ← drop_findDelim_succ]
          have inside := (List.getElem?_eq_some_iff.mp (atDelim.trans more)).1
          have forward : start ≤ findDelim req_target start := Nat.le_add_right _ _
          rw [ih _ (by omega) child _ _ rfl]
          congr 1
          cases get_handler req_verb child.handlers <;> rfl
        · rw [dif_neg more, dif_neg more]
          cases get_handler req_verb child.handlers <;> rfl

theorem root_add (store : HttpHandlerStore H) (verb : Verb) (path : Str) (handler : H) :
    (store.add verb path handler).root = Trie.insert (addRoute path) verb handler store.root :=
  (addParts_eq_insert verb handler _ (addRoute_ne_nil path) store.root).symm

theorem root_remove (store : HttpHandlerStore H) (verb : Verb) (path : Str) :
    (store.remove verb path).root = Trie.erase (removeRoute path) verb store.root :=
  (remove_helper_eq_erase verb path store.root).symm

/-- `add` overwrites one entry: the trimmed path's route and the verb. -/
theorem entry_add (store : HttpHandlerStore H) (verb : Verb) (path : Str) (handler : H)
    (route : List Str) (other : Verb) :
    (store.add verb path handler).entry route other =
      if route = addRoute path ∧ other = verb then some handler else store.entry route other := by
  rw [entry, root_add, Trie.get_insert]
  by_cases same : route = addRoute path ∧ other = verb
  · rw [if_pos same, if_pos same]
  · rw [if_neg same, if_neg same]
    rfl

/-- `remove` deletes one entry: the untrimmed path's segments and the verb. -/
theorem entry_remove (store : HttpHandlerStore H) (verb : Verb) (path : Str)
    (route : List Str) (other : Verb) :
    (store.remove verb path).entry route other =
      if route = removeRoute path ∧ other = verb then none else store.entry route other := by
  rw [entry, root_remove, Trie.get_erase]
  by_cases same : route = removeRoute path ∧ other = verb
  · rw [if_pos same, if_pos same]
  · rw [if_neg same, if_neg same]
    rfl

@[simp] theorem entry_clear (store : HttpHandlerStore H) (route : List Str) (verb : Verb) :
    store.clear.entry route verb = none := Trie.get_empty route verb

@[simp] theorem entry_new (base_path : Str) (route : List Str) (verb : Verb) :
    (new base_path : HttpHandlerStore H).entry route verb = none := Trie.get_empty route verb

@[simp] theorem handlerFor_nil (store : HttpHandlerStore H) (verb : Verb) :
    store.handlerFor verb [] = none := rfl

theorem get_handler_eq (req_verb : Verb) (handlers : FiniteMap Verb H) :
    get_handler req_verb handlers =
      (FiniteMap.find handlers req_verb).or (FiniteMap.find handlers .unknown) := by
  rw [get_handler]
  by_cases any : req_verb = .unknown
  · subst any
    cases FiniteMap.find handlers .unknown <;> rfl
  · cases FiniteMap.find handlers req_verb with
    | none => simp [any]
    | some handler => rfl

/-- The handler the walk picks at a node is the one for the node's route. -/
theorem pickAt_eq_handlerFor (store : HttpHandlerStore H) (req_verb : Verb) (route : List Str) :
    (Trie.pickAt (get_handler req_verb) store.root route).map Prod.snd =
      store.handlerFor req_verb route := by
  rw [handlerFor, entry, entry, Trie.get, Trie.get, Trie.pickAt]
  cases store.root.sub route with
  | none => rfl
  | some node =>
    simp only [Option.bind_some, Option.map_map, get_handler_eq]
    exact Option.map_id'

/-- What `lookup_node` routes a request by: its target behind as many characters
as the base path has and one leading slash. -/
def remainder (store : HttpHandlerStore H) (req : Request) : Str :=
  dropSlash (req.target.drop store.base_path.length)

/-- The main loop from the store's own nodes is longest-prefix dispatch. -/
theorem lookupLoop_eq_longestMatch (store : HttpHandlerStore H) (req_verb : Verb) (text : Str) :
    (lookupLoop req_verb text store.nodes 0 none).map (fun found => (found.1, found.2.2)) =
      longestMatch (store.handlerFor req_verb) (Text.steps '/' isStop text) := by
  have walked := lookupLoop_eq_walk req_verb text store.root 0 none
  rw [Trie.walk_eq_longestMatch, List.drop_zero, Option.or_none] at walked
  rw [show store.nodes = store.root.children from rfl, walked, ← longestMatch_map _ Prod.snd]
  exact congrArg (fun applies => longestMatch applies (Text.steps '/' isStop text))
    (funext (pickAt_eq_handlerFor store req_verb))

theorem handlerFor_root (store : HttpHandlerStore H) (req_verb : Verb) :
    store.handlerFor req_verb [[]] =
      (FiniteMap.find store.nodes []).bind (fun node => get_handler req_verb node.handlers) := by
  rw [← pickAt_eq_handlerFor, Trie.pickAt, Trie.sub_cons, root]
  cases FiniteMap.find store.nodes [] with
  | none => rfl
  | some node => simp [Function.comp_def]

theorem handlerFor_of_no_nodes (store : HttpHandlerStore H) (noNodes : store.nodes = [])
    (req_verb : Verb) (route : List Str) : store.handlerFor req_verb route = none := by
  have empty : store.root = Trie.empty := by
    rw [root, noNodes]
    rfl
  simp [handlerFor, entry, empty]

/-- `lookup` is longest-prefix dispatch over the entries, with the root route
`""` as the last resort for a non-empty remainder of the target. -/
theorem lookup_eq (store : HttpHandlerStore H) (req : Request) :
    store.lookup req =
      if req.target.length < store.base_path.length then none
      else
        (longestMatch (store.handlerFor req.method)
            (Text.steps '/' isStop (store.remainder req))).or
          (if (store.remainder req).isEmpty then none
          else (store.handlerFor req.method [[]]).map
            (fun handler => (store.remainder req, handler))) := by
  rw [lookup, lookup_node]
  by_cases short : req.target.length < store.base_path.length
  · simp [short]
  rw [if_neg short, if_neg short, remainder]
  generalize dropSlash (req.target.drop store.base_path.length) = text
  by_cases noNodes : store.nodes.isEmpty = true
  · have nothing := handlerFor_of_no_nodes store (List.isEmpty_iff.mp noNodes) req.method
    have noMatch : longestMatch (store.handlerFor req.method) (Text.steps '/' isStop text) = none :=
      (longestMatch_eq_none_iff _ _).mpr (fun route _ _ => nothing route)
    simp [noNodes, noMatch, nothing]
  · rw [if_neg noNodes]
    simp only
    rw [← lookupLoop_eq_longestMatch]
    cases lookupLoop req.method text store.nodes 0 none with
    | some found => rfl
    | none =>
      by_cases empty : text.isEmpty = true
      · simp [empty]
      · simp only [if_neg empty, Option.map_none, Option.none_or]
        rw [handlerFor_root]
        cases FiniteMap.find store.nodes [] with
        | none => rfl
        | some node => simp [Function.comp_def]

/-- The lookup of a target behind the base path. -/
theorem lookup_behind (store : HttpHandlerStore H) {req : Request} {rest : Str}
    (target : req.target = store.base_path ++ rest) :
    store.lookup req =
      (longestMatch (store.handlerFor req.method) (Text.steps '/' isStop (dropSlash rest))).or
        (if (dropSlash rest).isEmpty then none
        else
          (store.handlerFor req.method [[]]).map (fun handler => (dropSlash rest, handler))) := by
  have fits : ¬ req.target.length < store.base_path.length := by
    rw [target, List.length_append]
    omega
  rw [lookup_eq, if_neg fits, remainder, target, List.drop_left]

/-- Whatever `lookup` returns is registered. -/
theorem entry_of_lookup {store : HttpHandlerStore H} {req : Request} {tail : Str} {handler : H}
    (found : store.lookup req = some (tail, handler)) :
    ∃ route verb, store.entry route verb = some handler := by
  have registered : ∃ route, store.handlerFor req.method route = some handler := by
    rw [lookup_eq] at found
    split at found
    · cases found
    · rcases Option.or_eq_some_iff.mp found with matched | ⟨-, rooted⟩
      · obtain ⟨_, _, _, -, applied, -⟩ := (longestMatch_eq_some_iff _ _ _ _).mp matched
        exact ⟨_, applied⟩
      · split at rooted
        · cases rooted
        · obtain ⟨handler, applied, same⟩ := Option.map_eq_some_iff.mp rooted
          obtain ⟨-, rfl⟩ := Prod.mk.inj same
          exact ⟨_, applied⟩
  obtain ⟨route, registered⟩ := registered
  rcases Option.or_eq_some_iff.mp registered with own | ⟨-, any⟩
  · exact ⟨route, req.method, own⟩
  · exact ⟨route, .unknown, any⟩

/-- A route covers the text left of a target behind the base path when its
segments start the text's; the root route covers every non-empty text. -/
def Covers (route : List Str) (rest : Str) : Prop :=
  (route ≠ [] ∧ route <+: requestSegments rest) ∨ (route = [[]] ∧ dropSlash rest ≠ [])

theorem requestSegments_eq (rest : Str) :
    requestSegments rest = leading '/' isStop (dropSlash rest) := rfl

/-- A segment of a request is never empty, so no prefix of them is the root route. -/
theorem ne_nil_of_mem_requestSegments {rest part : Str} (member : part ∈ requestSegments rest) :
    part ≠ [] := by
  have kept := List.mem_takeWhile_imp member
  simpa using kept

/-- Success of `lookup`, as a condition on the entries and the target alone. -/
theorem lookup_isSome_iff (store : HttpHandlerStore H) (req : Request) :
    (store.lookup req).isSome ↔
      store.base_path.length ≤ req.target.length ∧
        ∃ route, (store.handlerFor req.method route).isSome ∧
          Covers route (req.target.drop store.base_path.length) := by
  rw [lookup_eq]
  by_cases short : req.target.length < store.base_path.length
  · simp [short]
  rw [if_neg short, Option.isSome_or, Bool.or_eq_true, remainder]
  have fits : store.base_path.length ≤ req.target.length := not_lt.mp short
  generalize req.target.drop store.base_path.length = rest
  constructor
  · rintro (matched | rooted)
    · obtain ⟨⟨tail, handler⟩, found⟩ := Option.isSome_iff_exists.mp matched
      obtain ⟨route, longest, applied, -⟩ :=
        (longestMatch_steps_iff '/' isStop isStop_slash (handlerFor_nil store _) _ _ _).mp found
      refine ⟨fits, route, longest.applied, Or.inl ⟨?_, longest.below⟩⟩
      rintro rfl
      cases applied
    · by_cases empty : (dropSlash rest).isEmpty = true
      · simp [empty] at rooted
      · rw [if_neg empty, Option.isSome_map] at rooted
        exact ⟨fits, [[]], rooted, Or.inr ⟨rfl, by simpa using empty⟩⟩
  · rintro ⟨-, route, registered, ⟨nonempty, below⟩ | ⟨rfl, nonempty⟩⟩
    · refine Or.inl ?_
      by_contra unmatched
      rw [Option.not_isSome_iff_eq_none, longestMatch_eq_none_iff,
        Text.steps_map_fst '/' isStop isStop_slash] at unmatched
      rw [unmatched route nonempty below] at registered
      cases registered
    · exact Or.inr (by simpa [nonempty] using registered)

/-- In front of a boundary the text of a plain route is read as its segments. -/
theorem prefix_leading_of_plain {route : List Str} (nonempty : route ≠ [])
    (plain : ∀ part ∈ route, part ≠ [] ∧ ∀ c ∈ part, isDelim c = false) {tail : Str}
    (boundary : Boundary tail) :
    route <+: leading '/' isStop (['/'].intercalate route ++ tail) := by
  have free : ∀ part ∈ route, ∀ c ∈ part, Text.delim '/' isStop c = false := by
    intro part member c inside
    rw [delim_eq_isDelim]
    exact (plain part member).2 c inside
  have parts := Text.segments_intercalate '/' isStop isStop_slash nonempty free
    ((boundary_iff tail).mp boundary)
  rw [leading, parts, List.takeWhile_append_of_pos (by simpa using fun part member =>
    (plain part member).1)]
  exact List.prefix_append _ _

/-- Among plain routes none of which starts another, the text behind the base path and
one slash determines the route and the tail. -/
theorem lookup_of_apart_iff (store : HttpHandlerStore H) (req : Request)
    (plain : ∀ route, (store.handlerFor req.method route).isSome →
      ∀ part ∈ route, part ≠ [] ∧ ∀ c ∈ part, isDelim c = false)
    (apart : ∀ route other, (store.handlerFor req.method route).isSome →
      (store.handlerFor req.method other).isSome → route <+: other → route = other)
    (tail : Str) (handler : H) :
    store.lookup req = some (tail, handler) ↔
      store.base_path.length ≤ req.target.length ∧
        ∃ route, store.handlerFor req.method route = some handler ∧
          store.remainder req = ['/'].intercalate route ++ tail ∧ Boundary tail := by
  have noRoot : store.handlerFor req.method [[]] = none := by
    rw [← Option.not_isSome_iff_eq_none]
    exact fun held => (plain [[]] held [] (List.mem_singleton_self _)).1 rfl
  rw [lookup_eq, noRoot]
  by_cases short : req.target.length < store.base_path.length
  · rw [if_pos short]
    simp [short]
  rw [if_neg short]
  simp only [Option.map_none, ite_self, Option.or_none, not_lt.mp short, true_and]
  generalize store.remainder req = text
  rw [longestMatch_steps_iff '/' isStop isStop_slash (handlerFor_nil store _)]
  constructor
  · rintro ⟨route, longest, applied, split⟩
    refine ⟨route, applied, split, ?_⟩
    have found := (longestMatch_steps_iff '/' isStop isStop_slash (handlerFor_nil store _) text
      tail handler).mpr ⟨route, longest, applied, split⟩
    exact (boundary_iff tail).mpr (longestMatch_steps_after '/' isStop found)
  · rintro ⟨route, applied, rfl, boundary⟩
    have held : (store.handlerFor req.method route).isSome := by rw [applied]; rfl
    have nonempty : route ≠ [] := by
      rintro rfl
      cases applied
    have below := prefix_leading_of_plain nonempty (plain route held) boundary
    refine ⟨route, ⟨below, held, fun other below' held' => ?_⟩, applied, rfl⟩
    rcases List.prefix_or_prefix_of_prefix below' below with shorter | longer
    · exact shorter.length_le
    · rw [apart route other held held' longer]

end HttpHandlerStore
end Restio.Source.HandlerStore
