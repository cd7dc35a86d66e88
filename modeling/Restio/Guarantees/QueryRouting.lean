import Restio.Source.VersionRoutes

/-!
# Routing and the query string

The handler store ends a segment at `?` and `#`; `API::lookup` splits the tail it
is handed at `/` only, and `onRequest` shows the introspection page for an empty
tail. So a query or fragment becomes part of the last segment, or a segment of its
own, and the page is shown only without one. Whether a target and the target with
a query are answered alike comes down to `QueryImmaterial`: both end in a 404, or
the query is taken by the string variable of the chosen method while the binding
of that segment is lost either way.

The comparison holds for all targets, also for those that already have a query, and
for all URIs that pass `buildParser`, a variable without its closing bracket among them.
-/

set_option autoImplicit false

namespace Restio.Guarantees.QueryRouting
open Restio.Lib Restio.Source.Http Restio.Source.ApiMapper Restio.Source.HandlerStore
open Restio.Source.RestHandler Restio.Spec

variable {J H : Type}

section TwoSearches

/-- What the node binds is not seen in the result: it is a literal, or a node
passed before carries its variable's name. -/
def Traceless (inner : List (ParsedNode J H)) (node : ParsedNode J H) : Prop :=
  ∀ name, node.key.varName = some name → name ∈ (inner.map Branch.key).filterMap NodeKey.varName

/-- Two sequences of segments that differ in the last one end their search in the
same group, are answered by the same sibling of it, and their own first siblings
leave no trace. -/
def SharedEnd (verb : Verb) (segments segments' : List Str) (roots : List (ParsedNode J H)) :
    Prop :=
  ∃ front last last' inner group first first' final,
    segments = front ++ [last] ∧ segments' = front ++ [last'] ∧
    searchEnd verb segments roots = some (inner, group) ∧
    searchEnd verb segments' roots = some (inner, group) ∧
    lastMatch verb last group = some final ∧ lastMatch verb last' group = some final ∧
    firstMatch last group = some first ∧ firstMatch last' group = some first' ∧
    Traceless inner first ∧ Traceless inner first'

variable {methods : List (Method J H)} {roots : List (ParsedNode J H)} {verb : Verb}

theorem traceless_of_agree {segments segments' : List Str} (ending : Ending verb segments roots)
    (ending' : Ending verb segments' roots) (sameInner : ending.inner = ending'.inner)
    (agree : ending.properties = ending'.properties)
    (apart : ∀ name value, boundBy ending.first.key ending.last name = some value →
      boundBy ending'.first.key ending'.last name ≠ some value) :
    Traceless ending.inner ending.first := by
  intro name named
  by_contra fresh
  have unbound : ∀ views, boundAlong (ending.inner.map Branch.key) views name = none := by
    intro views
    by_contra bound
    obtain ⟨value, bound⟩ := Option.ne_none_iff_exists'.mp bound
    exact fresh (mem_varNames_of_boundAlong bound)
  obtain ⟨value, bound⟩ := Option.isSome_iff_exists.mp (boundBy_isSome named ending.last)
  have found := congrArg (fun properties => FiniteMap.find properties name) agree
  simp only [ending.find_properties, ending'.find_properties] at found
  rw [unbound, ← sameInner, unbound, Option.none_or, Option.none_or, bound] at found
  exact apart name value bound found.symm

/-- Searches for different last segments, one of them not numeric, succeed with
the same result only by sharing their end. -/
theorem sharedEnd_of_agree (placed : Placed methods roots) {segments segments' : List Str}
    (ending : Ending verb segments roots) (ending' : Ending verb segments' roots)
    (sameFront : ending.front = ending'.front) (different : ending.last ≠ ending'.last)
    (text : numericValue ending'.last = none) (agree : ending.properties = ending'.properties)
    (sameMethod : ending.method = ending'.method) : SharedEnd verb segments segments' roots := by
  have path : ending.path = ending'.path := by
    refine placed.unique ending.method_stored ?_
    rw [sameMethod]
    exact ending'.method_stored
  obtain ⟨innerKeys, finalKey⟩ := List.append_inj' path rfl
  obtain ⟨sameInner, sameGroup⟩ :=
    ending.reaches.unique placed.grown ending'.reaches innerKeys
  have sameFinal : ending.final = ending'.final :=
    (ending.reaches.grown placed.grown).eq_of_key ending.final_mem
      (sameGroup ▸ ending'.final_mem) (List.singleton_inj.mp finalKey)
  have apart : ∀ name value, boundBy ending.first.key ending.last name = some value →
      boundBy ending'.first.key ending'.last name ≠ some value := by
    intro name value bound
    exact boundBy_apart different text ending'.first_matches bound
  refine ⟨ending.front, ending.last, ending'.last, ending.inner, ending.group, ending.first,
    ending'.first, ending.final, ending.segments_eq, ?_, ending.ended, ?_, ending.final_eq, ?_,
    ending.first_eq, ?_, traceless_of_agree ending ending' sameInner agree apart, ?_⟩
  · rw [sameFront]
    exact ending'.segments_eq
  · rw [sameInner, sameGroup]
    exact ending'.ended
  · rw [sameGroup, sameFinal]
    exact ending'.final_eq
  · rw [sameGroup]
    exact ending'.first_eq
  · rw [sameInner]
    refine traceless_of_agree ending' ending sameInner.symm agree.symm ?_
    intro name value bound' bound
    exact apart name value bound bound'

/-- Searches that share their end have the same result. -/
theorem SharedEnd.agree {segments segments' : List Str}
    (shared : SharedEnd verb segments segments' roots) :
    ∃ result, lookup_helper verb segments roots = some result ∧
      lookup_helper verb segments' roots = some result := by
  obtain ⟨front, last, last', inner, group, first, first', final, rfl, rfl, ended, ended', finalEq,
    finalEq', firstEq, firstEq', traceless, traceless'⟩ := shared
  obtain ⟨-, front', last'', split, along, -⟩ := Forest.firstEnd_sound _ _ ended
  have length : (inner.map Branch.key).length = front.length := by
    rw [List.length_map, along.length_eq, (List.append_inj' split rfl).1]
  -- behind a traceless node only the nodes passed are read
  have read : ∀ (node : ParsedNode J H) (view : Str), Traceless inner node → ∀ name,
      (bindAll (inner.map Branch.key) front (bindVariable node.key view [])).find name =
        boundAlong (inner.map Branch.key) front name := by
    intro node view silent name
    rw [find_bindAll, find_bindVariable, FiniteMap.find_nil, Option.or_none]
    cases bound : boundBy node.key view name with
    | none => exact Option.or_none
    | some value =>
      obtain ⟨other, held⟩ := Option.isSome_iff_exists.mp
        (boundAlong_isSome length (silent name (varName_of_boundBy bound)))
      rw [held, Option.some_or]
  have properties : bindAll (inner.map Branch.key) front (bindVariable first.key last []) =
      bindAll (inner.map Branch.key) front (bindVariable first'.key last' []) := by
    refine FiniteMap.Sorted.ext (bindAll_sorted _ _ (bindVariable_sorted _ _ FiniteMap.sorted_nil))
      (bindAll_sorted _ _ (bindVariable_sorted _ _ FiniteMap.sorted_nil)) (fun name => ?_)
    rw [read first last traceless, read first' last' traceless']
  obtain ⟨m, chosen⟩ := Option.isSome_iff_exists.mp (lastMatch_spec verb finalEq).2.2
  refine ⟨⟨bindAll (inner.map Branch.key) front (bindVariable first.key last []), m⟩, ?_, ?_⟩
  · rw [lookup_helper_eq, ended, Option.bind_some, resultAt, lastSegment_eq, finalEq,
      Option.bind_some, chosen, Option.bind_some, firstEq]
    rfl
  · rw [lookup_helper_eq, ended', Option.bind_some, resultAt, lastSegment_eq, finalEq',
      Option.bind_some, chosen, Option.bind_some, firstEq', properties]
    rfl

end TwoSearches

section Continued
variable {methods : List (Method J H)} {roots : List (ParsedNode J H)} {verb : Verb}

/-- A segment with a query or fragment mark in it is not numeric. -/
theorem numericValue_of_stop {d : Char} (stop : isStop d = true) (segment tail : Str) :
    numericValue (segment ++ d :: tail) = none := by
  rw [Option.eq_none_iff_forall_ne_some]
  intro value numeric
  obtain ⟨digits, -⟩ := (numericValue_eq_some_iff _ _).mp numeric
  rw [Decimal.isDigits, Bool.and_eq_true_iff, List.all_eq_true] at digits
  have digit := digits.2 d (by simp)
  have mark : d = '?' ∨ d = '#' := by simpa [isStop] using stop
  rcases mark with rfl | rfl <;> exact absurd digit (by decide)

/-- A query that starts no segment of its own is put behind the last one. -/
theorem ending_continued {d : Char} (notSlash : d ≠ '/') {tail query : Str}
    (ending : Ending verb (Text.pieces '/' tail) roots)
    (ending' : Ending verb (Text.pieces '/' (tail ++ d :: query)) roots)
    (size : ending.path.length = ending'.path.length) :
    ending.front = ending'.front ∧ ∃ mark, ending'.last = ending.last ++ d :: mark := by
  obtain ⟨front, last, rest, mark, own, continued⟩ :=
    Text.pieces_append_cons '/' notSlash tail query
  have lengths := size
  rw [ending.path_matches.length_eq, ending'.path_matches.length_eq, own, continued] at lengths
  have shape : last ≠ [] ∧ rest = [] := by
    by_cases empty : last = []
    · simp [empty] at lengths
    · exact ⟨empty, by simpa [empty] using lengths⟩
  rw [if_neg shape.1] at own
  rw [shape.2] at continued
  have split := List.append_inj' (ending.segments_eq.symm.trans own) rfl
  have split' := List.append_inj' (ending'.segments_eq.symm.trans continued) rfl
  refine ⟨split.1.trans split'.1.symm, mark, ?_⟩
  rw [List.singleton_inj.mp split.2, List.singleton_inj.mp split'.2]

/-- Continued by a query, a tail is looked up with the same success and result only
if neither lookup succeeds or both share their end. -/
theorem lookup_continued_iff (placed : Placed methods roots) {d : Char} (stop : isStop d = true)
    (tail query : Str) :
    lookup_helper verb (Text.pieces '/' tail) roots =
        lookup_helper verb (Text.pieces '/' (tail ++ d :: query)) roots ↔
      (lookup_helper verb (Text.pieces '/' tail) roots = none ∧
          lookup_helper verb (Text.pieces '/' (tail ++ d :: query)) roots = none) ∨
        SharedEnd verb (Text.pieces '/' tail) (Text.pieces '/' (tail ++ d :: query)) roots := by
  have notSlash : d ≠ '/' := by
    rintro rfl
    cases stop
  constructor
  · intro agree
    cases found : lookup_helper verb (Text.pieces '/' tail) roots with
    | none => exact Or.inl ⟨rfl, by rw [← agree, found]⟩
    | some result =>
      obtain ⟨ending, rfl⟩ := (lookup_helper_eq_some_iff _ _ _ _).mp found
      obtain ⟨ending', same⟩ :=
        (lookup_helper_eq_some_iff _ _ _ _).mp (agree.symm.trans found)
      simp only [LookupResult.mk.injEq] at same
      have path := placed.unique ending.method_stored
        (show Forest.Stored ending'.path ending.method roots from same.2 ▸ ending'.method_stored)
      obtain ⟨sameFront, mark, longer⟩ :=
        ending_continued notSlash ending ending' (congrArg List.length path)
      refine Or.inr (sharedEnd_of_agree placed ending ending' sameFront ?_ ?_ same.1 same.2)
      · rw [longer]
        simp
      · rw [longer]
        exact numericValue_of_stop stop ending.last mark
  · intro condition
    rcases condition with ⟨missed, missed'⟩ | shared
    · rw [missed, missed']
    · obtain ⟨result, found, found'⟩ := shared.agree
      rw [found, found']

end Continued

section Requests

/-- The target's text behind as many characters as the base path has, and behind
at most one slash, is a registered version's path followed by the tail. -/
def Reaches (base_path : Str) (apis : List (API J H)) (target : Str) (version : Int)
    (tail : Str) : Prop :=
  base_path.length ≤ target.length ∧ Registered apis version ∧
    HttpHandlerStore.dropSlash (target.drop base_path.length) =
      RestServer.apiPath version ++ tail ∧ Boundary tail

/-- No version is reached, or one with a tail that no path of its methods matches. -/
def Ends404 (base_path : Str) (apis : List (API J H)) (verb : Verb) (target : Str) : Prop :=
  ∀ version tail api, Reaches base_path apis target version tail →
    lastFor apis version = some api →
      tail ≠ [] ∧ ¬ ∃ m ∈ api.methods, Fits m verb (Text.pieces '/' tail)

/-- With and without the query the target ends in a 404, or it reaches a version
with a non-empty tail and the two searches in that version's tree share their end. -/
def QueryImmaterial (base_path : Str) (apis : List (API J H)) (verb : Verb)
    (target query : Str) : Prop :=
  (Ends404 base_path apis verb target ∧ Ends404 base_path apis verb (target ++ query)) ∨
    ∃ version tail api roots, Reaches base_path apis target version tail ∧ tail ≠ [] ∧
      lastFor apis version = some api ∧ api.buildParser = .ok { api with roots := roots } ∧
      SharedEnd verb (Text.pieces '/' tail) (Text.pieces '/' (tail ++ query)) roots

variable {base_path : Str} {apis : List (API J H)} {server : RestServer J H}

theorem Reaches.unique {target : Str} {version version' : Int} {tail tail' : Str}
    (reaches : Reaches base_path apis target version tail)
    (reaches' : Reaches base_path apis target version' tail') : version = version' ∧ tail = tail' :=
  apiPath_append_inj reaches.2.2.2 reaches'.2.2.2 (reaches.2.2.1.symm.trans reaches'.2.2.1)

/-- A query behind a target that reaches a version is a query behind its tail. -/
theorem Reaches.continued {target : Str} {version : Int} {tail : Str}
    (reaches : Reaches base_path apis target version tail) {d : Char} (stop : isStop d = true)
    (query : Str) :
    Reaches base_path apis (target ++ d :: query) version (tail ++ d :: query) := by
  obtain ⟨fits, known, split, boundary⟩ := reaches
  refine ⟨by rw [List.length_append]; omega, known, ?_, ?_⟩
  · rw [List.drop_append_of_le_length fits]
    generalize target.drop base_path.length = rest at split ⊢
    cases rest with
    | nil => simp [HttpHandlerStore.dropSlash, RestServer.apiPath_text] at split
    | cons c rest =>
      unfold HttpHandlerStore.dropSlash at split ⊢
      rw [List.cons_append, List.head?_cons, List.tail_cons]
      rw [List.head?_cons, List.tail_cons] at split
      split at split
      · rename_i slash
        rw [if_pos slash, split, List.append_assoc]
      · rename_i other
        rw [if_neg other, ← List.cons_append, split, List.append_assoc]
  · cases tail with
    | nil =>
      have mark : d = '?' ∨ d = '#' := by simpa [isStop] using stop
      rcases mark with rfl | rfl <;> rfl
    | cons c tail => exact boundary

theorem lookup_iff_reaches (linked : Linked base_path apis server) (req : Request) (tail : Str)
    (closure : OnRequest) :
    server.handlers.lookup req = some (tail, closure) ↔
      Reaches server.handlers.base_path apis req.target closure.version tail :=
  linked.lookup_iff req tail closure

/-- What a request that reaches a version is answered with. -/
theorem respond_eq (linked : Linked base_path apis server)
    (made : ∀ api ∈ apis, MadeOf api.methods api.roots) (req : Request) {version : Int}
    {tail : Str} (reaches : Reaches server.handlers.base_path apis req.target version tail) :
    ∃ api roots, lastFor apis version = some api ∧
      api.buildParser = .ok { api with roots := roots } ∧ Placed api.methods roots ∧
      server.respond req =
        if tail.isEmpty then .ok (.introspection { api with roots := roots })
        else .ok (.ofLookup (lookup_helper req.method (Text.pieces '/' tail) roots)) := by
  obtain ⟨api, last⟩ :=
    Option.isSome_iff_exists.mp ((lastFor_isSome_iff apis version).mpr reaches.2.1)
  obtain ⟨roots, run, decided⟩ := linked.dispatch_eq last
  refine ⟨api, roots, last, API.buildParser_of_run run,
    (made api (lastFor_mem last)).run_placed run, ?_⟩
  unfold RestServer.respond
  rw [(lookup_iff_reaches linked req tail ⟨version⟩).mpr reaches]
  exact decided req.method tail

theorem ofLookup_injective :
    Function.Injective (Action.ofLookup : Option (LookupResult J H) → Action J H) := by
  intro left right same
  cases left with
  | none =>
    cases right with
    | none => rfl
    | some result => cases same
  | some result =>
    cases right with
    | none => cases same
    | some other =>
      simp only [Action.ofLookup, Action.call.injEq] at same
      obtain ⟨properties, m⟩ := result
      obtain ⟨properties', m'⟩ := other
      simp only at same
      rw [same.1, same.2]

theorem ofLookup_eq_notFound_iff (looked : Option (LookupResult J H)) :
    Action.ofLookup looked = .notFound ↔ looked = none := by
  rw [← ofLookup_injective.eq_iff]
  rfl

theorem ofLookup_ne_introspection (looked : Option (LookupResult J H)) (api : API J H) :
    Action.ofLookup looked ≠ .introspection api := by
  cases looked <;> simp [Action.ofLookup]

theorem respond_notFound_iff (linked : Linked base_path apis server)
    (made : ∀ api ∈ apis, MadeOf api.methods api.roots) (req : Request) :
    server.respond req = .ok .notFound ↔
      Ends404 server.handlers.base_path apis req.method req.target := by
  cases routed : server.handlers.lookup req with
  | none =>
    have missed : server.respond req = .ok .notFound := by
      unfold RestServer.respond
      rw [routed]
    refine iff_of_true missed (fun version tail api reaches _ => ?_)
    rw [(lookup_iff_reaches linked req tail ⟨version⟩).mpr reaches] at routed
    cases routed
  | some found =>
    have reaches := (lookup_iff_reaches linked req found.1 found.2).mp routed
    obtain ⟨api, roots, last, -, placed, answer⟩ := respond_eq linked made req reaches
    have one : Ends404 server.handlers.base_path apis req.method req.target ↔
        found.1 ≠ [] ∧ ¬ ∃ m ∈ api.methods, Fits m req.method (Text.pieces '/' found.1) := by
      constructor
      · intro ends
        exact ends _ _ _ reaches last
      · intro unanswered version tail api' reaches' last'
        obtain ⟨rfl, rfl⟩ := reaches.unique reaches'
        rw [last, Option.some.injEq] at last'
        exact last' ▸ unanswered
    rw [answer, one, ← placed.lookup_helper_isSome_iff, Option.not_isSome_iff_eq_none]
    cases found.1 with
    | nil => simp
    | cons c tail =>
      rw [List.isEmpty_cons, if_neg Bool.false_ne_true, Except.ok.injEq, ofLookup_eq_notFound_iff]
      exact (and_iff_right (List.cons_ne_nil c tail)).symm

/-- What a version that is reached makes of a shared end. -/
theorem reached_shared_iff {target : Str} {version : Int} {tail : Str} {api : API J H}
    {roots : List (ParsedNode J H)} (reaches : Reaches base_path apis target version tail)
    (last : lastFor apis version = some api)
    (parsed : api.buildParser = .ok { api with roots := roots }) (verb : Verb) (query : Str) :
    (∃ version' tail' api' roots', Reaches base_path apis target version' tail' ∧ tail' ≠ [] ∧
        lastFor apis version' = some api' ∧ api'.buildParser = .ok { api' with roots := roots' } ∧
        SharedEnd verb (Text.pieces '/' tail') (Text.pieces '/' (tail' ++ query)) roots') ↔
      tail ≠ [] ∧
        SharedEnd verb (Text.pieces '/' tail) (Text.pieces '/' (tail ++ query)) roots := by
  constructor
  · intro ⟨version', tail', api', roots', other, some_tail, last', parsed', shared⟩
    obtain ⟨rfl, rfl⟩ := reaches.unique other
    obtain rfl : api' = api := Option.some.inj (last'.symm.trans last)
    obtain rfl : roots' = roots := by simpa using parsed'.symm.trans parsed
    exact ⟨some_tail, shared⟩
  · intro ⟨some_tail, shared⟩
    exact ⟨version, tail, api, roots, reaches, some_tail, last, parsed, shared⟩

/-- For a request that reaches a version. -/
theorem respond_continued_iff (linked : Linked base_path apis server)
    (made : ∀ api ∈ apis, MadeOf api.methods api.roots) {req : Request}
    {version : Int} {tail : Str}
    (reaches : Reaches server.handlers.base_path apis req.target version tail) {d : Char}
    (stop : isStop d = true) (query : Str) :
    server.respond { req with target := req.target ++ d :: query } = server.respond req ↔
      QueryImmaterial server.handlers.base_path apis req.method req.target (d :: query) := by
  have missed := respond_notFound_iff linked made req
  have missed' := respond_notFound_iff linked made { req with target := req.target ++ d :: query }
  obtain ⟨api, roots, last, parsed, placed, answer⟩ := respond_eq linked made req reaches
  obtain ⟨api', roots', last', parsed', -, answer'⟩ :=
    respond_eq linked made { req with target := req.target ++ d :: query }
      (reaches.continued stop query)
  obtain rfl : api' = api := Option.some.inj (last'.symm.trans last)
  obtain rfl : roots' = roots := by simpa using parsed'.symm.trans parsed
  have nonempty : (tail ++ d :: query).isEmpty = false := by simp
  rw [nonempty, if_neg Bool.false_ne_true] at answer'
  rw [QueryImmaterial, reached_shared_iff reaches last parsed, ← missed, ← missed', answer', answer]
  cases tail with
  | nil =>
    -- the page is shown for the empty tail only
    simp [ofLookup_ne_introspection]
  | cons c tail =>
    rw [List.isEmpty_cons, if_neg Bool.false_ne_true, Except.ok.injEq, Except.ok.injEq,
      Except.ok.injEq, ofLookup_injective.eq_iff, eq_comm, lookup_continued_iff placed stop]
    simp only [ofLookup_eq_notFound_iff, ne_eq, reduceCtorEq, not_false_eq_true, true_and,
      List.cons_append]

/-- For any APIs registered on a server, whatever their URIs, any request and any query
or fragment behind its target: the request is answered alike with and without it if
and only if it is immaterial. -/
theorem query_immaterial_iff {base_path : Str} {apis : List (API J H)} {server : RestServer J H}
    (made : ∀ api ∈ apis, MadeOf api.methods api.roots)
    (registered : RestServer.registerAll base_path apis = .ok server) (req : Request) {d : Char}
    (stop : isStop d = true) (query : Str) :
    server.respond { req with target := req.target ++ d :: query } = server.respond req ↔
      QueryImmaterial server.handlers.base_path apis req.method req.target (d :: query) := by
  have linked := linked_of_registerAll registered
  cases routed : server.handlers.lookup req with
  | some found =>
    have reaches := (lookup_iff_reaches linked req _ _).mp routed
    exact respond_continued_iff linked made reaches stop query
  | none =>
    have unrouted : server.respond req = .ok .notFound := by
      unfold RestServer.respond
      rw [routed]
    have missed := respond_notFound_iff linked made req
    have missed' := respond_notFound_iff linked made { req with target := req.target ++ d :: query }
    rw [unrouted, missed', QueryImmaterial, ← missed, unrouted]
    constructor
    · intro ends
      exact Or.inl ⟨rfl, ends⟩
    · intro condition
      rcases condition with ⟨-, ends⟩ | ⟨version, tail, _, _, reaches, _⟩
      · exact ends
      · rw [(lookup_iff_reaches linked req tail ⟨version⟩).mpr reaches] at routed
        cases routed

end Requests

/-- One version with one method. -/
def itemVersion : List (API Unit Nat) :=
  [{ methods := [⟨.get, "resource/<string:id>".toList, [], (), (), [], 1⟩] }]

/-- And another, whose variable lacks its closing bracket. -/
def looseVersions : List (API Unit Nat) :=
  itemVersion ++
    [{ version := 2, methods := [⟨.get, "resource/<string:idX".toList, [], (), (), [], 2⟩] }]

theorem looseVersions_query_immaterial_iff :
    ∃ server, RestServer.registerAll "/srv".toList looseVersions = .ok server ∧
      ∀ (req : Request) (d : Char) (query : Str), isStop d = true →
        (server.respond { req with target := req.target ++ d :: query } = server.respond req ↔
          QueryImmaterial server.handlers.base_path looseVersions req.method req.target
            (d :: query)) := by
  refine ⟨_, rfl, fun req d query stop => query_immaterial_iff ?_ rfl req stop query⟩
  intro api member
  simp only [looseVersions, itemVersion, List.cons_append, List.nil_append, List.mem_cons,
    List.not_mem_nil, or_false] at member
  rcases member with rfl | rfl <;> exact .none

def showsPage : Except Fault (Source.RestHandler.Action Unit Nat) → Bool
  | .ok (.introspection _) => true
  | _ => false

/-- `GET /api/v1` shows the page of version 1 and `GET /api/v1?x` is a 404. -/
theorem query_hides_page :
    ∃ server, RestServer.registerAll [] itemVersion = .ok server ∧
      server.respond { method := .get, target := "/api/v1?x".toList } ≠
        server.respond { method := .get, target := "/api/v1".toList } := by
  refine ⟨_, rfl, fun same => ?_⟩
  have pages := congrArg showsPage same
  revert pages
  decide +kernel

end Restio.Guarantees.QueryRouting
