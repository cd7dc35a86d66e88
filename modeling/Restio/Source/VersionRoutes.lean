import Restio.Source.ApiTree
import Restio.Source.HandlerStoreTrie
import Restio.Source.RestHandler

/-!
# Version routes

A history of registrations leaves one route `api/v<version>` for each registered
version, for any verb, whose closure holds that version, and one entry of `apis`
for it, built from the last API registered under it (`Linked`). From this follow
the requests that reach a version and the tails they reach it with
(`Linked.lookup_iff`).
-/

set_option autoImplicit false

namespace Restio.Source.RestHandler
open Restio.Lib Restio.Source.Http Restio.Source.ApiMapper Restio.Source.HandlerStore Restio.Spec

variable {J H : Type}

/-- Some API of the history has the version. -/
def Registered (apis : List (API J H)) (version : Int) : Prop :=
  ∃ api ∈ apis, api.version = version

/-- The last API of the history with the version. -/
def lastFor (apis : List (API J H)) (version : Int) : Option (API J H) :=
  apis.reverse.find? (fun api => decide (api.version = version))

/-- An API as it is handed to `registerAPI`: well-formed URIs, no tree yet. -/
structure Registrable (api : API J H) : Prop where
  fresh : api.roots = []
  wellFormed : ∀ m ∈ api.methods, WellFormedUri m.uri

def versionRoute (version : Int) : List Str := ["api".toList, 'v' :: Decimal.render version]

theorem lastFor_concat (apis : List (API J H)) (api : API J H) (version : Int) :
    lastFor (apis ++ [api]) version =
      if api.version = version then some api else lastFor apis version := by
  unfold lastFor
  rw [List.reverse_append, List.reverse_singleton, List.singleton_append, List.find?_cons]
  split <;> simp_all

theorem lastFor_mem {apis : List (API J H)} {version : Int} {api : API J H}
    (last : lastFor apis version = some api) : api ∈ apis :=
  List.mem_reverse.mp (List.mem_of_find?_eq_some last)

theorem lastFor_isSome_iff (apis : List (API J H)) (version : Int) :
    (lastFor apis version).isSome ↔ Registered apis version := by
  simp [lastFor, Registered]

section Text

theorem versionRoute_injective : Function.Injective versionRoute := by
  intro version other same
  simp only [versionRoute, List.cons.injEq, and_true, true_and] at same
  exact Decimal.render_injective same

/-- A version's decimal text has no delimiter. -/
theorem render_plain {version : Int} {c : Char} (member : c ∈ Decimal.render version) :
    HttpHandlerStore.isDelim c = false := by
  by_contra found
  rw [Bool.not_eq_false] at found
  have delimiter : c = '/' ∨ c = '?' ∨ c = '#' := by
    simpa [HttpHandlerStore.isDelim, or_assoc] using found
  rcases Decimal.mem_render member with rfl | digit
  · exact absurd delimiter (by decide)
  · rcases delimiter with rfl | rfl | rfl <;> exact absurd digit (by decide)

theorem versionRoute_plain (version : Int) :
    ∀ part ∈ versionRoute version, ∀ c ∈ part, Text.delim '/' isStop c = false := by
  have api : ("api".toList : Str).all (fun c => !HttpHandlerStore.isDelim c) = true := by decide
  intro part member c inPart
  rw [delim_eq_isDelim]
  rcases List.mem_cons.mp member with rfl | member
  · simpa using List.all_eq_true.mp api c inPart
  · rw [List.mem_singleton.mp member] at inPart
    rcases List.mem_cons.mp inPart with rfl | inPart
    · decide
    · exact render_plain inPart

theorem apiPath_eq (version : Int) :
    RestServer.apiPath version = ['/'].intercalate (versionRoute version) := by
  rw [versionRoute, List.intercalate_cons_cons, List.intercalate_singleton]
  rfl

theorem addRoute_apiPath (version : Int) :
    addRoute (RestServer.apiPath version) = versionRoute version := by
  have trimmed : Text.trim '/' (RestServer.apiPath version) = RestServer.apiPath version := by
    rw [Text.trim_eq_self_iff]
    have first : (RestServer.apiPath version).head? = some 'a' := rfl
    refine ⟨by rw [first]; decide, ?_⟩
    intro last
    have nonempty := Decimal.render_ne_nil version
    rw [RestServer.apiPath_text, List.getLast?_append_of_ne_nil _ nonempty] at last
    exact absurd (render_plain (List.mem_of_getLast? last)) (by decide)
  have plain : ∀ part ∈ versionRoute version, '/' ∉ part := by
    intro part member slash
    have delimFree := versionRoute_plain version part member '/' slash
    cases delimFree
  rw [addRoute, trimmed, apiPath_eq, List.splitOn_intercalate '/' plain (List.cons_ne_nil _ _)]

/-- A boundary separates a version's text from its tail in one way only. -/
theorem apiPath_append_inj {version other : Int} {tail tail' : Str} (boundary : Boundary tail)
    (boundary' : Boundary tail')
    (same : RestServer.apiPath version ++ tail = RestServer.apiPath other ++ tail') :
    version = other ∧ tail = tail' := by
  have part : ∀ (n : Int) (rest : Str), Boundary rest →
      Text.firstPart '/' isStop (Decimal.render n ++ rest) = Decimal.render n ∧
        Text.afterPart '/' isStop (Decimal.render n ++ rest) = rest := by
    intro n rest bounded
    refine Text.firstPart_append '/' isStop (fun c member => ?_) ((boundary_iff rest).mp bounded)
    rw [delim_eq_isDelim]
    exact render_plain member
  simp only [RestServer.apiPath_text, List.append_assoc] at same
  have digits := List.append_cancel_left same
  obtain ⟨first, rest⟩ := part version tail boundary
  obtain ⟨first', rest'⟩ := part other tail' boundary'
  rw [digits] at first rest
  exact ⟨Decimal.render_injective (first.symm.trans first'), rest.symm.trans rest'⟩

end Text

/-- The routes and the map of a server after a history of registrations. -/
structure Linked (base_path : Str) (apis : List (API J H)) (server : RestServer J H) : Prop where
  base : server.handlers.base_path = Text.trimRight '/' base_path
  route : ∀ route verb closure, server.handlers.entry route verb = some closure ↔
    verb = .unknown ∧ route = versionRoute closure.version ∧ Registered apis closure.version
  built : ∀ version, match lastFor apis version with
    | none => server.apis.find version = none
    | some api => ∃ roots, api.methods.foldlM addMethod api.roots = .ok roots ∧
        server.apis.find version = some { api with roots := roots }

theorem Linked.new (base_path : Str) :
    Linked base_path ([] : List (API J H)) (RestServer.new base_path) where
  base := rfl
  route := by
    intro route verb closure
    simp [RestServer.new, Registered]
  built := fun _ => rfl

theorem registered_concat_iff (apis : List (API J H)) (api : API J H) (version : Int) :
    Registered (apis ++ [api]) version ↔ Registered apis version ∨ api.version = version := by
  simp [Registered, or_and_right, exists_or]

/-- A registration adds its version's route to those there are. -/
theorem Linked.route_add {base_path : Str} {apis : List (API J H)} {server : RestServer J H}
    (linked : Linked base_path apis server) (api : API J H) (route : List Str) (verb : Verb)
    (closure : OnRequest) :
    (server.handlers.add .unknown (RestServer.apiPath api.version) ⟨api.version⟩).entry route verb =
        some closure ↔
      verb = .unknown ∧ route = versionRoute closure.version ∧
        Registered (apis ++ [api]) closure.version := by
  rw [HttpHandlerStore.entry_add, addRoute_apiPath, registered_concat_iff]
  split
  · rename_i own
    obtain ⟨rfl, rfl⟩ := own
    constructor
    · intro same
      rw [← Option.some.inj same]
      exact ⟨rfl, rfl, Or.inr rfl⟩
    · intro ⟨_, sameRoute, _⟩
      rw [versionRoute_injective sameRoute]
  · rename_i other
    rw [linked.route]
    constructor
    · intro ⟨any, sameRoute, known⟩
      exact ⟨any, sameRoute, Or.inl known⟩
    · intro ⟨any, sameRoute, known⟩
      rcases known with known | new
      · exact ⟨any, sameRoute, known⟩
      · exact absurd ⟨by rw [sameRoute, new], any⟩ other

/-- A registration that succeeds keeps routes and map linked. -/
theorem Linked.registerAPI {base_path : Str} {apis : List (API J H)}
    {server server' : RestServer J H} (linked : Linked base_path apis server) {api : API J H}
    (registered : server.registerAPI api = .ok server') :
    Linked base_path (apis ++ [api]) server' := by
  obtain ⟨roots, run, rfl⟩ : ∃ roots, api.methods.foldlM addMethod api.roots = .ok roots ∧
      server' = ⟨server.handlers.add .unknown (RestServer.apiPath api.version) ⟨api.version⟩,
        server.apis.insert api.version { api with roots := roots }⟩ := by
    unfold RestServer.registerAPI API.buildParser at registered
    cases run : api.methods.foldlM addMethod api.roots with
    | error fault =>
      rw [run] at registered
      cases registered
    | ok roots =>
      rw [run] at registered
      exact ⟨roots, rfl, (Except.ok.inj registered).symm⟩
  refine ⟨linked.base, linked.route_add api, fun version => ?_⟩
  rw [lastFor_concat, FiniteMap.find_insert]
  by_cases own : api.version = version
  · rw [if_pos own, if_pos own.symm]
    exact ⟨roots, run, rfl⟩
  · rw [if_neg own, if_neg (Ne.symm own)]
    exact linked.built version

/-- Every history of registrations that succeeds leaves a linked server. -/
theorem linked_of_registerAll {base_path : Str} {apis : List (API J H)} {server : RestServer J H}
    (run : RestServer.registerAll base_path apis = .ok server) : Linked base_path apis server :=
  Checked.foldlM_ok (Linked.new base_path)
    (fun _ _ _ _ linked registered => linked.registerAPI registered) run

/-- Every history of registrable APIs succeeds. -/
theorem registerAll_ok (base_path : Str) {apis : List (API J H)}
    (registrable : ∀ api ∈ apis, Registrable api) :
    ∃ server, RestServer.registerAll base_path apis = .ok server := by
  refine Checked.foldlM_succeeds (fun server api registrable => ?_) registrable
  obtain ⟨roots, run, -⟩ := api.buildParser_built registrable.fresh registrable.wellFormed
  exact ⟨_, by rw [RestServer.registerAPI, run]; rfl⟩

section Routing
variable {base_path : Str} {apis : List (API J H)} {server : RestServer J H}

theorem Linked.handlerFor_iff (linked : Linked base_path apis server) (verb : Verb)
    (route : List Str) (closure : OnRequest) :
    server.handlers.handlerFor verb route = some closure ↔
      route = versionRoute closure.version ∧ Registered apis closure.version := by
  rw [HttpHandlerStore.handlerFor, Option.or_eq_some_iff, linked.route, linked.route]
  constructor
  · intro held
    rcases held with ⟨_, route, known⟩ | ⟨_, _, route, known⟩ <;> exact ⟨route, known⟩
  · intro held
    obtain ⟨route, known⟩ := held
    by_cases any : verb = .unknown
    · exact Or.inl ⟨any, route, known⟩
    · refine Or.inr ⟨?_, rfl, route, known⟩
      -- routes are added for any verb only
      rw [Option.eq_none_iff_forall_ne_some]
      intro other own
      exact any ((linked.route _ _ _).mp own).1

/-- In front of a boundary, the path of a version is read as the segments of its route. -/
theorem versionRoute_prefix_leading (version : Int) {tail : Str} (boundary : Boundary tail) :
    versionRoute version <+: leading '/' isStop (RestServer.apiPath version ++ tail) := by
  have parts := Text.segments_intercalate '/' isStop isStop_slash
    (List.cons_ne_nil _ _) (versionRoute_plain version) ((boundary_iff tail).mp boundary)
  have nonempty : ∀ part ∈ versionRoute version, (!part.isEmpty) = true := by
    simp [versionRoute]
  rw [leading, apiPath_eq, versionRoute, parts, ← versionRoute,
    List.takeWhile_append_of_pos nonempty]
  exact List.prefix_append _ _

/-- A request reaches a version's closure with a tail exactly when the version is
registered and the target, behind as many characters as the base path has and at
most one slash, is the version's path followed by that tail. -/
theorem Linked.lookup_iff (linked : Linked base_path apis server) (req : Request) (tail : Str)
    (closure : OnRequest) :
    server.handlers.lookup req = some (tail, closure) ↔
      server.handlers.base_path.length ≤ req.target.length ∧
        Registered apis closure.version ∧
        server.handlers.remainder req = RestServer.apiPath closure.version ++ tail ∧
        Boundary tail := by
  have noRoot : server.handlers.handlerFor req.method [[]] = none := by
    rw [Option.eq_none_iff_forall_ne_some]
    intro other own
    have sameRoute := ((linked.handlerFor_iff _ _ _).mp own).1
    simp [versionRoute] at sameRoute
  rw [HttpHandlerStore.lookup_eq, noRoot]
  by_cases short : req.target.length < server.handlers.base_path.length
  · rw [if_pos short]
    simp [short]
  rw [if_neg short]
  simp only [Option.map_none, ite_self, Option.or_none, not_lt.mp short, true_and]
  generalize server.handlers.remainder req = text
  constructor
  · intro found
    obtain ⟨route, -, applied, split⟩ :=
      (longestMatch_steps_iff '/' isStop isStop_slash
        (HttpHandlerStore.handlerFor_nil _ _) _ _ _).mp found
    obtain ⟨rfl, known⟩ := (linked.handlerFor_iff _ _ _).mp applied
    rw [← apiPath_eq] at split
    exact ⟨known, split, (boundary_iff tail).mpr (longestMatch_steps_after '/' isStop found)⟩
  · intro ⟨known, split, boundary⟩
    have applied := (linked.handlerFor_iff req.method _ closure).mpr ⟨rfl, known⟩
    refine (longestMatch_steps_iff '/' isStop isStop_slash
      (HttpHandlerStore.handlerFor_nil _ _) _ _ _).mpr
        ⟨versionRoute closure.version, ⟨?_, by rw [applied]; rfl, ?_⟩, applied, ?_⟩
    · rw [split]
      exact versionRoute_prefix_leading closure.version boundary
    · intro other _ some_closure
      obtain ⟨closure', applied'⟩ := Option.isSome_iff_exists.mp some_closure
      rw [((linked.handlerFor_iff _ _ _).mp applied').1]
      exact le_refl 2
    · rw [split, apiPath_eq]

/-- A closure that is reached finds its version's entry. -/
theorem Linked.dispatch_eq (linked : Linked base_path apis server) {version : Int} {api : API J H}
    (last : lastFor apis version = some api) :
    ∃ roots, api.methods.foldlM addMethod api.roots = .ok roots ∧
      ∀ verb target, dispatch server.apis version verb target =
        if target.isEmpty then .ok (.introspection { api with roots := roots })
        else .ok (.ofLookup (lookup_helper verb (Text.pieces '/' target) roots)) := by
  have entry := linked.built version
  rw [last] at entry
  obtain ⟨roots, run, found⟩ := entry
  refine ⟨roots, run, fun verb target => ?_⟩
  unfold dispatch
  rw [found]
  simp only [API.lookup_eq]

end Routing
end Restio.Source.RestHandler
