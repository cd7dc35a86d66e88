import Restio.Source.VersionRoutes

/-!
# API versions are isolated

After any history of registrations, a request behind the base path for
`/api/v<n>` reaches the closure of version `n` with exactly the tail that follows,
if `n` was registered, and nothing otherwise; there `onRequest` finds the version in
the map and does with the response what the API registered last for it calls for: it
writes that API's page, or a 404, or what the handler of one of its methods leaves
(`versions_isolated`).

The converse for arbitrary targets (`only`) speaks of the text that is left
behind as many characters as the base path has: `lookup_node` does not compare
them.
-/

set_option autoImplicit false

namespace Restio.Guarantees.VersionIsolation
open Restio.Lib Restio.Source.Http Restio.Source.ApiMapper Restio.Source.HandlerStore
open Restio.Source.RestHandler Restio.Spec

variable {J H : Type}

/-- A method's handler with the `catch` around it. -/
def Calls (m : Method J Handler) (properties : Properties) (request : Request)
    (response : Response) (run : HandlerRun) : Prop :=
  let called := m.handler request response properties
  match called.exit with
  | .returned => run = called
  | .threw _ => run = ⟨called.request,
      { called.response with result := Status.internal_server_error }, .returned⟩

/-- The request is answered with the page of this API, or with what one of its methods
leaves, or with a 404 where its parsed tree has no method for the tail. -/
def AnsweredFrom (dump : J → Str) (api built : API J Handler) (tail : Str) (request : Request)
    (response : Response) (run : HandlerRun) : Prop :=
  if tail.isEmpty then run = ⟨request, handleAPIIntrospection dump api response, .returned⟩
  else
    match built.lookup request.method tail with
    | none => run = ⟨request, { response with result := Status.not_found }, .returned⟩
    | some found => found.method ∈ api.methods ∧
        Calls found.method found.properties request response run

/-- The target of a version's tail behind a base path. -/
def versionTarget (base_path : Str) (version : Int) (tail : Str) : Str :=
  base_path ++ "/api/v".toList ++ Decimal.render version ++ tail

structure Isolated (dump : J → Str) (apis : List (API J Handler)) (server : RestServer J Handler) :
    Prop where
  /-- A registered version is reached with exactly the tail of the target. -/
  reached : ∀ (req : Request) version tail, Boundary tail → Registered apis version →
    req.target = versionTarget server.handlers.base_path version tail →
      server.handlers.lookup req = some (tail, ⟨version⟩)
  /-- There `onRequest` fails no assertion and answers from the API registered last. -/
  answered : ∀ version, Registered apis version →
    ∃ api, lastFor apis version = some api ∧ ∃ built, api.buildParser = .ok built ∧
      ∀ tail request response, ∃ run,
        onRequest dump server.apis version tail request response = .ok run ∧
          AnsweredFrom dump api built tail request response run
  /-- A version never registered is unroutable. -/
  unroutable : ∀ (req : Request) version tail, Boundary tail → ¬ Registered apis version →
    req.target = versionTarget server.handlers.base_path version tail →
      server.handlers.lookup req = none
  /-- So is any segment behind `api` that is no registered version's. -/
  confined : ∀ (req : Request) segment rest, segment.any HttpHandlerStore.isDelim = false →
    Boundary rest →
    (∀ version, Registered apis version → segment ≠ 'v' :: Decimal.render version) →
    req.target = server.handlers.base_path ++ "/api/".toList ++ segment ++ rest →
      server.handlers.lookup req = none
  /-- Whatever reaches a closure names its version. -/
  only : ∀ (req : Request) tail closure, server.handlers.lookup req = some (tail, closure) →
    Registered apis closure.version ∧
      server.handlers.remainder req = RestServer.apiPath closure.version ++ tail ∧ Boundary tail

/-- A target behind the base path leaves what follows the slash. -/
theorem remainder_behind (server : RestServer J H) (req : Request) (rest : Str)
    (target : req.target = server.handlers.base_path ++ '/' :: rest) :
    server.handlers.base_path.length ≤ req.target.length ∧
      server.handlers.remainder req = rest := by
  rw [HttpHandlerStore.remainder, target, List.drop_left]
  exact ⟨by simp, rfl⟩

theorem versionTarget_eq (base_path : Str) (version : Int) (tail : Str) :
    versionTarget base_path version tail =
      base_path ++ '/' :: (RestServer.apiPath version ++ tail) := by
  simp [versionTarget, RestServer.apiPath_text]

section
variable {base_path : Str} {apis : List (API J H)} {server : RestServer J H}

theorem lookup_unregistered (linked : Linked base_path apis server) {req : Request}
    {version : Int} {tail : Str} (boundary : Boundary tail) (unknown : ¬ Registered apis version)
    (target : req.target = versionTarget server.handlers.base_path version tail) :
    server.handlers.lookup req = none := by
  rw [versionTarget_eq] at target
  obtain ⟨-, left⟩ := remainder_behind server req _ target
  rw [Option.eq_none_iff_forall_ne_some]
  intro ⟨tail', closure⟩ found
  obtain ⟨-, known, split, boundary'⟩ := (linked.lookup_iff _ _ _).mp found
  obtain ⟨rfl, -⟩ := apiPath_append_inj boundary boundary' (left.symm.trans split)
  exact unknown known

theorem lookup_foreign_segment (linked : Linked base_path apis server) {req : Request}
    {segment rest : Str} (plain : segment.any HttpHandlerStore.isDelim = false)
    (boundary : Boundary rest)
    (foreign : ∀ version, Registered apis version → segment ≠ 'v' :: Decimal.render version)
    (target : req.target = server.handlers.base_path ++ "/api/".toList ++ segment ++ rest) :
    server.handlers.lookup req = none := by
  have behind : req.target =
      server.handlers.base_path ++ '/' :: ("api/".toList ++ segment ++ rest) := by
    rw [target]
    simp
  obtain ⟨-, left⟩ := remainder_behind server req _ behind
  rw [Option.eq_none_iff_forall_ne_some]
  intro ⟨tail, closure⟩ found
  obtain ⟨-, known, split, boundary'⟩ := (linked.lookup_iff _ _ _).mp found
  -- both texts continue behind `api/` with one segment and a boundary
  have same : segment ++ rest = ('v' :: Decimal.render closure.version) ++ tail := by
    have texts := left.symm.trans split
    have apiSlash : RestServer.apiPath closure.version ++ tail =
        "api/".toList ++ (('v' :: Decimal.render closure.version) ++ tail) := by
      simp [RestServer.apiPath_text]
    rw [apiSlash, List.append_assoc] at texts
    exact List.append_cancel_left texts
  have inside : ∀ c ∈ segment, Text.delim '/' isStop c = false := by
    intro c member
    rw [delim_eq_isDelim]
    simpa using List.any_eq_false.mp plain c member
  have first := (Text.firstPart_append '/' isStop inside ((boundary_iff rest).mp boundary)).1
  have first' := (Text.firstPart_append '/' isStop
    (versionRoute_plain closure.version _ (List.mem_cons_of_mem _ List.mem_cons_self))
    ((boundary_iff tail).mp boundary')).1
  rw [same] at first
  exact foreign _ known (first.symm.trans first')

end

section
variable {base_path : Str} {apis : List (API J Handler)} {server : RestServer J Handler}

/-- The coroutine's way from the map of APIs to the response. -/
theorem onRequest_from_last (linked : Linked base_path apis server)
    (made : ∀ api ∈ apis, MadeOf api.methods api.roots) (dump : J → Str) {version : Int}
    (known : Registered apis version) :
    ∃ api, lastFor apis version = some api ∧ ∃ built, api.buildParser = .ok built ∧
      ∀ tail request response, ∃ run,
        onRequest dump server.apis version tail request response = .ok run ∧
          AnsweredFrom dump api built tail request response run := by
  obtain ⟨api, last⟩ := Option.isSome_iff_exists.mp ((lastFor_isSome_iff apis version).mpr known)
  obtain ⟨roots, run, decided⟩ := linked.dispatch_eq last
  have placed := (made api (lastFor_mem last)).run_placed run
  refine ⟨api, last, _, API.buildParser_of_run run, fun tail request response => ?_⟩
  unfold onRequest AnsweredFrom
  rw [decided, API.lookup_eq]
  cases empty : tail.isEmpty with
  | true => exact ⟨_, rfl, rfl⟩
  | false =>
    cases found : lookup_helper request.method (Text.pieces '/' tail) roots with
    | none => exact ⟨_, rfl, rfl⟩
    | some result =>
      obtain ⟨ending, rfl⟩ := (lookup_helper_eq_some_iff _ _ _ _).mp found
      have member := ((placed.stored _ _).mp ending.method_stored).1
      simp only [Bool.false_eq_true, if_false, Action.ofLookup, Calls]
      cases ended : (ending.method.handler request response ending.properties).exit with
      | returned => exact ⟨_, rfl, member, rfl⟩
      | threw what => exact ⟨_, rfl, member, rfl⟩

end

/-- Isolation after every history of registrations, in any order and with any
repetitions, on a server with any base path. -/
theorem versions_isolated (dump : J → Str) (base_path : Str) (apis : List (API J Handler))
    (registrable : ∀ api ∈ apis, Registrable api) :
    ∃ server, RestServer.registerAll base_path apis = .ok server ∧
      server.handlers.base_path = Text.trimRight '/' base_path ∧ Isolated dump apis server := by
  obtain ⟨server, run⟩ := registerAll_ok base_path registrable
  have linked := linked_of_registerAll run
  have made : ∀ api ∈ apis, MadeOf api.methods api.roots :=
    fun api member => (registrable api member).fresh ▸ MadeOf.none
  refine ⟨server, run, linked.base, ⟨?_, ?_, ?_, ?_, ?_⟩⟩
  · intro req version tail boundary known target
    rw [versionTarget_eq] at target
    obtain ⟨fits, left⟩ := remainder_behind server req _ target
    exact (linked.lookup_iff _ _ _).mpr ⟨fits, known, left, boundary⟩
  · exact fun version known => onRequest_from_last linked made dump known
  · exact fun req version tail boundary unknown target =>
      lookup_unregistered linked boundary unknown target
  · exact fun req segment rest plain boundary foreign target =>
      lookup_foreign_segment linked plain boundary foreign target
  · exact fun req tail closure found => ((linked.lookup_iff _ _ _).mp found).2

/-- Shows the text. -/
def shows (text : Str) : Handler := fun request response _ =>
  ⟨request, makeOkResponse response text "text/plain".toList, .returned⟩

/-- Versions with overlapping texts, one of them registered twice. -/
def overlappingVersions : List (API Unit Handler) :=
  [{ version := 1, methods := [⟨.get, "old".toList, [], (), (), [], shows "old".toList⟩] },
    { version := 11, methods := [] },
    { version := -1, methods := [] },
    { version := 1, methods := [⟨.get, "<int:id>".toList, [], (), (), [], shows "new".toList⟩] }]

theorem overlappingVersions_registrable : ∀ api ∈ overlappingVersions, Registrable api := by
  intro api member
  simp only [overlappingVersions, List.mem_cons, List.not_mem_nil, or_false] at member
  rcases member with rfl | rfl | rfl | rfl
  · refine ⟨rfl, fun m held => ?_⟩
    rw [List.mem_singleton.mp held]
    exact ⟨⟨[.literal "old".toList], by decide, by decide⟩, Or.inl (by decide)⟩
  · exact ⟨rfl, by simp⟩
  · exact ⟨rfl, by simp⟩
  · refine ⟨rfl, fun m held => ?_⟩
    rw [List.mem_singleton.mp held]
    exact ⟨⟨[.intVar "id".toList], by decide, by decide⟩, Or.inl (by decide)⟩

theorem overlappingVersions_isolated :
    ∃ server, RestServer.registerAll "/srv/".toList overlappingVersions = .ok server ∧
      server.handlers.base_path = Text.trimRight '/' "/srv/".toList ∧
      Isolated (fun _ => []) overlappingVersions server :=
  versions_isolated (fun _ => []) "/srv/".toList overlappingVersions
    overlappingVersions_registrable

end Restio.Guarantees.VersionIsolation
