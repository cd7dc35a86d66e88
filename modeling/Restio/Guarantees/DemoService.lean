import Restio.Guarantees.Linearization
import Restio.Spec.Resources

/-!
# The demo serves a set of resources

From the routes of its server, over the tree of its API and the closures of its
handlers to any run with any number of connections: the demo is the service of
`Spec.Resources`, which answers one call after the other. What it knows and what each
client has been told is determined by the requests in the order read, no assertion
fails, and nothing is read behind a call of `/shutdown` (`demo_serves_resources`).
-/

set_option autoImplicit false

namespace Restio.Guarantees.DemoService
open Restio.Lib Restio.Source.Http Restio.Source.ApiMapper Restio.Source.HandlerStore
open Restio.Source.HttpServer Restio.Source.RestHandler Restio.Source.Connections
open Restio.Source.MixedServer Restio.Source.AsyncRest Restio.Source.Demo
open Restio.Spec.Resources Restio.Guarantees.Exchanges Restio.Guarantees.Linearization

section Tree
variable {J H : Type} {first second name : Str} {onFirst onItem onSecond : List (Method J H)}

/-- A tree of two literals, the first with a variable below it. -/
def twoLiterals (first second name : Str) (onFirst onItem onSecond : List (Method J H)) :
    List (ParsedNode J H) :=
  [⟨⟨.ConstString, first⟩, onFirst, [⟨⟨.VarString, name⟩, onItem, []⟩]⟩,
    ⟨⟨.ConstString, second⟩, onSecond, []⟩]

theorem lookup_literal (apart : first ≠ second) (verb : Verb) (view : Str) :
    lookup_helper verb [view] (twoLiterals first second name onFirst onItem onSecond) =
      (if view = first then onFirst.find? (fun m => m.method == verb)
        else if view = second then onSecond.find? (fun m => m.method == verb)
        else none).map (fun m => ⟨[], m⟩) := by
  unfold twoLiterals
  by_cases isFirst : view = first
  · subst isFirst
    have other : (second == view) = false := by simpa using apart.symm
    cases found : onFirst.find? (fun m => m.method == verb) <;>
      simp [lookup_helper, lastSegment, nodeMatch, bindVariable, found, other]
  · have other : (first == view) = false := by simpa using Ne.symm isFirst
    by_cases isSecond : view = second
    · subst isSecond
      cases found : onSecond.find? (fun m => m.method == verb) <;>
        simp [lookup_helper, lastSegment, nodeMatch, bindVariable, isFirst, other, found]
    · have other' : (second == view) = false := by simpa using Ne.symm isSecond
      simp [lookup_helper, nodeMatch, isFirst, isSecond, other, other']

theorem lookup_item (verb : Verb) (view item : Str) :
    lookup_helper verb [view, item] (twoLiterals first second name onFirst onItem onSecond) =
      if view = first then (onItem.find? (fun m => m.method == verb)).map
        (fun m => ⟨[(name, .string item)], m⟩)
      else none := by
  unfold twoLiterals
  by_cases isFirst : view = first
  · subst isFirst
    cases found : onItem.find? (fun m => m.method == verb) <;>
      simp [lookup_helper, lastSegment, nodeMatch, bindVariable, found]
    rfl
  · have other : (first == view) = false := by simpa using Ne.symm isFirst
    simp [lookup_helper, nodeMatch, isFirst, other]

theorem lookup_deeper (verb : Verb) (view item more : Str) (rest : List Str) :
    lookup_helper verb (view :: item :: more :: rest)
      (twoLiterals first second name onFirst onItem onSecond) = none := by
  unfold twoLiterals
  simp [lookup_helper, nodeMatch]

end Tree

section Routes
variable (json : Nlohmann)

/-- The tree that `buildParser` makes of the demo's methods. -/
def roots : List (ParsedNode Json (MethodHandler State)) :=
  match (api json).methods with
  | [add, delete, get, hello] =>
      twoLiterals "resource".toList "hello".toList "id".toList [add] [delete, get] [hello]
  | _ => []

def built : API Json (MethodHandler State) := { api json with roots := roots json }

def demoServer : Server Json (MethodHandler State) (AsyncHandler State) where
  handlers := ((HttpHandlerStore.new []).add .post "/shutdown".toList (.raw onShutdown)).add
    .unknown "api/v1".toList (.api ⟨1⟩)
  apis := FiniteMap.insert 1 (built json) []

theorem demo_registered : Server.registerAll [] (registrations json) = .ok (demoServer json) := rfl

theorem demo_handlerFor (verb : Verb) (route : List Str) :
    (demoServer json).handlers.handlerFor verb route =
      if route = ["api".toList, "v1".toList] then some (.api ⟨1⟩)
      else if route = ["shutdown".toList] ∧ verb = .post then some (.raw onShutdown)
      else none := by
  have apiRoute : addRoute "api/v1".toList = ["api".toList, "v1".toList] := by decide
  have rawRoute : addRoute "/shutdown".toList = ["shutdown".toList] := by decide
  rw [HttpHandlerStore.handlerFor, demoServer, HttpHandlerStore.entry_add,
    HttpHandlerStore.entry_add, HttpHandlerStore.entry_add, HttpHandlerStore.entry_add, apiRoute,
    rawRoute, HttpHandlerStore.entry_new, HttpHandlerStore.entry_new]
  have apart : ["api".toList, "v1".toList] ≠ (["shutdown".toList] : List Str) := by decide
  generalize (["api".toList, "v1".toList] : List Str) = apiRoute at apart
  generalize (["shutdown".toList] : List Str) = rawRoute at apart
  by_cases isApi : route = apiRoute
  · subst isApi
    by_cases any : verb = .unknown <;> simp [any, apart]
  · simp [isApi]

/-- Every route is plain, and none starts another. -/
theorem demo_routes {verb : Verb} {route : List Str}
    (held : ((demoServer json).handlers.handlerFor verb route).isSome) :
    route = ["api".toList, "v1".toList] ∨ route = ["shutdown".toList] := by
  rw [demo_handlerFor] at held
  split at held
  · rename_i isApi
    exact Or.inl isApi
  · split at held
    · rename_i isRaw
      exact Or.inr isRaw.1
    · cases held

/-- Where a request goes, and with which tail. -/
theorem demo_lookup_iff (req : Request) (tail : Str) (endpoint : Endpoint (AsyncHandler State)) :
    (demoServer json).handlers.lookup req = some (tail, endpoint) ↔
      (behind "api/v1".toList req.target = some tail ∧ endpoint = .api ⟨1⟩) ∨
        (behind "shutdown".toList req.target = some tail ∧ req.method = .post ∧
          endpoint = .raw onShutdown) := by
  have plain : ∀ route, ((demoServer json).handlers.handlerFor req.method route).isSome →
      ∀ part ∈ route, part ≠ [] ∧ ∀ c ∈ part, HttpHandlerStore.isDelim c = false := by
    intro route held
    have checked : route.all (fun part =>
        !part.isEmpty && part.all (fun c => !HttpHandlerStore.isDelim c)) = true := by
      rcases demo_routes json held with rfl | rfl <;> rfl
    simpa using checked
  have apart : ∀ route other, ((demoServer json).handlers.handlerFor req.method route).isSome →
      ((demoServer json).handlers.handlerFor req.method other).isSome →
      route <+: other → route = other := by
    intro route other held held' below
    rcases demo_routes json held with rfl | rfl <;> rcases demo_routes json held' with rfl | rfl
    · rfl
    · exact absurd below (by decide)
    · exact absurd below (by decide)
    · rfl
  have left : (demoServer json).handlers.remainder req = HttpHandlerStore.dropSlash req.target :=
    rfl
  have apiText : ['/'].intercalate ["api".toList, "v1".toList] = "api/v1".toList := by decide
  have rawText : ['/'].intercalate ["shutdown".toList] = "shutdown".toList := by decide
  rw [HttpHandlerStore.lookup_of_apart_iff _ _ plain apart, behind_eq_some_iff, behind_eq_some_iff,
    left]
  constructor
  · rintro ⟨-, route, applied, split, boundary⟩
    rw [demo_handlerFor] at applied
    split at applied
    · rename_i isApi
      rw [isApi, apiText] at split
      exact Or.inl ⟨⟨split, boundary⟩, (Option.some.inj applied).symm⟩
    · split at applied
      · rename_i isRaw
        rw [isRaw.1, rawText] at split
        exact Or.inr ⟨⟨split, boundary⟩, isRaw.2, (Option.some.inj applied).symm⟩
      · cases applied
  · rintro (⟨⟨split, boundary⟩, rfl⟩ | ⟨⟨split, boundary⟩, isPost, rfl⟩)
    · refine ⟨Nat.zero_le _, _, ?_, by rw [apiText]; exact split, boundary⟩
      rw [demo_handlerFor, if_pos rfl]
    · refine ⟨Nat.zero_le _, _, ?_, by rw [rawText]; exact split, boundary⟩
      rw [demo_handlerFor, if_neg (by decide), if_pos ⟨rfl, isPost⟩]

/-- The API's dispatch, by the segments of the tail. -/
theorem demo_dispatch (verb : Verb) (tail : Str) :
    dispatch (demoServer json).apis 1 verb tail =
      if tail = [] then .ok (.introspection (built json))
      else .ok (.ofLookup (lookup_helper verb (Text.pieces '/' tail) (roots json))) := by
  have found : (demoServer json).apis.find 1 = some (built json) := rfl
  unfold dispatch
  rw [found]
  simp only [API.lookup_eq, List.isEmpty_iff]
  rfl

end Routes

section Calls
variable (json : Nlohmann)

/-- What a call does to the state. -/
def effect (call : Call) (s : State) : State :=
  { s with
    resources := (call.answer json s.resources).1
    stopped := s.stopped || decide (call = .shutdown) }

/-- A handler that answers a call at once. -/
def Serves (call : Call) (request : Request) (response : Response)
    (task : Coroutine State HandlerRun) : Prop :=
  ∀ s, task.resume s = (effect json call s,
    .inl ⟨request, (call.answer json s.resources).2.write json response, .returned⟩)

variable (request : Request) (response : Response)

/-- The API method's handler, with the `catch` around it. -/
def called (handler : MethodHandler State) (properties : Properties) : Coroutine State HandlerRun :=
  (handler request response properties).bind (fun run => .done (absorbed run))

/-- A message is written as `makeOkResponse` writes it. -/
theorem makeOkMessage_eq (message : Json) :
    makeOkMessage json response message = (Reply.message message).write json response := by
  have full : (json.dump message).length ≠ 0 := by
    rw [Ne, List.length_eq_zero_iff]
    exact json.dump_ne_nil message
  unfold makeOkMessage makeOkResponse
  rw [if_pos full]
  rfl

theorem serves_add :
    Serves json (.add request.body) request response
      (called request response (onResoureAddRequest json) []) := by
  intro s
  unfold called onResoureAddRequest
  rw [Coroutine.resume_bind]
  cases parsed : json.parseName request.body with
  | error what => simp [effect, Call.answer, parsed, absorbed, Reply.write]
  | ok name =>
    simp only [effect, Call.answer, parsed, echo]
    -- no concern of `simp`, which would spell it out
    generalize "hello ".toList ++ name = greeting
    by_cases known : name ∈ s.resources <;>
      simp [absorbed, known, Reply.write, makeOkMessage_eq]

/-- The variable of the demo's templates is there and a string. -/
theorem withId_bound (id : Str) (next : Str → Coroutine State HandlerRun) :
    withId request response [("id".toList, .string id)] next = next id := rfl

theorem serves_delete (id : Str) :
    Serves json (.delete id) request response
      (called request response onResourceDeleteRequest [("id".toList, .string id)]) := by
  intro s
  unfold called onResourceDeleteRequest
  rw [withId_bound, Coroutine.resume_bind]
  by_cases known : id ∈ s.resources <;>
    simp [effect, Call.answer, absorbed, Reply.write, known, makeOkResponse]

theorem serves_get (id : Str) :
    Serves json (.get id) request response
      (called request response (onResoureGetRequest json) [("id".toList, .string id)]) := by
  intro s
  unfold called onResoureGetRequest
  rw [withId_bound, Coroutine.resume_bind]
  by_cases known : id ∈ s.resources <;>
    simp [effect, Call.answer, absorbed, Reply.write, known, echo, makeOkMessage_eq]

theorem serves_hello :
    Serves json .hello request response
      (called request response (wrapHandler (onHello json)) []) := by
  intro s
  unfold called wrapHandler onHello
  rw [Coroutine.resume_bind]
  simp [effect, Call.answer, absorbed, Reply.write, echo, makeOkMessage_eq]

theorem serves_unknown :
    Serves json .unknown request response
      (.done ⟨request, { response with result := Status.not_found }, .returned⟩) := by
  intro s
  simp [effect, Call.answer, Reply.write]

theorem serves_shutdown (tail : Str) :
    Serves json .shutdown request response (onShutdown tail request response) := by
  intro s
  simp [onShutdown, effect, Call.answer, Reply.write]

/-- The page depends on the API's version and methods, not on its tree. -/
theorem serves_page :
    Serves json .page request response
      (.done
        ⟨request, handleAPIIntrospection json.dumpIndented (built json) response, .returned⟩) := by
  intro s
  simp [effect, Call.answer, Reply.write, built, handleAPIIntrospection]

/-- A path with one method. -/
theorem serves_only {call : Call} (m : Method Json (MethodHandler State)) (properties : Properties)
    (serves : Serves json call request response (called request response m.handler properties)) :
    Serves json (if request.method = m.method then call else .unknown) request response
      (perform json.dumpIndented request response (.ofLookup
        (([m].find? (fun m => m.method == request.method)).map (fun m => ⟨properties, m⟩)))) := by
  by_cases same : request.method = m.method
  · rw [if_pos same, List.find?_singleton, if_pos (beq_iff_eq.mpr same.symm)]
    exact serves
  · rw [if_neg same, List.find?_singleton, if_neg (fun held => same (beq_iff_eq.mp held).symm)]
    exact serves_unknown json request response

/-- What the API's lookup finds answers the call that the segments spell. -/
theorem serves_segments (segments : List Str) :
    Serves json (.ofSegments request segments) request response
      (perform json.dumpIndented request response
        (.ofLookup (lookup_helper request.method segments (roots json)))) := by
  have apart : ("resource".toList : Str) ≠ "hello".toList := by decide
  unfold roots
  match segments with
  | [] => exact serves_unknown json request response
  | view :: item :: more :: rest =>
    simp only [api, API.get, API.push, List.cons_append, List.nil_append, lookup_deeper]
    exact serves_unknown json request response
  | [view] =>
    simp only [api, API.get, API.push, List.cons_append, List.nil_append]
    rw [lookup_literal apart, Call.ofSegments]
    by_cases isResource : view = "resource".toList
    · have notHello : view ≠ "hello".toList := by rw [isResource]; exact apart
      rw [if_pos isResource]
      simp only [isResource, apart, and_true, and_false, if_false]
      exact serves_only json request response _ [] (serves_add json request response)
    · rw [if_neg isResource]
      by_cases isHello : view = "hello".toList
      · rw [if_pos isHello]
        simp only [isHello, apart.symm, and_true, and_false, if_false]
        exact serves_only json request response _ [] (serves_hello json request response)
      · rw [if_neg isHello]
        simp only [isResource, isHello, and_false, if_false]
        exact serves_unknown json request response
  | [view, item] =>
    simp only [api, API.get, API.push, List.cons_append, List.nil_append]
    rw [lookup_item, Call.ofSegments]
    by_cases isResource : view = "resource".toList
    · rw [if_pos isResource, if_pos isResource]
      cases verb : request.method
      case delete_ => exact serves_delete json request response item
      case get => exact serves_get json request response item
      all_goals exact serves_unknown json request response
    · rw [if_neg isResource, if_neg isResource]
      exact serves_unknown json request response

/-- Every request that is routed is answered as its call. -/
theorem serves_routed {tail : Str} {endpoint : Endpoint (AsyncHandler State)}
    (looked : (demoServer json).handlers.lookup request = some (tail, endpoint)) :
    Serves json (Call.of request) request response
      (Endpoint.handler json.dumpIndented abort (demoServer json).apis endpoint tail request
        response) := by
  rcases (demo_lookup_iff json request tail endpoint).mp looked with
    ⟨isApi, rfl⟩ | ⟨isShutdown, isPost, rfl⟩
  · rw [Call.of, isApi]
    simp only [Endpoint.handler, Source.AsyncRest.onRequest]
    rw [demo_dispatch]
    by_cases empty : tail = []
    · rw [if_pos empty, if_pos empty]
      exact serves_page json request response
    · rw [if_neg empty, if_neg empty]
      exact serves_segments json request response _
  · have notApi : behind "api/v1".toList request.target = none := by
      rw [Option.eq_none_iff_forall_ne_some]
      intro other isApi
      have texts := ((behind_eq_some_iff _ _ _).mp isApi).1.symm.trans
        ((behind_eq_some_iff _ _ _).mp isShutdown).1
      change 'a' :: _ = 's' :: _ at texts
      exact absurd (List.cons.inj texts).1 (by decide)
    rw [Call.of, notApi, isShutdown]
    simp only [isPost, Option.isSome_some, and_self, if_true]
    exact serves_shutdown json request response tail

/-- A request that is not routed. -/
theorem call_unrouted (looked : (demoServer json).handlers.lookup request = none) :
    Call.of request = .unroutable := by
  have notApi : behind "api/v1".toList request.target = none := by
    rw [Option.eq_none_iff_forall_ne_some]
    intro tail isApi
    cases looked.symm.trans ((demo_lookup_iff json request tail _).mpr (Or.inl ⟨isApi, rfl⟩))
  rw [Call.of, notApi]
  simp only
  split
  · rename_i isShutdown
    obtain ⟨tail, found⟩ := Option.isSome_iff_exists.mp isShutdown.2
    cases looked.symm.trans
      ((demo_lookup_iff json request tail _).mpr (Or.inr ⟨found, isShutdown.1, rfl⟩))
  · rfl

end Calls

section Runs
variable (json : Nlohmann) (beast : Beast)

/-- The demo's process. -/
def demo : Service State :=
  (host json beast).service [] (registrations json) (demoServer json).apis

theorem demo_routed (request : Request) :
    (demo json beast).routes.lookup request =
      ((demoServer json).handlers.lookup request).map
        (Prod.map id (Endpoint.handler json.dumpIndented abort (demoServer json).apis)) :=
  (host json beast).lookup_service (demo_registered json) (demoServer json).apis request

theorem demo_atOnce : AtOnce (demo json beast).routes := by
  intro request found looked response
  rw [demo_routed] at looked
  obtain ⟨⟨tail, endpoint⟩, routed, rfl⟩ := Option.map_eq_some_iff.mp looked
  intro s
  have served := serves_routed json request response routed s
  exact congrArg (fun ran => ran.2.isLeft) served

/-- One request to the sequential server. -/
theorem demo_respond (request : Request) (s : State) :
    respond (demo_atOnce json beast) request s =
      (effect json (Call.of request) s, ((Call.of request).answer json s.resources).2.write json
        ({ request := request } : Session).prepareResponse.response) := by
  have routed := demo_routed json beast request
  cases looked : (demoServer json).handlers.lookup request with
  | none =>
    rw [looked] at routed
    rw [respond_unrouted _ routed, call_unrouted json request looked]
    simp [effect, Call.answer, Reply.write]
  | some found =>
    rw [looked] at routed
    exact respond_returned _ routed (serves_routed json request _ looked s) rfl

/-- Any history of requests to the sequential server. -/
theorem demo_serve (asked : List (Nat × Request)) (s : State) :
    serve (demo_atOnce json beast) asked s =
      ({ s with
          resources := (serveAll json asked s.resources).1
          stopped := s.stopped || asked.any (fun entry => decide (Call.of entry.2 = .shutdown)) },
        (serveAll json asked s.resources).2) := by
  induction asked generalizing s with
  | nil => simp [serve, serveAll]
  | cons first asked ih =>
    obtain ⟨id, request⟩ := first
    rw [serve, demo_respond, ih, serveAll]
    simp [effect, Bool.or_assoc]

/-- The service as its clients have it after a history of requests. -/
structure ServesResources (s : System State) : Prop where
  resources : s.shared.app.resources = (serveAll json s.history ∅).1
  responses : ∀ id c, s.connections[id]? = some c →
    c.messages = (own id (serveAll json s.history ∅).2).filterMap beast.prepare_payload
  /-- No assertion fails. -/
  lives : s.shared.app.aborted = false
  stopped : s.shared.app.stopped = true ↔ ∃ asked ∈ s.history, Call.of asked.2 = .shutdown
  /-- Nothing is read behind a call of `/shutdown`. -/
  last : ∀ asked ∈ s.history.dropLast, Call.of asked.2 ≠ .shutdown

variable {json beast} {events : List Event} {s : System State}

/-- What the handlers share is what the calls make of it. -/
theorem demo_shared (reached : Reached (demo json beast) {} events s) :
    s.shared.app =
      { resources := (serveAll json s.history ∅).1
        stopped := s.history.any (fun entry => decide (Call.of entry.2 = .shutdown)) } := by
  rw [(sequential_of_reached (demo_atOnce json beast) reached).shared, demo_serve]
  rfl

/-- Whatever has been asked behind a running server's back was no `/shutdown`. -/
theorem not_shutdown_of_running (reached : Reached (demo json beast) {} events s)
    (running : (demo json beast).running s.shared.app = true) :
    ∀ asked ∈ s.history, Call.of asked.2 ≠ .shutdown := by
  rw [demo_shared reached] at running
  have goesOn : s.history.any (fun entry => decide (Call.of entry.2 = .shutdown)) = false := by
    simpa [demo, Host.service, host] using running
  intro asked member
  simpa using List.any_eq_false.mp goesOn asked member

/-- The last request of a run is the only one that can have been `/shutdown`. -/
theorem shutdown_last (reached : Reached (demo json beast) {} events s) :
    ∀ asked ∈ s.history.dropLast, Call.of asked.2 ≠ .shutdown := by
  have both : Reached (demo json beast) {} events s ∧
      ∀ asked ∈ s.history.dropLast, Call.of asked.2 ≠ .shutdown := by
    refine EventMachine.run_induction (motive := fun done s =>
      Reached (demo json beast) {} done s ∧
        ∀ asked ∈ s.history.dropLast, Call.of asked.2 ≠ .shutdown) reached ⟨rfl, ?_⟩ ?_
    · intro asked member
      cases member
    · rintro done s event s' ⟨sofar, last⟩ stepped
      refine ⟨(EventMachine.run_concat_eq_some_iff _ _ _ _).mpr ⟨s, sofar, stepped⟩, ?_⟩
      rcases step_sessions_cases stepped with ⟨_, _, rfl⟩ | ⟨-, rfl⟩ | ⟨_, rfl⟩ |
        ⟨id, wakeup, c, shared', c', -, running, present, woken, rfl⟩
      · exact last
      · exact last
      · exact last
      · have before := not_shutdown_of_running sofar running
        intro asked member
        refine before asked ?_
        cases wakeup with
        | read result =>
          cases result with
          | none => exact List.dropLast_subset _ (by simpa [Wakeup.asked] using member)
          | some request => simpa [Wakeup.asked] using member
        | resumed => exact List.dropLast_subset _ (by simpa [Wakeup.asked] using member)
        | wrote fails => exact List.dropLast_subset _ (by simpa [Wakeup.asked] using member)
  exact both.2

end Runs

/-- In every run of the demo, with any number of connections. -/
theorem demo_serves_resources (json : Nlohmann) (beast : Beast) (events : List Event)
    (s : System State) (reached : Reached (demo json beast) {} events s) :
    ServesResources json beast s := by
  have sequential := sequential_of_reached (demo_atOnce json beast) reached
  have shared := demo_shared reached
  refine ⟨by rw [shared], ?_, by rw [shared], ?_, shutdown_last reached⟩
  · intro id c present
    rw [sequential.messages id c present, demo_serve]
    rfl
  · rw [shared]
    simp [List.any_eq_true]

/-- JSON texts without white space and escapes. -/
def plainJson : Nlohmann where
  parseName body :=
    let name := (body.drop 9).dropLast.dropLast
    if body = "\x7b\"name\":\"".toList ++ name ++ "\"\x7d".toList ∧
        name.all (fun c => c != '"' && c != '\\') then
      .ok name
    else .error "parse_error".toList
  dump
    | .null => "null".toList
    | .record field value =>
        "\x7b\"".toList ++ field ++ "\":\"".toList ++ value ++ "\"\x7d".toList
  dumpIndented
    | .null => "null".toList
    | .record field value =>
        "\x7b\"".toList ++ field ++ "\": \"".toList ++ value ++ "\"\x7d".toList
  dump_ne_nil json := by cases json <;> simp

def acceptingBeast : Beast := { prepare_payload := some, need_eof := fun _ => false }

def added : Request where
  method := .post
  target := "/api/v1/resource".toList
  body := "\x7b\"name\":\"a\"\x7d".toList

/-- A resource is added, added again, looked up and deleted, and the service stopped. -/
def lifetime : List Event :=
  [.accept .socket,
    .session 0 (.read (some added)), .session 0 (.wrote false),
    .session 0 (.read (some { added with target := "/api/v1/resource/".toList })),
    .session 0 (.wrote false),
    .session 0 (.read (some { method := .get, target := "/api/v1/resource/a".toList })),
    .session 0 (.wrote false),
    .session 0 (.read (some { method := .delete_, target := "/api/v1/resource/a".toList })),
    .session 0 (.wrote false),
    .session 0 (.read (some { method := .post, target := "/shutdown".toList }))]

theorem lifetime_served :
    ∃ s, Reached (demo plainJson acceptingBeast) {} lifetime s ∧ s.shared.app.stopped = true ∧
      s.connections.map (fun c => c.written.map Response.result) = [[200, 409, 200, 204]] ∧
      ServesResources plainJson acceptingBeast s := by
  have ran : ((EventMachine.run (step (demo plainJson acceptingBeast)) lifetime
      (System.start {})).map (fun s =>
        (s.shared.app.stopped, s.connections.map (fun c => c.written.map Response.result)))) =
          some (true, [[200, 409, 200, 204]]) := by decide +kernel
  obtain ⟨s, reached, seen⟩ := Option.map_eq_some_iff.mp ran
  obtain ⟨stopped, statuses⟩ := Prod.mk.inj seen
  exact ⟨s, reached, stopped, statuses,
    demo_serves_resources plainJson acceptingBeast lifetime s reached⟩

end Restio.Guarantees.DemoService
