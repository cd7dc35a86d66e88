import Restio.Guarantees.SessionIsolation
import Restio.Source.AsyncRest
import Restio.Source.HandlerMap

/-!
# The server with its APIs, as one connection sees it

Raw routes and APIs are registered, each handler a coroutine that is suspended and
changes what it shares as it likes, but comes to results of its own: those of a plain
handler, which it is paired with. Then the coroutine of `onRequest` comes to what
`RestHandler.onRequest` returns with the plain handlers, and in every run with any
number of connections each session has exchanged what `makeSession` exchanges alone
on the server with the plain handlers in the same registrations
(`rest_sessions_isolated`).

Handlers that come to the same may still differ in what they do meanwhile.
-/

set_option autoImplicit false

namespace Restio.Guarantees.RestIsolation
open Restio.Lib Restio.Source.Http Restio.Source.ApiMapper Restio.Source.HandlerStore
open Restio.Source.HttpServer Restio.Source.RestHandler Restio.Source.Connections
open Restio.Source.MixedServer Restio.Source.AsyncRest Restio.Guarantees.KeepAlive
open Restio.Guarantees.SessionIsolation

variable {σ J : Type}

/-- A method's handler that may be suspended, and one without suspensions, to which it
comes whatever the others do. -/
structure DelayedMethod (σ : Type) where
  delayed : MethodHandler σ
  plain : Handler
  ends : ∀ request response properties,
    (delayed request response properties).Ends (fun run => run = plain request response properties)

/-- The same for a raw route. -/
structure DelayedRoute (σ : Type) where
  delayed : AsyncHandler σ
  plain : RequestHandler
  ends : ∀ tail request response,
    (delayed tail request response).Ends (fun run => run = plain tail request response)

/-- Registrations, each with both of its handlers. -/
abbrev Delayed (σ J : Type) := Registration J (DelayedMethod σ) (DelayedRoute σ)

def Delayed.delayed (registrations : List (Delayed σ J)) :
    List (Registration J (MethodHandler σ) (AsyncHandler σ)) :=
  registrations.map (Registration.map DelayedMethod.delayed DelayedRoute.delayed)

def Delayed.plain (registrations : List (Delayed σ J)) :
    List (Registration J Handler RequestHandler) :=
  registrations.map (Registration.map DelayedMethod.plain DelayedRoute.plain)

/-- A route's handler on the server without suspensions. -/
def handlerOf (dump : J → Str) (apis : FiniteMap Int (API J Handler)) :
    Endpoint RequestHandler → RequestHandler
  | .raw handler => handler
  | .api closure => fun target request response =>
      match Source.RestHandler.onRequest dump apis closure.version target request response with
      | .ok run => run
      -- a failed assertion, which no registered version comes to
      | .error _ => ⟨request, response, .returned⟩

/-- The server of these registrations, without suspensions. -/
def plainServer (dump : J → Str) (base_path : Str)
    (registrations : List (Registration J Handler RequestHandler))
    (apis : FiniteMap Int (API J Handler)) : HttpServerPrivate where
  handlers := HttpHandlerStore.run base_path
    ((registrations.map Registration.op).map (Op.map (handlerOf dump apis)))

section Handlers
variable (dump : J → Str) (abort : σ → σ) {apis : FiniteMap Int (API J (DelayedMethod σ))}
  {version : Int} {target : Str} {request : Request} {response : Response}

/-- The coroutine of `onRequest` comes to what the function returns. -/
theorem onRequest_ends_as {run : HandlerRun}
    (ran : Source.RestHandler.onRequest dump (apis.map (API.map DelayedMethod.plain)) version target
      request response = .ok run) :
    (Source.AsyncRest.onRequest dump abort (apis.map (API.map DelayedMethod.delayed)) version target
      request response).Ends (fun run' => run' = run) := by
  unfold Source.RestHandler.onRequest at ran
  unfold Source.AsyncRest.onRequest
  rw [dispatch_map] at ran ⊢
  cases decided : dispatch apis version request.method target with
  | error fault =>
    rw [decided] at ran
    cases ran
  | ok action =>
    rw [decided] at ran
    cases action with
    | introspection api =>
      cases ran
      refine Coroutine.ends_done (congrArg (fun page => HandlerRun.mk request page .returned) ?_)
      exact (handleAPIIntrospection_map DelayedMethod.delayed dump api response).trans
        (handleAPIIntrospection_map DelayedMethod.plain dump api response).symm
    | notFound =>
      cases ran
      exact Coroutine.ends_done rfl
    | call m properties =>
      refine (m.handler.ends request response properties).bind (fun run' same => ?_)
      refine Coroutine.ends_done ?_
      rw [same]
      simp only [Except.map, Action.map, Method.map] at ran
      unfold absorbed
      cases ended : (m.handler.plain request response properties).exit with
      | returned =>
        rw [ended] at ran
        exact Except.ok.inj ran
      | threw what =>
        rw [ended] at ran
        exact Except.ok.inj ran

/-- A registered version fails no assertion. -/
theorem onRequest_succeeds {apis : FiniteMap Int (API J Handler)}
    (known : (apis.find version).isSome) :
    ∃ run, Source.RestHandler.onRequest dump apis version target request response = .ok run := by
  obtain ⟨api, found⟩ := Option.isSome_iff_exists.mp known
  have decides : ∃ action, dispatch apis version request.method target = .ok action := by
    unfold dispatch
    rw [found]
    simp only
    split <;> exact ⟨_, rfl⟩
  obtain ⟨action, decided⟩ := decides
  unfold Source.RestHandler.onRequest
  rw [decided]
  cases action with
  | introspection api => exact ⟨_, rfl⟩
  | notFound => exact ⟨_, rfl⟩
  | call m properties =>
    simp only
    cases (m.handler request response properties).exit <;> exact ⟨_, rfl⟩

end Handlers

section Routes
variable {host : Host σ J} {base_path : Str} {registrations : List (Delayed σ J)}
  {server : Server J (DelayedMethod σ) (DelayedRoute σ)}

/-- The closures that lookup finds are of registered versions. -/
theorem version_known (registered : Server.registerAll base_path registrations = .ok server)
    {req : Request} {tail : Str} {closure : OnRequest}
    (looked : (HttpHandlerStore.run base_path (registrations.map Registration.op)).lookup req =
      some (tail, .api closure)) :
    (server.apis.find closure.version).isSome := by
  refine HttpHandlerStore.lookup_run_registered (P := fun endpoint =>
    ∀ closure, endpoint = .api closure → (server.apis.find closure.version).isSome)
    ?_ looked closure rfl
  intro verb path endpoint member closure same
  obtain ⟨registration, belongs, op⟩ := List.mem_map.mp member
  cases registration with
  | route method path' handler =>
    cases op
    cases same
  | registerAPI api =>
    cases op
    cases same
    exact find_registered registered api.version (Or.inr ⟨api, belongs, rfl⟩)

/-- The server of the coroutines implements the one without suspensions. -/
theorem implements_plain (registered : Server.registerAll base_path registrations = .ok server) :
    Implements (host.service base_path (Delayed.delayed registrations)
        (server.apis.map (API.map DelayedMethod.delayed))).routes
      (plainServer host.dump base_path (Delayed.plain registrations)
        (server.apis.map (API.map DelayedMethod.plain))) := by
  intro request
  unfold Host.service plainServer Delayed.delayed Delayed.plain
  simp only
  rw [ops_map, ops_map, HttpHandlerStore.lookup_run_map, HttpHandlerStore.lookup_run_map]
  cases looked : (HttpHandlerStore.run base_path
      (registrations.map Registration.op)).lookup request with
  | none => exact Option.Rel.none
  | some found =>
    obtain ⟨tail, endpoint⟩ := found
    refine Option.Rel.some ⟨rfl, fun response => ?_⟩
    cases endpoint with
    | raw handler => exact handler.ends tail request response
    | api closure =>
      have known :
          ((server.apis.map (API.map DelayedMethod.plain)).find closure.version).isSome := by
        rw [FiniteMap.find_map, Option.isSome_map]
        exact version_known registered looked
      have succeeds : ∃ run, Source.RestHandler.onRequest host.dump
          (server.apis.map (API.map DelayedMethod.plain)) closure.version tail request response =
            .ok run := onRequest_succeeds host.dump known
      obtain ⟨run, ran⟩ := succeeds
      have plainly : handlerOf host.dump (server.apis.map (API.map DelayedMethod.plain))
          (.api closure) tail request response = run := by
        simp only [handlerOf, ran]
      simp only [Prod.map_apply, id_eq, Endpoint.map, plainly]
      exact onRequest_ends_as host.dump host.abort ran

end Routes

/-- In every run of a server with any registrations, every connection has exchanged what
it would have exchanged alone, with handlers that return at once. -/
theorem rest_sessions_isolated (host : Host σ J) (base_path : Str)
    (registrations : List (Delayed σ J)) (server : Server J Handler RequestHandler)
    (registered : Server.registerAll base_path (Delayed.plain registrations) = .ok server) :
    ∃ other, Server.registerAll base_path (Delayed.delayed registrations) = .ok other ∧
      ∀ (app : σ) (events : List Event) (s : System σ),
        Reached (host.service base_path (Delayed.delayed registrations) other.apis) app events s →
        ∀ c ∈ s.connections, Alone host.beast
          (plainServer host.dump base_path (Delayed.plain registrations) server.apis) c := by
  obtain ⟨both, paired, apis⟩ :=
    registerAll_of_map DelayedMethod.plain DelayedRoute.plain registered
  obtain ⟨other, registered', apis'⟩ :=
    registerAll_map DelayedMethod.delayed DelayedRoute.delayed paired
  refine ⟨other, registered', fun app events s reached => ?_⟩
  rw [apis'] at reached
  rw [apis]
  exact alone_of_reached (implements_plain paired) reached

/-- The method's handler, suspended once before and once behind its effect. -/
def lingering (effect : Nat → Nat) (handler : Handler) : DelayedMethod Nat where
  delayed := fun request response properties =>
    .suspend (.access effect (fun _ => .suspend (.done (handler request response properties))))
  plain := handler
  ends := fun _ _ _ => Coroutine.ends_suspend (Coroutine.ends_access (fun _ =>
    Coroutine.ends_suspend (Coroutine.ends_done rfl)))

def pausedGreet : DelayedRoute Nat := ⟨paused greet, greet, paused_ends greet⟩

/-- Answers with 204. -/
def quiet : Handler := fun request response _ =>
  ⟨request, makeOkResponse response [] "text/plain".toList, .returned⟩

/-- Shows its variable. -/
def showItem : Handler := fun request response properties =>
  match properties.find "id".toList with
  | some (.int id) =>
      ⟨request, makeOkResponse response (Decimal.render id) "text/plain".toList, .returned⟩
  | _ => ⟨request, response, .threw "no id".toList⟩

/-- An API beside a raw route. Two of its methods answer alike and do the opposite. -/
def stocked : List (Delayed Nat Unit) :=
  [.route .unknown "greet".toList pausedGreet,
    .registerAPI { methods :=
      [⟨.post, "inc".toList, [], (), (), [], lingering Nat.succ quiet⟩,
        ⟨.post, "dec".toList, [], (), (), [], lingering Nat.pred quiet⟩,
        ⟨.get, "item/<int:id>".toList, [], (), (), [], lingering id showItem⟩] }]

def quietHost : Host Nat Unit where
  beast := lengthBeast
  dump := fun _ => []
  abort := id
  running := fun _ => true

/-- Calls of the API, during which others of it and the raw route are called. -/
def interleaved : List Event :=
  [.accept .socket, .accept .socket,
    .session 0 (.read (some { method := .post, target := "/api/v1/inc".toList })),
    .session 1 (.read (some { method := .post, target := "/api/v1/dec".toList })),
    .session 1 .resumed, .session 0 .resumed, .session 1 .resumed, .session 1 (.wrote false),
    .session 1 (.read (some { target := "/greet/a".toList })),
    .session 0 .resumed, .session 0 (.wrote false),
    .session 0 (.read (some { method := .get, target := "/api/v1/item/7".toList })),
    .session 1 .resumed, .session 0 .resumed, .session 0 .resumed, .session 1 .resumed,
    .session 1 (.wrote false), .session 0 (.wrote false)]

/-- The server of the coroutines, once its APIs are registered. -/
def stockedService (apis : FiniteMap Int (API Unit (MethodHandler Nat))) : Service Nat :=
  quietHost.service [] (Delayed.delayed stocked) apis

def shown (s : System Nat) : Nat × List (List (Status × Str)) :=
  (s.shared.app, s.connections.map (fun c => c.written.map (fun m => (m.result, m.body))))

theorem stocked_isolated :
    ∃ server other s, Server.registerAll [] (Delayed.plain stocked) = .ok server ∧
      Server.registerAll [] (Delayed.delayed stocked) = .ok other ∧
      Reached (stockedService other.apis) 0 interleaved s ∧
      shown s = (2, [[(204, []), (200, "7".toList)], [(204, []), (200, "hello /a".toList)]]) ∧
      ∀ c ∈ s.connections, Alone lengthBeast
        (plainServer quietHost.dump [] (Delayed.plain stocked) server.apis) c := by
  have succeeds : (Server.registerAll [] (Delayed.plain stocked)).toOption.isSome = true := by
    decide +kernel
  have ran : (Server.registerAll [] (Delayed.delayed stocked)).toOption.bind (fun other =>
      (EventMachine.run (step (stockedService other.apis)) interleaved
        (System.start 0)).map shown) =
      some (2, [[(204, []), (200, "7".toList)], [(204, []), (200, "hello /a".toList)]]) := by
    decide +kernel
  cases registered : Server.registerAll [] (Delayed.plain stocked) with
  | error fault =>
    rw [registered] at succeeds
    cases succeeds
  | ok server =>
    obtain ⟨other, registered', isolated⟩ :=
      rest_sessions_isolated quietHost [] stocked server registered
    rw [registered'] at ran
    obtain ⟨s, reached, seen⟩ := Option.map_eq_some_iff.mp ran
    exact ⟨server, other, s, rfl, registered', reached, seen, isolated 0 interleaved s reached⟩

end Restio.Guarantees.RestIsolation
