import Restio.Source.Connections
import Restio.Source.MixedServer

/-!
# Method handlers as coroutines

`onRequest` of restio_rest_handler.cpp:52-72 with the method's handler awaited in its
`try` block, and `wrapHandler` of restio_api_mapper.hpp:57-80, which makes a method's
handler of a callable. One without a coroutine works on what it has captured in one go.

A failed assertion ends the process. The state then says so (`abort`), and the
coroutine waits for a resumption that a server that is not running never makes.
-/

set_option autoImplicit false

namespace Restio.Source.AsyncRest
open Restio.Lib Restio.Source.Http Restio.Source.ApiMapper Restio.Source.HandlerStore
open Restio.Source.HttpServer Restio.Source.RestHandler Restio.Source.Connections
open Restio.Source.MixedServer

variable {σ J : Type}

/-- `API::Method::Handler`, whose coroutine may be suspended. -/
abbrev MethodHandler (σ : Type) := Request → Response → Properties → Coroutine σ HandlerRun

/-- A callable that returns nothing. -/
abbrev SyncHandler (σ : Type) := Request → Response → Properties → σ → σ × HandlerRun

/-- `wrapHandler` of such a callable; the one of a coroutine returns it as it is. -/
def wrapHandler (handler : SyncHandler σ) : MethodHandler σ := fun request response properties =>
  .access (fun s => (handler request response properties s).1)
    (fun s => .done (handler request response properties s).2)

/-- The process ends. -/
def aborting (abort : σ → σ) (request : Request) (response : Response) : Coroutine σ HandlerRun :=
  .access abort (fun _ => .suspend (.done ⟨request, response, .returned⟩))

/-- The `catch` of `onRequest`. -/
def absorbed (run : HandlerRun) : HandlerRun :=
  match run.exit with
  | .returned => run
  | .threw _ =>
      ⟨run.request, { run.response with result := Status.internal_server_error }, .returned⟩

/-- What `onRequest` does about its decision. -/
def perform (dump : J → Str) (request : Request) (response : Response) :
    Action J (MethodHandler σ) → Coroutine σ HandlerRun
  | .introspection api => .done ⟨request, handleAPIIntrospection dump api response, .returned⟩
  | .notFound => .done ⟨request, { response with result := Status.not_found }, .returned⟩
  | .call m properties =>
      (m.handler request response properties).bind (fun run => .done (absorbed run))

/-- The coroutine of the closure that `registerAPI` adds as a route. -/
def onRequest (dump : J → Str) (abort : σ → σ) (apis : FiniteMap Int (API J (MethodHandler σ)))
    (apiVersion : Int) : AsyncHandler σ := fun target request response =>
  match dispatch apis apiVersion request.method target with
  | .error _ => aborting abort request response
  | .ok action => perform dump request response action

/-- A route's handler, as it runs once the APIs are registered. -/
def Endpoint.handler (dump : J → Str) (abort : σ → σ)
    (apis : FiniteMap Int (API J (MethodHandler σ))) : Endpoint (AsyncHandler σ) → AsyncHandler σ
  | .raw handler => handler
  | .api closure => onRequest dump abort apis closure.version

/-- The parts of a server's process that are not its routes. -/
structure Host (σ J : Type) where
  beast : Beast
  dump : J → Str
  abort : σ → σ
  running : σ → Bool

/-- The server with these registrations, once it runs. -/
def Host.service (host : Host σ J) (base_path : Str)
    (registrations : List (Registration J (MethodHandler σ) (AsyncHandler σ)))
    (apis : FiniteMap Int (API J (MethodHandler σ))) : Service σ where
  beast := host.beast
  routes := HttpHandlerStore.run base_path
    ((registrations.map Registration.op).map (Op.map (Endpoint.handler host.dump host.abort apis)))
  running := host.running

section Routes
variable {host : Host σ J} {base_path : Str}
  {registrations : List (Registration J (MethodHandler σ) (AsyncHandler σ))}
  {server : Server J (MethodHandler σ) (AsyncHandler σ)}

/-- The running server routes as its registrations do. -/
theorem Host.lookup_service (registered : Server.registerAll base_path registrations = .ok server)
    (apis : FiniteMap Int (API J (MethodHandler σ))) (req : Request) :
    (host.service base_path registrations apis).routes.lookup req =
      (server.handlers.lookup req).map
        (Prod.map id (Endpoint.handler host.dump host.abort apis)) := by
  rw [Host.service, HttpHandlerStore.lookup_run_map, registerAll_handlers registrations registered]
  rfl

end Routes

section Outcomes
variable (dump : J → Str)

theorem absorbed_exit (run : HandlerRun) : (absorbed run).exit = .returned := by
  unfold absorbed
  split
  · assumption
  · rfl

/-- `onRequest` lets no exception out, whatever the method's handler does. -/
theorem onRequest_ends (abort : σ → σ) (apis : FiniteMap Int (API J (MethodHandler σ)))
    (apiVersion : Int) (target : Str) (request : Request) (response : Response) :
    (onRequest dump abort apis apiVersion target request response).Ends
      (fun run => run.exit = .returned) := by
  unfold onRequest
  split
  · exact Coroutine.ends_access (fun _ => Coroutine.ends_suspend (Coroutine.ends_done rfl))
  · rename_i action _
    cases action with
    | introspection api => exact Coroutine.ends_done rfl
    | notFound => exact Coroutine.ends_done rfl
    | call m properties =>
      exact (Coroutine.ends_of_forall (fun _ => trivial) _).bind (fun run _ =>
        Coroutine.ends_done (absorbed_exit run))

end Outcomes
end Restio.Source.AsyncRest

namespace Restio.Source.Connections
open Restio.Source.MixedServer

variable {σ J H R : Type}

/-- A session that waits for a raw handler. -/
def Phase.isRaw (server : Server J H R) : Phase σ → Bool
  | .handling request _ => server.isRaw request
  | _ => false

end Restio.Source.Connections
