import Mathlib.Data.Finset.Basic
import Restio.Source.AsyncRest

/-!
# The demo service

`RESTService` of tools/restio-demo.cpp:52-149: a set of resource names behind four API
methods, and a raw route that stops the io_context. All its handlers work in one go;
a handler finds its variable with `Properties::value<std::string>`
(restio_properties.hpp:40-46), and dereferencing an empty result would be the end of
the process.

JSON is a parameter: what `json::parse` and `get<ResourceAddRequest>` make of a body,
and the text of the messages, which is never empty. `main` is left out but for its
io_context, which runs until it is stopped.
-/

set_option autoImplicit false

namespace Restio.Source.Demo
open Restio.Lib Restio.Source.Http Restio.Source.ApiMapper Restio.Source.HandlerStore
open Restio.Source.HttpServer Restio.Source.RestHandler Restio.Source.Connections
open Restio.Source.MixedServer Restio.Source.AsyncRest

/-- The JSON values of the demo: `nullptr`, and the messages with their one field. -/
inductive Json where
  | null
  | record (field value : Str)
  deriving DecidableEq, Repr

structure Nlohmann where
  /-- `json::parse(body).get<ResourceAddRequest>().name`, or what was thrown. -/
  parseName : Str → Except Str Str
  dump : Json → Str
  /-- `dump(2)`. -/
  dumpIndented : Json → Str
  dump_ne_nil : ∀ json, dump json ≠ []

structure State where
  resources : Finset Str := ∅
  /-- `ioc.stop()` was called. -/
  stopped : Bool := false
  /-- The process has ended. -/
  aborted : Bool := false

def conflict : Status := 409

/-- `Properties::value`, for the alternative of `MappedType` that it is asked for. -/
def value {α : Type} (alternative : MappedType → Option α) (properties : Properties) (key : Str) :
    Except Str (Option α) :=
  match properties.find key with
  | none => .ok none
  | some found =>
      match alternative found with
      | none => .error "bad_variant_access".toList
      | some held => .ok (some held)

def stringAlternative : MappedType → Option Str
  | .string text => some text
  | .int _ => none

def abort (s : State) : State := { s with aborted := true }

section Handlers
variable (json : Nlohmann)

/-- `makeOkResponse` of a message. -/
def makeOkMessage (response : Response) (message : Json) : Response :=
  makeOkResponse response (json.dump message) "application/json; charset=utf-8".toList

/-- `*p.value<std::string>("id")`, and what is done with it. -/
def withId (request : Request) (response : Response) (properties : Properties)
    (next : Str → Coroutine State HandlerRun) : Coroutine State HandlerRun :=
  match value stringAlternative properties "id".toList with
  | .error what => .done ⟨request, response, .threw what⟩
  | .ok none => aborting abort request response
  | .ok (some id) => next id

def onResoureAddRequest : MethodHandler State := fun request response _ =>
  match json.parseName request.body with
  | .error what => .done ⟨request, response, .threw what⟩
  | .ok name =>
      .access (fun s => { s with resources := insert name s.resources }) (fun s =>
        if name ∈ s.resources then
          .done ⟨request, { response with result := conflict }, .returned⟩
        else
          .done ⟨request,
            makeOkMessage json response (.record "echo".toList ("hello ".toList ++ name)),
            .returned⟩)

def onResourceDeleteRequest : MethodHandler State := fun request response properties =>
  withId request response properties (fun id =>
    .access (fun s => { s with resources := s.resources.erase id }) (fun s =>
      if id ∈ s.resources then
        .done ⟨request, makeOkResponse response [] "application/json; charset=utf-8".toList,
          .returned⟩
      else .done ⟨request, { response with result := Status.not_found }, .returned⟩))

def onResoureGetRequest : MethodHandler State := fun request response properties =>
  withId request response properties (fun id =>
    .access (fun s => s) (fun s =>
      if id ∈ s.resources then
        .done ⟨request, makeOkMessage json response (.record "echo".toList ("It's ".toList ++ id)),
          .returned⟩
      else .done ⟨request, { response with result := Status.not_found }, .returned⟩))

/-- The lambda behind `hello`, which returns nothing. -/
def onHello : SyncHandler State := fun request response _ s =>
  (s, ⟨request, makeOkMessage json response (.record "echo".toList "hello world".toList),
    .returned⟩)

/-- The lambda behind `/shutdown`. -/
def onShutdown : AsyncHandler State := fun _ request response =>
  .access (fun s => { s with stopped := true }) (fun _ => .done ⟨request, response, .returned⟩)

def api : API Json (MethodHandler State) :=
  let api : API Json (MethodHandler State) :=
    { version := 1
      methods :=
        [Method.post (.record "name".toList "world".toList)
            (.record "echo".toList "hello world".toList) "resource".toList
            "Add new resource".toList "200 - added".toList (onResoureAddRequest json),
          Method.delete_ .null "resource/<string:id>".toList "Delete resource".toList
            "204 - deleted<br>404 - resource not found".toList onResourceDeleteRequest,
          Method.get .null (.record "echo".toList "hello world".toList)
            "resource/<string:id>".toList "resource info".toList
            "200 - ok<br>404 - resource not found".toList (onResoureGetRequest json)] }
  API.get api .null (.record "echo".toList "hello world".toList) "hello".toList
    "Say Hello".toList "200 - Hello back".toList (wrapHandler (onHello json))

def registrations : List (Registration Json (MethodHandler State) (AsyncHandler State)) :=
  [.route .post "/shutdown".toList onShutdown, .registerAPI (api json)]

/-- The process of `main`. -/
def host (beast : Beast) : Host State Json where
  beast := beast
  dump := json.dumpIndented
  abort := abort
  running := fun s => !s.stopped && !s.aborted

end Handlers
end Restio.Source.Demo
