import Restio.Source.HandlerStore

/-!
# The HTTP server

`processRequest`, `makeSession` and `takeStats` of restio_http_server.cpp:60-129
and 212-217. `processRequest` is cut where it awaits the handler: other sessions
and `takeStats` run on the same thread between `startRequest` and `finishRequest`.

The environment of a session is a list of turns, one for each round of its loop:
what `http::async_read` yields and whether `http::async_write` fails. Beast's
`prepare_payload` and `need_eof` are parameters; `prepare_payload` may throw, and
then the coroutine is left. Logging, accepting and closing sockets are left out.
-/

set_option autoImplicit false

namespace Restio.Source.HttpServer
open Restio.Source.Http Restio.Source.HandlerStore

/-- `CMAKE_PROJECT_VERSION`. -/
def RESTIO_VERSION : Str := "1.0.0".toList

structure Stats where
  requests : UInt32 := 0
  unknown_requests : UInt32 := 0
  exceptions : UInt32 := 0
  deriving DecidableEq, Repr

structure HttpServerPrivate where
  handlers : HttpHandlerStore RequestHandler
  stats : Stats := {}

namespace HttpServerPrivate

def addRoute (server : HttpServerPrivate) (method : Verb) (path : Str)
    (handler : RequestHandler) : HttpServerPrivate :=
  { server with handlers := server.handlers.add method path handler }

def takeStats (server : HttpServerPrivate) : Stats × HttpServerPrivate :=
  (server.stats, { server with stats := {} })

/-- `processRequest` up to the handler's start: the handler to await, or the
response of an unroutable request. -/
def startRequest (server : HttpServerPrivate) (request : Request) (response : Response) :
    HttpServerPrivate × (Response ⊕ (Str × RequestHandler)) :=
  let stats := { server.stats with requests := server.stats.requests + 1 }
  match server.handlers.lookup request with
  | none =>
      ({ server with stats := { stats with unknown_requests := stats.unknown_requests + 1 } },
        .inl { response with result := Status.not_found })
  | some found => ({ server with stats := stats }, .inr found)

/-- `processRequest` behind the handler's end. -/
def finishRequest (server : HttpServerPrivate) (exit : Exit) (response : Response) :
    HttpServerPrivate × Response :=
  match exit with
  | .returned => (server, response)
  | .threw _ =>
      ({ server with
          stats := { server.stats with exceptions := server.stats.exceptions + 1 } },
        { response with
          result := Status.internal_server_error
          reason := "Exception happened".toList })

/-- `processRequest` with nothing in between. -/
def processRequest (server : HttpServerPrivate) (request : Request) (response : Response) :
    HttpServerPrivate × Request × Response :=
  match server.startRequest request response with
  | (server', .inl response') => (server', request, response')
  | (server', .inr (path, handler)) =>
      let run := handler path request response
      let finished := server'.finishRequest run.exit run.response
      (finished.1, run.request, finished.2)

section
variable {server : HttpServerPrivate} {request : Request}

theorem startRequest_unrouted (unrouted : server.handlers.lookup request = none)
    (response : Response) :
    server.startRequest request response =
      ({ server with
          stats := { server.stats with
            requests := server.stats.requests + 1
            unknown_requests := server.stats.unknown_requests + 1 } },
        .inl { response with result := Status.not_found }) := by
  unfold startRequest
  rw [unrouted]

theorem startRequest_routed {found : Str × RequestHandler}
    (routed : server.handlers.lookup request = some found) (response : Response) :
    server.startRequest request response =
      ({ server with stats := { server.stats with requests := server.stats.requests + 1 } },
        .inr found) := by
  unfold startRequest
  rw [routed]

theorem processRequest_unrouted (unrouted : server.handlers.lookup request = none)
    (response : Response) :
    (server.processRequest request response).2 =
      (request, { response with result := Status.not_found }) := by
  unfold processRequest
  rw [startRequest_unrouted unrouted]

theorem finishRequest_handlers (exit : Exit) (response : Response) :
    (server.finishRequest exit response).1.handlers = server.handlers := by
  cases exit <;> rfl

theorem finishRequest_response (server other : HttpServerPrivate) (exit : Exit)
    (response : Response) :
    (server.finishRequest exit response).2 = (other.finishRequest exit response).2 := by
  cases exit <;> rfl

theorem processRequest_routed {tail : Str} {handler : RequestHandler}
    (routed : server.handlers.lookup request = some (tail, handler)) (response : Response) :
    (server.processRequest request response).2 =
      ((handler tail request response).request,
        (server.finishRequest (handler tail request response).exit
          (handler tail request response).response).2) := by
  unfold processRequest
  rw [startRequest_routed routed]
  exact congrArg (Prod.mk _) (finishRequest_response _ server _ _)

theorem processRequest_handlers (response : Response) :
    (server.processRequest request response).1.handlers = server.handlers := by
  unfold processRequest
  cases looked : server.handlers.lookup request with
  | none => rw [startRequest_unrouted looked]
  | some found =>
    rw [startRequest_routed looked]
    exact finishRequest_handlers _ _

/-- The counters have no influence on what becomes of the two messages. -/
theorem processRequest_messages {other : HttpServerPrivate}
    (same : server.handlers = other.handlers) (response : Response) :
    (server.processRequest request response).2 = (other.processRequest request response).2 := by
  cases looked : other.handlers.lookup request with
  | none =>
    rw [processRequest_unrouted looked, processRequest_unrouted (by rw [same, looked])]
  | some found =>
    rw [processRequest_routed looked, processRequest_routed (by rw [same, looked]),
      finishRequest_response server other]

end
end HttpServerPrivate

/-- The parts of Beast's response that a session relies on. -/
structure Beast where
  /-- `none` when `prepare_payload` throws. -/
  prepare_payload : Response → Option Response
  need_eof : Response → Bool

/-- One round of a session's loop, as the connection has it. -/
structure Turn where
  /-- `none` when the read fails. -/
  read : Option Request
  writeFails : Bool := false

/-- The variables declared outside the loop. -/
structure Session where
  request : Request := {}
  response : Response := {}

/-- What a session has done: the rounds it has read in, the responses handed to
`http::async_write`, and whether it has left its loop. Otherwise it waits in
`http::async_read`. -/
structure SessionLog where
  reads : Nat := 0
  written : List Response := []
  ended : Bool := false
  deriving DecidableEq, Repr

/-- The response before a request is processed. -/
def Session.prepareResponse (session : Session) : Session :=
  let session := { session with response := {} }
  let session := { session with
    response := { session.response with version := session.request.version } }
  let session := { session with
    response := session.response.set Field.server ("Restio/".toList ++ RESTIO_VERSION) }
  let session := { session with
    response := { session.response with keep_alive := session.request.keep_alive } }
  { session with response := { session.response with result := Status.ok } }

/-- The loop of `makeSession`. -/
def sessionLoop (beast : Beast) (server : HttpServerPrivate) (session : Session) :
    List Turn → HttpServerPrivate × SessionLog
  | [] => (server, {})
  | turn :: turns =>
      let session := { session with request := {} }
      match turn.read with
      | none => (server, { reads := 1, ended := true })
      | some request =>
          let session := { session with request := request }
          let session := session.prepareResponse
          let (server', request', response') :=
            server.processRequest session.request session.response
          match beast.prepare_payload response' with
          | none => (server', { reads := 1, ended := true })
          | some message =>
              if turn.writeFails || beast.need_eof message then
                (server', { reads := 1, written := [message], ended := true })
              else
                let session := { session with request := request', response := message }
                let (server'', log) := sessionLoop beast server' session turns
                (server'',
                  { log with reads := log.reads + 1, written := message :: log.written })

/-- `makeSession` on a new connection. -/
def makeSession (beast : Beast) (server : HttpServerPrivate) (turns : List Turn) :
    HttpServerPrivate × SessionLog :=
  sessionLoop beast server {} turns

end Restio.Source.HttpServer
