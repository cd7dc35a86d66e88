import Restio.Lib.Coroutine
import Restio.Lib.EventMachine
import Restio.Source.HttpServer

/-!
# The server as its io_context runs it

`listen`, the `makeSession` of every accepted socket, `takeStats` and `stop` of
restio_http_server.cpp:60-152 and 209-217, one thread taking turns among them. A
handler is a coroutine over the state that the handlers share; whenever it is
suspended any other session, the listener or the owner of the server may go on.
`processRequest` is the coroutine of the source, with the handler awaited in its
middle; a session's loop is cut at its three awaits: reading, handling, writing.

An event is what the environment does: it completes an accept, a read, a write or
whatever a handler waits for. Asio completes an accept that was begun on a closed
acceptor with an error. The routes are those of the server before it runs. When
`io_context::stop` has been called, which is read off the handlers' state, nothing
runs any more. `exits`, `rounds`, `written`, `snapshots` and `history` record what
happened; no step looks at them.
-/

set_option autoImplicit false

namespace Restio.Source.Connections
open Restio.Lib Restio.Source.Http Restio.Source.HandlerStore Restio.Source.HttpServer

/-- `RequestHandler`, whose coroutine may be suspended. -/
abbrev AsyncHandler (σ : Type) := Str → Request → Response → Coroutine σ HandlerRun

/-- The server's counters and what its handlers share. -/
structure Shared (σ : Type) where
  stats : Stats := {}
  /-- How the handlers that have ended did so. -/
  exits : List Exit := []
  app : σ

variable {σ : Type}

def Shared.appPart : Part (Shared σ) σ where
  get := Shared.app
  set := fun app shared => { shared with app := app }
  get_set := fun _ _ => rfl
  set_get := fun _ => rfl
  set_set := fun _ _ _ => rfl

def Shared.count (counted : Stats → Stats) (shared : Shared σ) : Shared σ :=
  { shared with stats := counted shared.stats }

def Shared.record (exit : Exit) (shared : Shared σ) : Shared σ :=
  { shared with exits := shared.exits ++ [exit] }

/-- `processRequest` behind the await: its `catch`. -/
def caught (run : HandlerRun) : Coroutine (Shared σ) Response :=
  match run.exit with
  | .returned => .done run.response
  | .threw _ =>
      .access (Shared.count (fun stats => { stats with exceptions := stats.exceptions + 1 }))
        (fun _ => .done { run.response with
          result := Status.internal_server_error
          reason := "Exception happened".toList })

/-- The response behind the `catch`. -/
def settled (run : HandlerRun) : Response :=
  match run.exit with
  | .returned => run.response
  | .threw _ => { run.response with
      result := Status.internal_server_error
      reason := "Exception happened".toList }

/-- The `try` block of `processRequest`: `co_await handler(...)` and its `catch`. -/
def awaitHandler (task : Coroutine σ HandlerRun) : Coroutine (Shared σ) Response :=
  (task.within Shared.appPart).bind (fun run =>
    .access (Shared.record run.exit) (fun _ => caught run))

/-- `processRequest`, up to the response it leaves. -/
def processRequest (routes : HttpHandlerStore (AsyncHandler σ)) (request : Request)
    (response : Response) : Coroutine (Shared σ) Response :=
  .access (Shared.count (fun stats => { stats with requests := stats.requests + 1 })) (fun _ =>
    match routes.lookup request with
    | none =>
        .access (Shared.count
            (fun stats => { stats with unknown_requests := stats.unknown_requests + 1 }))
          (fun _ => .done { response with result := Status.not_found })
    | some (path, handler) => awaitHandler (handler path request response))

/-- Where the coroutine of `makeSession` is suspended, or that it has ended. -/
inductive Phase (σ : Type) where
  | reading
  | handling (request : Request) (rest : Coroutine (Shared σ) Response)
  | writing (request : Request) (message : Response)
  | closed

def Phase.isClosed : Phase σ → Bool
  | .closed => true
  | _ => false

def Phase.isHandling : Phase σ → Bool
  | .handling _ _ => true
  | _ => false

/-- A session with a handler to resume or a response to write. -/
def Phase.isBusy : Phase σ → Bool
  | .handling _ _ => true
  | .writing _ _ => true
  | _ => false

structure Connection (σ : Type) where
  phase : Phase σ := .reading
  rounds : List Turn := []
  written : List Response := []

/-- The request that a session is busy with. -/
def Phase.pending : Phase σ → List Request
  | .handling request _ => [request]
  | .writing request _ => [request]
  | _ => []

/-- The response that a session is writing. -/
def Phase.message : Phase σ → List Response
  | .writing _ message => [message]
  | _ => []

/-- The requests that a session has read. -/
def Connection.requests (c : Connection σ) : List Request :=
  c.rounds.filterMap Turn.read ++ c.phase.pending

/-- The responses that a session has handed to `async_write`. -/
def Connection.messages (c : Connection σ) : List Response := c.written ++ c.phase.message

/-- All rounds of a session, but the one that closed it. -/
def Connection.settled (c : Connection σ) : List Turn :=
  if c.phase.isClosed then c.rounds.dropLast else c.rounds

/-- The session so far as `makeSession` has it: its complete rounds. -/
def Connection.log (c : Connection σ) : SessionLog where
  reads := c.rounds.length
  written := c.written
  ended := c.phase.isClosed

/-- How `async_accept` is completed. -/
inductive Accept where
  | socket
  | failed (aborted : Bool)
  | unexpected
  deriving DecidableEq, Repr

/-- `listen` waits for an accept, begun while the acceptor was open or not. -/
inductive Listener where
  | accepting (opened : Bool)
  | ended
  deriving DecidableEq, Repr

structure System (σ : Type) where
  shared : Shared σ
  acceptorOpen : Bool := true
  listener : Listener := .accepting true
  connections : List (Connection σ) := []
  snapshots : List Stats := []
  history : List (Nat × Request) := []

/-- What a session is resumed with. -/
inductive Wakeup where
  | read (result : Option Request)
  | resumed
  | wrote (fails : Bool)
  deriving DecidableEq, Repr

inductive Event where
  | accept (outcome : Accept)
  | session (id : Nat) (wakeup : Wakeup)
  | takeStats
  | stop
  deriving DecidableEq, Repr

structure Service (σ : Type) where
  beast : Beast
  routes : HttpHandlerStore (AsyncHandler σ)
  /-- `io_context::stop` was not called. -/
  running : σ → Bool := fun _ => true

def System.start (app : σ) : System σ := { shared := { app := app } }

/-- The server as its sessions have it, with a listener that nothing has happened to. -/
def System.withoutListener (s : System σ) : System σ :=
  { s with acceptorOpen := true, listener := .accepting true }

/-- What `makeSession` does once `processRequest` is suspended or has ended. -/
def Connection.answer (beast : Beast) (c : Connection σ) (request : Request) :
    Response ⊕ Coroutine (Shared σ) Response → Connection σ
  | .inr rest => { c with phase := .handling request rest }
  | .inl response =>
      match beast.prepare_payload response with
      | none => { c with phase := .closed, rounds := c.rounds ++ [{ read := some request }] }
      | some message => { c with phase := .writing request message }

/-- One resumption of `makeSession`, up to its next suspension. -/
def Connection.wake (service : Service σ) (shared : Shared σ) (c : Connection σ)
    (wakeup : Wakeup) : Option (Shared σ × Connection σ) :=
  match c.phase, wakeup with
  | .reading, .read none =>
      some (shared, { c with phase := .closed, rounds := c.rounds ++ [{ read := none }] })
  | .reading, .read (some request) =>
      let session := ({ request := request } : Session).prepareResponse
      let ran := (processRequest service.routes session.request session.response).resume shared
      some (ran.1, c.answer service.beast request ran.2)
  | .handling request rest, .resumed =>
      let ran := rest.resume shared
      some (ran.1, c.answer service.beast request ran.2)
  | .writing request message, .wrote fails =>
      some (shared, { c with
        phase := if fails || service.beast.need_eof message then .closed else .reading
        rounds := c.rounds ++ [{ read := some request, writeFails := fails }]
        written := c.written ++ [message] })
  | _, _ => none

/-- One round of the loop of `listen`. -/
def System.accept (s : System σ) (outcome : Accept) : Option (System σ) :=
  match s.listener, outcome with
  | .accepting true, .socket =>
      some { s with
        connections := s.connections ++ [{}]
        listener := .accepting s.acceptorOpen }
  | .accepting _, .failed aborted =>
      some { s with
        listener := if aborted || !s.acceptorOpen then .ended else .accepting s.acceptorOpen }
  | .accepting _, .unexpected => some { s with listener := .ended }
  | _, _ => none

/-- The request that a wakeup brings. -/
def Wakeup.asked : Wakeup → List Request
  | .read (some request) => [request]
  | _ => []

def step (service : Service σ) (event : Event) (s : System σ) : Option (System σ) :=
  match event with
  | .takeStats =>
      some { s with
        shared := { s.shared with stats := {} }
        snapshots := s.snapshots ++ [s.shared.stats] }
  | .stop => some { s with acceptorOpen := false }
  | .accept outcome => if service.running s.shared.app then s.accept outcome else none
  | .session id wakeup =>
      if service.running s.shared.app then
        match s.connections[id]? with
        | none => none
        | some c =>
            (c.wake service s.shared wakeup).map (fun woken =>
              { s with
                shared := woken.1
                connections := s.connections.set id woken.2
                history := s.history ++ wakeup.asked.map (fun request => (id, request)) })
      else none

/-- The state after events that can happen one after the other from the start. -/
def Reached (service : Service σ) (app : σ) (events : List Event) (s : System σ) : Prop :=
  EventMachine.run (step service) events (System.start app) = some s

section Resumptions

/-- A resumed handler is suspended again, or its result is left to the `catch`. -/
theorem resume_awaitHandler (task : Coroutine σ HandlerRun) (shared : Shared σ) :
    (awaitHandler task).resume shared =
      match task.resume shared.app with
      | (app, .inl run) =>
          (caught run).resume { shared with exits := shared.exits ++ [run.exit], app := app }
      | (app, .inr rest) => ({ shared with app := app }, .inr (awaitHandler rest)) := by
  unfold awaitHandler
  rw [Coroutine.resume_bind, Coroutine.resume_within]
  have app : Shared.appPart.get shared = shared.app := rfl
  rw [app]
  rcases task.resume shared.app with ⟨app, run | rest⟩ <;> rfl

/-- The `catch` of `processRequest` is what the server without suspensions has. -/
theorem resume_caught {server : HttpServerPrivate} {shared : Shared σ}
    (same : server.stats = shared.stats) (run : HandlerRun) :
    (caught run).resume shared =
      ({ shared with stats := (server.finishRequest run.exit run.response).1.stats },
        .inl (server.finishRequest run.exit run.response).2) := by
  unfold caught HttpServerPrivate.finishRequest
  cases run.exit with
  | returned =>
    rw [same]
    rfl
  | threw what =>
    rw [same]
    rfl

/-- The `catch` leaves all but the counters alone. -/
theorem resume_caught_settled (run : HandlerRun) (shared : Shared σ) :
    ∃ stats, (caught run).resume shared = ({ shared with stats := stats }, .inl (settled run)) := by
  unfold caught settled
  cases run.exit with
  | returned => exact ⟨shared.stats, rfl⟩
  | threw what => exact ⟨_, rfl⟩

theorem resume_processRequest_unrouted {routes : HttpHandlerStore (AsyncHandler σ)}
    {request : Request} (unrouted : routes.lookup request = none) (response : Response)
    (shared : Shared σ) :
    (processRequest routes request response).resume shared =
      ({ shared with
          stats := { shared.stats with
            requests := shared.stats.requests + 1
            unknown_requests := shared.stats.unknown_requests + 1 } },
        .inl { response with result := Status.not_found }) := by
  unfold processRequest
  rw [unrouted]
  rfl

theorem resume_processRequest_routed {routes : HttpHandlerStore (AsyncHandler σ)}
    {request : Request} {found : Str × AsyncHandler σ} (routed : routes.lookup request = some found)
    (response : Response) (shared : Shared σ) :
    (processRequest routes request response).resume shared =
      (awaitHandler (found.2 found.1 request response)).resume { shared with
        stats := { shared.stats with requests := shared.stats.requests + 1 } } := by
  unfold processRequest
  rw [routed]
  rfl

end Resumptions

section Answers
variable {beast : Beast} {c : Connection σ} {request : Request}

theorem Connection.answer_suspended (rest : Coroutine (Shared σ) Response) :
    c.answer beast request (.inr rest) = { c with phase := .handling request rest } := rfl

theorem Connection.answer_prepared {response message : Response}
    (prepared : beast.prepare_payload response = some message) :
    c.answer beast request (.inl response) = { c with phase := .writing request message } := by
  simp only [Connection.answer, prepared]

theorem Connection.answer_unprepared {response : Response}
    (thrown : beast.prepare_payload response = none) :
    c.answer beast request (.inl response) =
      { c with phase := .closed, rounds := c.rounds ++ [{ read := some request }] } := by
  simp only [Connection.answer, thrown]

/-- Behind the coroutine's end its session writes the response, or it is closed. -/
theorem Connection.phase_answer (response : Response) :
    (c.answer beast request (.inl response)).phase = .closed ∨
      ∃ message, (c.answer beast request (.inl response)).phase = .writing request message := by
  cases prepared : beast.prepare_payload response with
  | none =>
    rw [Connection.answer_unprepared prepared]
    exact Or.inl rfl
  | some message =>
    rw [Connection.answer_prepared prepared]
    exact Or.inr ⟨message, rfl⟩

/-- Only a coroutine that is suspended again leaves its session handling the request. -/
theorem Connection.handling_of_answer {outcome : Response ⊕ Coroutine (Shared σ) Response}
    {request' : Request} {rest : Coroutine (Shared σ) Response}
    (handling : (c.answer beast request outcome).phase = .handling request' rest) :
    request = request' ∧ outcome = .inr rest := by
  cases outcome with
  | inr rest' =>
    cases handling
    exact ⟨rfl, rfl⟩
  | inl response =>
    rcases Connection.phase_answer response with closed | ⟨message, writing⟩
    · cases closed.symm.trans handling
    · cases writing.symm.trans handling

end Answers

section Steps
variable {service : Service σ}

/-- The ways in which a session goes on. -/
theorem Connection.wake_cases {shared shared' : Shared σ} {c c' : Connection σ} {wakeup : Wakeup}
    (woken : c.wake service shared wakeup = some (shared', c')) :
    (wakeup = .read none ∧ c.phase = .reading ∧ shared' = shared ∧
        c' = { c with phase := .closed, rounds := c.rounds ++ [{ read := none }] }) ∨
      (∃ request outcome, wakeup = .read (some request) ∧ c.phase = .reading ∧
        (processRequest service.routes request
          ({ request := request } : Session).prepareResponse.response).resume shared =
            (shared', outcome) ∧ c' = c.answer service.beast request outcome) ∨
      (∃ request rest outcome, wakeup = .resumed ∧ c.phase = .handling request rest ∧
        rest.resume shared = (shared', outcome) ∧ c' = c.answer service.beast request outcome) ∨
      ∃ request message fails, wakeup = .wrote fails ∧ c.phase = .writing request message ∧
        shared' = shared ∧
        c' = { c with
          phase := if fails || service.beast.need_eof message then .closed else .reading
          rounds := c.rounds ++ [{ read := some request, writeFails := fails }]
          written := c.written ++ [message] } := by
  unfold Connection.wake at woken
  split at woken
  · rename_i reading
    cases woken
    exact Or.inl ⟨rfl, reading, rfl, rfl⟩
  · rename_i request reading
    cases woken
    exact Or.inr (Or.inl ⟨request, _, rfl, reading, rfl, rfl⟩)
  · rename_i request rest handling
    cases woken
    exact Or.inr (Or.inr (Or.inl ⟨request, rest, _, rfl, handling, rfl, rfl⟩))
  · rename_i request message fails writing
    cases woken
    exact Or.inr (Or.inr (Or.inr ⟨request, message, fails, rfl, writing, rfl, rfl⟩))
  · cases woken

/-- The ways in which the server goes on. -/
theorem step_cases {event : Event} {s s' : System σ} (stepped : step service event s = some s') :
    (event = .takeStats ∧ s' = { s with
        shared := { s.shared with stats := {} }
        snapshots := s.snapshots ++ [s.shared.stats] }) ∨
      (event = .stop ∧ s' = { s with acceptorOpen := false }) ∨
      (∃ outcome, event = .accept outcome ∧ service.running s.shared.app = true ∧
        s.accept outcome = some s') ∨
      ∃ id wakeup c shared' c', event = .session id wakeup ∧
        service.running s.shared.app = true ∧ s.connections[id]? = some c ∧
        c.wake service s.shared wakeup = some (shared', c') ∧
        s' = { s with
          shared := shared'
          connections := s.connections.set id c'
          history := s.history ++ wakeup.asked.map (fun request => (id, request)) } := by
  cases event with
  | takeStats =>
    cases stepped
    exact Or.inl ⟨rfl, rfl⟩
  | stop =>
    cases stepped
    exact Or.inr (Or.inl ⟨rfl, rfl⟩)
  | accept outcome =>
    simp only [step] at stepped
    split at stepped
    · rename_i running
      exact Or.inr (Or.inr (Or.inl ⟨outcome, rfl, running, stepped⟩))
    · cases stepped
  | session id wakeup =>
    simp only [step] at stepped
    split at stepped
    · rename_i running
      split at stepped
      · cases stepped
      · rename_i c present
        obtain ⟨⟨shared', c'⟩, woken, same⟩ := Option.map_eq_some_iff.mp stepped
        exact Or.inr (Or.inr (Or.inr ⟨id, wakeup, c, shared', c', rfl, running, present, woken,
          same.symm⟩))
    · cases stepped

/-- The listener touches nothing but itself and adds at most a new connection. -/
theorem System.accept_cases {s s' : System σ} {outcome : Accept}
    (accepted : s.accept outcome = some s') :
    (outcome = .socket ∧ s.listener = .accepting true ∧ s' = { s with
        connections := s.connections ++ [{}]
        listener := .accepting s.acceptorOpen }) ∨
      (∃ opened aborted, outcome = .failed aborted ∧ s.listener = .accepting opened ∧ s' = { s with
        listener := if aborted || !s.acceptorOpen then .ended else .accepting s.acceptorOpen }) ∨
      ∃ opened, outcome = .unexpected ∧ s.listener = .accepting opened ∧
        s' = { s with listener := .ended } := by
  unfold System.accept at accepted
  split at accepted
  · rename_i waiting
    cases accepted
    exact Or.inl ⟨rfl, waiting, rfl⟩
  · rename_i opened aborted waiting
    cases accepted
    exact Or.inr (Or.inl ⟨opened, aborted, rfl, waiting, rfl⟩)
  · rename_i opened waiting
    cases accepted
    exact Or.inr (Or.inr ⟨opened, rfl, waiting, rfl⟩)
  · cases accepted

/-- The same for those whom the listener does not concern: it adds a connection, or it
is left alone with what it does. -/
theorem step_sessions_cases {event : Event} {s s' : System σ}
    (stepped : step service event s = some s') :
    (∃ acceptorOpen listener,
        s' = { s with acceptorOpen := acceptorOpen, listener := listener }) ∨
      (event = .takeStats ∧ s' = { s with
        shared := { s.shared with stats := {} }
        snapshots := s.snapshots ++ [s.shared.stats] }) ∨
      (∃ listener, s' = { s with connections := s.connections ++ [{}], listener := listener }) ∨
      ∃ id wakeup c shared' c', event = .session id wakeup ∧
        service.running s.shared.app = true ∧ s.connections[id]? = some c ∧
        c.wake service s.shared wakeup = some (shared', c') ∧
        s' = { s with
          shared := shared'
          connections := s.connections.set id c'
          history := s.history ++ wakeup.asked.map (fun request => (id, request)) } := by
  rcases step_cases stepped with taken | ⟨-, rfl⟩ | ⟨outcome, -, -, accepted⟩ | resumed
  · exact Or.inr (Or.inl taken)
  · exact Or.inl ⟨false, s.listener, rfl⟩
  · rcases System.accept_cases accepted with ⟨-, -, rfl⟩ | ⟨_, _, -, -, rfl⟩ | ⟨_, -, -, rfl⟩
    · exact Or.inr (Or.inr (Or.inl ⟨_, rfl⟩))
    · exact Or.inl ⟨s.acceptorOpen, _, rfl⟩
    · exact Or.inl ⟨s.acceptorOpen, _, rfl⟩
  · exact Or.inr (Or.inr (Or.inr resumed))

/-- What a session's resumptions keep, whatever the shared state they find, holds of
every connection. -/
theorem Reached.connection_invariant {app : σ} {events : List Event} {s : System σ}
    (reached : Reached service app events s) {motive : Connection σ → Prop} (fresh : motive {})
    (kept : ∀ shared c wakeup shared' c', motive c →
      c.wake service shared wakeup = some (shared', c') → motive c') :
    ∀ c ∈ s.connections, motive c := by
  refine EventMachine.run_induction (motive := fun _ s => ∀ c ∈ s.connections, motive c) reached
    (fun c member => by cases member) ?_
  intro done s event s' held stepped
  rcases step_sessions_cases stepped with ⟨_, _, rfl⟩ | ⟨-, rfl⟩ | ⟨_, rfl⟩ |
    ⟨id, wakeup, c, shared', c', -, -, present, woken, rfl⟩
  · exact held
  · exact held
  · exact List.forall_mem_append.mpr ⟨held, List.forall_mem_singleton.mpr fresh⟩
  · intro other member
    rcases List.mem_or_eq_of_mem_set member with old | rfl
    · exact held other old
    · exact kept _ _ _ _ _ (held c (List.mem_of_getElem? present)) woken

/-- What holds of a request's coroutine from its first suspension on. -/
theorem Reached.handling_invariant {app : σ} {events : List Event} {s : System σ}
    (reached : Reached service app events s)
    {motive : Request → Coroutine (Shared σ) Response → Prop}
    (begun : ∀ request rest, Coroutine.Follows rest (processRequest service.routes request
      ({ request := request } : Session).prepareResponse.response) → motive request rest)
    (kept : ∀ request rest rest', motive request rest → Coroutine.Follows rest' rest →
      motive request rest') :
    ∀ c ∈ s.connections, ∀ request rest, c.phase = .handling request rest →
      motive request rest := by
  refine reached.connection_invariant
    (motive := fun c => ∀ request rest, c.phase = .handling request rest → motive request rest)
    (fun request rest same => by cases same) ?_
  intro shared c wakeup shared' c' held woken request rest handling
  rcases Connection.wake_cases woken with ⟨-, -, -, rfl⟩ | ⟨request', outcome, -, -, ran, rfl⟩ |
    ⟨request', rest', outcome, -, before, ran, rfl⟩ | ⟨_, _, _, -, -, -, rfl⟩
  · cases handling
  · obtain ⟨rfl, rfl⟩ := Connection.handling_of_answer handling
    exact begun request' rest ⟨shared, shared', ran⟩
  · obtain ⟨rfl, rfl⟩ := Connection.handling_of_answer handling
    exact kept request' rest' rest (held request' rest' before) ⟨shared, shared', ran⟩
  · simp only at handling
    split at handling <;> cases handling

end Steps
end Restio.Source.Connections
