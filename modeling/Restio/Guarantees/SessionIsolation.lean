import Restio.Guarantees.KeepAlive
import Restio.Source.Connections
import Restio.Source.StoreHistory

/-!
# Sessions do not see each other

Handlers whose results do not depend on the state they share may be suspended, and
may change that state, as they like: in every interleaving of any number of
connections each session has exchanged what `makeSession` exchanges alone with the
same peer, and the response it is about to write is the one its request would get
on a connection of its own (`sessions_isolated`).

That the results are independent of the shared state is all that is assumed; the
demo's handlers are not of this kind.
-/

set_option autoImplicit false

namespace Restio.Guarantees.SessionIsolation
open Restio.Lib Restio.Source.Http Restio.Source.HandlerStore Restio.Source.HttpServer
open Restio.Source.Connections Restio.Guarantees.KeepAlive

variable {σ : Type}

/-- The routes are those of the server without suspensions, and each handler comes to
what that server's handler returns, whatever becomes of the shared state. -/
def Implements (routes : HttpHandlerStore (AsyncHandler σ)) (base : HttpServerPrivate) : Prop :=
  ∀ request, Option.Rel
    (fun found found' => found.1 = found'.1 ∧
      ∀ response, (found.2 found.1 request response).Ends
        (fun run => run = found'.2 found'.1 request response))
    (routes.lookup request) (base.handlers.lookup request)

/-- What a connection shows of a session that had the server to itself. -/
structure Alone (beast : Beast) (base : HttpServerPrivate) (c : Connection σ) : Prop where
  log : (makeSession beast base c.rounds).2 = c.log
  handling : ∀ request rest, c.phase = .handling request rest →
    rest.Ends (fun response =>
      response = (base.processRequest request (freshResponse request)).2.2)
  writing : ∀ request message, c.phase = .writing request message →
    aloneResponse beast base request = some message

section
variable {beast : Beast} {base server : HttpServerPrivate}

/-- What a first turn makes of a session depends on the routes alone. -/
theorem sessionLoop_single (session : Session) (turn : Turn)
    (same : server.handlers = base.handlers) :
    (sessionLoop beast server session [turn]).2 = (makeSession beast base [turn]).2 := by
  unfold makeSession
  cases read : turn.read with
  | none => rw [sessionLoop_unread _ _ _ read, sessionLoop_unread _ _ _ read]
  | some request =>
    have responses : (server.processRequest request (freshResponse request)).2.2 =
        (base.processRequest request (freshResponse request)).2.2 :=
      congrArg Prod.snd (HttpServerPrivate.processRequest_messages same _)
    cases prepared : beast.prepare_payload
        (base.processRequest request (freshResponse request)).2.2 with
    | none =>
      rw [sessionLoop_unprepared _ _ _ read prepared,
        sessionLoop_unprepared _ _ _ read (by rw [responses, prepared])]
    | some message =>
      rw [sessionLoop_answered _ _ _ read prepared,
        sessionLoop_answered _ _ _ read (by rw [responses, prepared])]
      split <;> rfl

/-- A session that has not ended goes on with a further turn as with a first one. -/
theorem sessionLoop_concat (session : Session) (turns : List Turn) (turn : Turn)
    (same : server.handlers = base.handlers)
    (waits : (sessionLoop beast server session turns).2.ended = false) :
    (sessionLoop beast server session (turns ++ [turn])).2 =
      { reads := (sessionLoop beast server session turns).2.reads +
          (makeSession beast base [turn]).2.reads
        written := (sessionLoop beast server session turns).2.written ++
          (makeSession beast base [turn]).2.written
        ended := (makeSession beast base [turn]).2.ended } := by
  induction turns generalizing server session with
  | nil =>
    rw [List.nil_append, sessionLoop_single session turn same, sessionLoop]
    simp only [Nat.zero_add, List.nil_append]
  | cons first turns ih =>
    cases read : first.read with
    | none =>
      rw [sessionLoop_unread _ _ _ read] at waits
      cases waits
    | some request =>
      cases prepared : beast.prepare_payload
          (server.processRequest request (freshResponse request)).2.2 with
      | none =>
        rw [sessionLoop_unprepared _ _ _ read prepared] at waits
        cases waits
      | some message =>
        rw [sessionLoop_answered _ _ _ read prepared] at waits
        rw [List.cons_append, sessionLoop_answered _ _ _ read prepared,
          sessionLoop_answered _ _ _ read prepared]
        split at waits
        · cases waits
        · rename_i goesOn
          have kept : (server.processRequest request (freshResponse request)).1.handlers =
              base.handlers := (HttpServerPrivate.processRequest_handlers _).trans same
          rw [if_neg goesOn, if_neg goesOn]
          simp only [ih _ kept waits, List.cons_append]
          rw [Nat.add_right_comm]

/-- A round whose response was written. -/
theorem makeSession_single {request : Request} {message : Response}
    (alone : aloneResponse beast base request = some message) (fails : Bool) :
    (makeSession beast base [{ read := some request, writeFails := fails }]).2 =
      { reads := 1, written := [message], ended := fails || beast.need_eof message } := by
  rw [aloneResponse_eq] at alone
  rw [makeSession, sessionLoop_answered {} _ [] rfl alone]
  split
  · rename_i stops
    rw [stops]
  · rename_i goesOn
    rw [Bool.not_eq_true] at goesOn
    rw [goesOn]
    rfl

/-- A round whose response could not be prepared. -/
theorem makeSession_unprepared {request : Request}
    (thrown : aloneResponse beast base request = none) :
    (makeSession beast base [{ read := some request }]).2 = { reads := 1, ended := true } := by
  rw [aloneResponse_eq] at thrown
  rw [makeSession, sessionLoop_unprepared {} _ [] rfl thrown]

/-- A connection's log with a further round. -/
theorem Alone.next {c c' : Connection σ} (alone : Alone beast base c)
    (lasts : c.phase.isClosed = false) {turn : Turn} (rounds : c'.rounds = c.rounds ++ [turn])
    (further : (makeSession beast base [turn]).2 =
      { reads := 1, written := c'.written.drop c.written.length, ended := c'.phase.isClosed })
    (written : c.written <+: c'.written) : (makeSession beast base c'.rounds).2 = c'.log := by
  have waits : (makeSession beast base c.rounds).2.ended = false := by
    rw [alone.log]
    exact lasts
  have before := alone.log
  rw [rounds]
  refine (sessionLoop_concat {} c.rounds turn rfl waits).trans ?_
  unfold makeSession at before further
  obtain ⟨more, whole⟩ := written
  rw [before, makeSession, further, Connection.log, Connection.log, rounds, ← whole,
    List.drop_left, List.length_append]
  rfl

section Wakeups
variable {routes : HttpHandlerStore (AsyncHandler σ)} {shared : Shared σ} {c : Connection σ}

/-- `processRequest` comes to the response of the server without suspensions. -/
theorem processRequest_ends (implements : Implements routes base) (request : Request)
    (response : Response) :
    (processRequest routes request response).Ends
      (fun left => left = (base.processRequest request response).2.2) := by
  refine Coroutine.ends_access (fun counted => ?_)
  have found := implements request
  cases looked : base.handlers.lookup request with
  | none =>
    rw [looked] at found
    cases mine : routes.lookup request with
    | some other =>
      rw [mine] at found
      cases found
    | none =>
      refine Coroutine.ends_access (fun counted' => Coroutine.ends_done ?_)
      rw [HttpServerPrivate.processRequest_unrouted looked]
  | some served =>
    obtain ⟨tail', handler'⟩ := served
    rw [looked] at found
    cases mine : routes.lookup request with
    | none =>
      rw [mine] at found
      cases found
    | some other =>
      obtain ⟨tail, handler⟩ := other
      rw [mine] at found
      cases found with
      | some related =>
        obtain ⟨rfl, ends⟩ := related
        refine ((ends response).within Shared.appPart).bind (fun run same => ?_)
        refine Coroutine.ends_access (fun recorded => ?_)
        rw [same, HttpServerPrivate.processRequest_routed looked]
        unfold caught HttpServerPrivate.finishRequest
        split
        · rename_i returned
          rw [returned]
          exact Coroutine.ends_done rfl
        · rename_i what threw
          rw [threw]
          exact Coroutine.ends_access (fun counted' => Coroutine.ends_done rfl)

/-- A session that resumed its request's coroutine is still as if alone. -/
theorem Alone.answer (alone : Alone beast base c) (lasts : c.phase.isClosed = false)
    {request : Request} {outcome : Response ⊕ Coroutine (Shared σ) Response}
    (comes : Coroutine.Outcome (fun response =>
      response = (base.processRequest request (freshResponse request)).2.2) outcome) :
    Alone beast base (c.answer beast request outcome) := by
  have before := alone.log
  rw [Connection.log, lasts] at before
  cases outcome with
  | inr rest =>
    rw [Connection.answer_suspended]
    refine ⟨before, ?_, ?_⟩
    · intro request' rest' same
      cases same
      exact comes
    · intro request' message same
      cases same
  | inl response =>
    obtain rfl : response = _ := comes
    cases prepared : beast.prepare_payload
        (base.processRequest request (freshResponse request)).2.2 with
    | none =>
      have thrown : aloneResponse beast base request = none := by rw [aloneResponse_eq, prepared]
      rw [Connection.answer_unprepared prepared]
      refine ⟨alone.next lasts rfl ?_ (List.prefix_refl _), ?_, ?_⟩
      · rw [makeSession_unprepared thrown, List.drop_length]
        rfl
      · intro request' rest' same
        cases same
      · intro request' message same
        cases same
    | some message =>
      rw [Connection.answer_prepared prepared]
      refine ⟨before, ?_, ?_⟩
      · intro request' rest' same
        cases same
      · intro request' message' same
        cases same
        rw [aloneResponse_eq, prepared]

/-- Every resumption of a session keeps it as if alone. -/
theorem Alone.wake {service : Service σ} {shared' : Shared σ} {c' : Connection σ}
    {wakeup : Wakeup} (implements : Implements service.routes base)
    (alone : Alone service.beast base c)
    (woken : c.wake service shared wakeup = some (shared', c')) :
    Alone service.beast base c' := by
  rcases Connection.wake_cases woken with ⟨-, reading, -, rfl⟩ |
    ⟨request, outcome, -, reading, ran, rfl⟩ | ⟨request, rest, outcome, -, handling, ran, rfl⟩ |
    ⟨request, message, fails, -, writing, -, rfl⟩
  · have lasts : c.phase.isClosed = false := by rw [reading]; rfl
    refine ⟨alone.next lasts rfl ?_ (List.prefix_refl _), ?_, ?_⟩
    · rw [makeSession, sessionLoop_unread {} _ [] rfl, List.drop_length]
      rfl
    · intro request rest same
      cases same
    · intro request message same
      cases same
  · have lasts : c.phase.isClosed = false := by rw [reading]; rfl
    have ends := (processRequest_ends implements request (freshResponse request)).resume shared
    change (processRequest service.routes request (freshResponse request)).resume shared = _ at ran
    rw [ran] at ends
    exact alone.answer lasts ends
  · have lasts : c.phase.isClosed = false := by rw [handling]; rfl
    have ends := (alone.handling request rest handling).resume shared
    rw [ran] at ends
    exact alone.answer lasts ends
  · have lasts : c.phase.isClosed = false := by rw [writing]; rfl
    have single := makeSession_single (alone.writing request message writing) fails
    refine ⟨alone.next lasts rfl ?_ (List.prefix_append _ _), ?_, ?_⟩
    · rw [single, List.drop_left]
      cases stops : fails || service.beast.need_eof message <;> rfl
    · intro request' rest same
      simp only at same
      split at same <;> cases same
    · intro request' message' same
      simp only at same
      split at same <;> cases same

end Wakeups

end

theorem alone_of_reached {service : Service σ} {base : HttpServerPrivate}
    (implements : Implements service.routes base) {app : σ} {events : List Event} {s : System σ}
    (reached : Reached service app events s) :
    ∀ c ∈ s.connections, Alone service.beast base c := by
  refine reached.connection_invariant ⟨rfl, ?_, ?_⟩ ?_
  · intro request rest same
    cases same
  · intro request message same
    cases same
  · intro shared c wakeup shared' c' alone woken
    exact alone.wake implements woken

/-- With handlers whose results do not depend on the state they share: in every run,
every connection has exchanged what it would have exchanged alone. -/
theorem sessions_isolated (service : Service σ) (base : HttpServerPrivate)
    (implements : Implements service.routes base) (app : σ) (events : List Event) (s : System σ)
    (reached : Reached service app events s) :
    ∀ c ∈ s.connections, Alone service.beast base c :=
  alone_of_reached implements reached

/-- A server whose handlers are replaced by coroutines that come to the same. -/
theorem implements_of_map (base_path : Str) (ops : List (Op RequestHandler))
    {delayed : RequestHandler → AsyncHandler σ}
    (ends : ∀ handler tail request response, (delayed handler tail request response).Ends
      (fun run => run = handler tail request response)) :
    Implements (HttpHandlerStore.run base_path (ops.map (Op.map delayed)))
      { handlers := HttpHandlerStore.run base_path ops } := by
  intro request
  rw [HttpHandlerStore.lookup_run_map]
  cases (HttpHandlerStore.run base_path ops).lookup request with
  | none => exact Option.Rel.none
  | some found => exact Option.Rel.some ⟨rfl, fun response => ends found.2 found.1 request response⟩

/-- The handler, suspended once before and once behind counting its calls. -/
def paused (handler : RequestHandler) : AsyncHandler Nat := fun tail request response =>
  .suspend (.access Nat.succ (fun _ => .suspend (.done (handler tail request response))))

theorem paused_ends (handler : RequestHandler) (tail : Str) (request : Request)
    (response : Response) : (paused handler tail request response).Ends
      (fun run => run = handler tail request response) :=
  Coroutine.ends_suspend (Coroutine.ends_access (fun _ =>
    Coroutine.ends_suspend (Coroutine.ends_done rfl)))

def pausedGreeter : Service Nat where
  beast := lengthBeast
  routes := HttpHandlerStore.run [] ([Op.add .unknown "greet".toList greet].map (Op.map paused))

/-- Two connections whose requests overlap; the second is answered first. -/
def overlapping : List Event :=
  [.accept .socket, .accept .socket,
    .session 0 (.read (some { target := "/greet/a".toList })),
    .session 1 (.read (some { target := "/greet".toList })),
    .session 1 .resumed, .session 0 .resumed, .session 1 .resumed, .session 1 (.wrote false),
    .takeStats, .session 0 .resumed]

theorem pausedGreeter_isolated :
    ∃ s, Reached pausedGreeter 0 overlapping s ∧ s.shared.app = 2 ∧
      ∀ c ∈ s.connections, Alone lengthBeast greeter c := by
  have ran : ((EventMachine.run (step pausedGreeter) overlapping (System.start 0)).map
      (fun s => s.shared.app)) = some 2 := by decide +kernel
  obtain ⟨s, reached, counted⟩ := Option.map_eq_some_iff.mp ran
  refine ⟨s, reached, counted, sessions_isolated pausedGreeter greeter ?_ 0 overlapping s reached⟩
  exact implements_of_map [] [Op.add .unknown "greet".toList greet] paused_ends

end Restio.Guarantees.SessionIsolation
