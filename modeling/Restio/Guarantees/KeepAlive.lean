import Restio.Source.HandlerStoreTrie
import Restio.Source.HttpServer

/-!
# Keep-alive sessions

`makeSession` keeps one request and one response for all rounds of its loop and
assigns both anew in each. So a round's response is the one that the same request
gets as the only request of a new connection (`aloneResponse`), whatever was
exchanged before and whatever the counters say, and a session is fixed by its
turns: one response for each request read, in order, up to the first failed write,
end-of-file response or failed read, and no read behind that
(`session_law`).

Handlers are arbitrary functions of tail, request and incoming response. What is
assumed of Beast is what its documentation says of `prepare_payload`.
-/

set_option autoImplicit false

namespace Restio.Guarantees.KeepAlive
open Restio.Source.Http Restio.Source.HandlerStore Restio.Source.HttpServer

/-- Statuses with which a body is an error. -/
def BodyForbidden (status : Status) : Prop :=
  (100 ≤ status ∧ status < 200) ∨ status = Status.no_content ∨ status = 304

/-- `prepare_payload` throws for a body that the status forbids at most, and it
adjusts fields only. -/
structure Documented (beast : Beast) : Prop where
  accepts : ∀ response, response.body = [] ∨ ¬ BodyForbidden response.result →
    (beast.prepare_payload response).isSome
  keeps : ∀ response message, beast.prepare_payload response = some message →
    message.result = response.result ∧ message.reason = response.reason ∧
      message.body = response.body

/-- The response as every request finds it. -/
def freshResponse (request : Request) : Response :=
  ({ request := request } : Session).prepareResponse.response

/-- The response to a request that is the only one of a new connection. -/
def aloneResponse (beast : Beast) (server : HttpServerPrivate) (request : Request) :
    Option Response :=
  (makeSession beast server [{ read := some request }]).2.written.head?

/-- A handler that returns leaves a response that can be prepared. -/
def LeavesAcceptable (beast : Beast) (server : HttpServerPrivate) : Prop :=
  ∀ request tail handler, server.handlers.lookup request = some (tail, handler) →
    (handler tail request (freshResponse request)).exit = .returned →
      (beast.prepare_payload (handler tail request (freshResponse request)).response).isSome

/-- The round reads a request, its response is written and does not end the
connection. -/
def Continues (beast : Beast) (server : HttpServerPrivate) (turn : Turn) : Prop :=
  ∃ request response, turn.read = some request ∧
    aloneResponse beast server request = some response ∧ turn.writeFails = false ∧
      beast.need_eof response = false

section Rounds
variable {beast : Beast} {server other : HttpServerPrivate}

/-- Whatever a session held before, a request finds the fresh response. -/
theorem prepareResponse_fresh (session : Session) (request : Request) :
    ({ session with request := request } : Session).prepareResponse =
      { request := request, response := freshResponse request } := rfl

/-- A round whose read fails. -/
theorem sessionLoop_unread (session : Session) (turn : Turn) (turns : List Turn)
    (closed : turn.read = none) :
    sessionLoop beast server session (turn :: turns) = (server, { reads := 1, ended := true }) := by
  rw [sessionLoop]
  simp only [closed]

/-- A round whose response can be prepared. -/
theorem sessionLoop_answered (session : Session) (turn : Turn) (turns : List Turn)
    {request : Request} {message : Response} (read : turn.read = some request)
    (prepared : beast.prepare_payload
      (server.processRequest request (freshResponse request)).2.2 = some message) :
    sessionLoop beast server session (turn :: turns) =
      if turn.writeFails || beast.need_eof message then
        ((server.processRequest request (freshResponse request)).1,
          { reads := 1, written := [message], ended := true })
      else
        let rest := sessionLoop beast (server.processRequest request (freshResponse request)).1
          ⟨(server.processRequest request (freshResponse request)).2.1, message⟩ turns
        (rest.1, { rest.2 with reads := rest.2.reads + 1, written := message :: rest.2.written })
    := by
  rw [sessionLoop]
  simp only [read, prepareResponse_fresh, prepared]

/-- A round that `prepare_payload` throws in. -/
theorem sessionLoop_unprepared (session : Session) (turn : Turn) (turns : List Turn)
    {request : Request} (read : turn.read = some request)
    (thrown : beast.prepare_payload
      (server.processRequest request (freshResponse request)).2.2 = none) :
    sessionLoop beast server session (turn :: turns) =
      ((server.processRequest request (freshResponse request)).1,
        { reads := 1, ended := true }) := by
  rw [sessionLoop]
  simp only [read, prepareResponse_fresh, thrown]

theorem aloneResponse_eq (request : Request) :
    aloneResponse beast server request =
      beast.prepare_payload (server.processRequest request (freshResponse request)).2.2 := by
  unfold aloneResponse makeSession
  cases prepared : beast.prepare_payload
      (server.processRequest request (freshResponse request)).2.2 with
  | none =>
    rw [sessionLoop_unprepared {} _ [] rfl prepared]
    rfl
  | some message =>
    rw [sessionLoop_answered {} _ [] rfl prepared]
    split <;> rfl

/-- With acceptable handlers every request has a response on its own. -/
theorem aloneResponse_isSome (documented : Documented beast)
    (acceptable : LeavesAcceptable beast server) (request : Request) :
    (aloneResponse beast server request).isSome := by
  rw [aloneResponse_eq]
  cases routed : server.handlers.lookup request with
  | none =>
    rw [HttpServerPrivate.processRequest_unrouted routed]
    exact documented.accepts _ (Or.inl rfl)
  | some found =>
    obtain ⟨tail, handler⟩ := found
    rw [HttpServerPrivate.processRequest_routed routed]
    cases exit : (handler tail request (freshResponse request)).exit with
    | returned => exact acceptable request tail handler routed exit
    | threw what =>
      refine documented.accepts _ (Or.inr ?_)
      simp [HttpServerPrivate.finishRequest, BodyForbidden, Status.internal_server_error,
        Status.no_content]

/-- Only the routes of a server matter to a request's response. -/
theorem aloneResponse_congr (same : server.handlers = other.handlers) (request : Request) :
    aloneResponse beast server request = aloneResponse beast other request := by
  rw [aloneResponse_eq, aloneResponse_eq, HttpServerPrivate.processRequest_messages same]

end Rounds

/-- What a session's turns make of it. -/
structure SessionLaw (beast : Beast) (server : HttpServerPrivate) (turns : List Turn)
    (log : SessionLog) : Prop where
  /-- One response for each request read, in order, each the request's own. -/
  written : log.written.map some =
    ((turns.take log.reads).filterMap Turn.read).map (aloneResponse beast server)
  /-- All rounds read in but the last continue the session. -/
  continued : ∀ turn ∈ (turns.take log.reads).dropLast, Continues beast server turn
  /-- The session has ended exactly when the last round read in does not. -/
  ended_iff : log.ended = true ↔
    ∃ turn, (turns.take log.reads).getLast? = some turn ∧ ¬ Continues beast server turn
  /-- Otherwise all turns have been taken and it waits for the next request. -/
  waiting : log.ended = false → log.reads = turns.length

section Run
variable {beast : Beast} {server : HttpServerPrivate}

/-- No further turn changes a session that has ended. -/
theorem sessionLoop_ended (session : Session) (turns more : List Turn)
    (ended : (sessionLoop beast server session turns).2.ended = true) :
    sessionLoop beast server session (turns ++ more) = sessionLoop beast server session turns := by
  induction turns generalizing server session with
  | nil => cases ended
  | cons turn turns ih =>
    rw [List.cons_append]
    cases read : turn.read with
    | none => rw [sessionLoop_unread _ _ _ read, sessionLoop_unread _ _ _ read]
    | some request =>
      cases prepared : beast.prepare_payload
          (server.processRequest request (freshResponse request)).2.2 with
      | none =>
        rw [sessionLoop_unprepared _ _ _ read prepared, sessionLoop_unprepared _ _ _ read prepared]
      | some message =>
        rw [sessionLoop_answered _ _ _ read prepared] at ended
        rw [sessionLoop_answered _ _ _ read prepared, sessionLoop_answered _ _ _ read prepared]
        split
        · rfl
        · rename_i continues
          rw [if_neg continues] at ended
          rw [ih _ ended]

/-- The law for one round put before a session that obeys it. -/
theorem SessionLaw.cons {turn : Turn} {turns : List Turn} {request : Request}
    {message : Response} {log : SessionLog} (law : SessionLaw beast server turns log)
    (read : turn.read = some request)
    (alone : aloneResponse beast server request = some message)
    (continues : Continues beast server turn) :
    SessionLaw beast server (turn :: turns)
      { log with reads := log.reads + 1, written := message :: log.written } where
  written := by
    simp [read, alone, law.written]
  continued := by
    intro other member
    rw [List.take_succ_cons] at member
    cases taken : turns.take log.reads with
    | nil => simp [taken] at member
    | cons next rest =>
      rw [taken, List.dropLast_cons_of_ne_nil (List.cons_ne_nil _ _)] at member
      rcases List.mem_cons.mp member with rfl | deeper
      · exact continues
      · exact law.continued other (taken ▸ deeper)
  ended_iff := by
    simp only [law.ended_iff, List.take_succ_cons]
    cases taken : turns.take log.reads with
    | nil => simpa using continues
    | cons next rest => simp [List.getLast?_cons_cons]
  waiting := by
    intro waits
    simpa using law.waiting waits

/-- The law for a single last round. -/
theorem sessionLaw_last {turn : Turn} {turns : List Turn} {written : List Response}
    (own : written.map some = (turn.read.toList).map (aloneResponse beast server))
    (stops : ¬ Continues beast server turn) :
    SessionLaw beast server (turn :: turns) { reads := 1, written := written, ended := true } where
  written := by
    rw [own]
    cases read : turn.read <;> simp [read]
  continued := by simp
  ended_iff := by simpa using stops
  waiting := by simp

/-- The loop obeys the law from any state of its variables and on any server with
the same routes. -/
theorem sessionLoop_law (documented : Documented beast) (base : HttpServerPrivate)
    (acceptable : LeavesAcceptable beast base) (session : Session) (turns : List Turn)
    (same : server.handlers = base.handlers) :
    SessionLaw beast base turns (sessionLoop beast server session turns).2 := by
  induction turns generalizing server session with
  | nil => exact ⟨rfl, by simp [sessionLoop], by simp [sessionLoop], fun _ => rfl⟩
  | cons turn turns ih =>
    cases read : turn.read with
    | none =>
      rw [sessionLoop_unread _ _ _ read]
      refine sessionLaw_last (by simp [read]) ?_
      intro ⟨request, response, read', _⟩
      rw [read] at read'
      cases read'
    | some request =>
      obtain ⟨message, alone⟩ :=
        Option.isSome_iff_exists.mp (aloneResponse_isSome documented acceptable request)
      have prepared : beast.prepare_payload
          (server.processRequest request (freshResponse request)).2.2 = some message := by
        rw [← aloneResponse_eq, aloneResponse_congr same, alone]
      have continues_iff : Continues beast base turn ↔
          ¬ (turn.writeFails || beast.need_eof message) = true := by
        unfold Continues
        simp [read, alone]
      rw [sessionLoop_answered session turn turns read prepared]
      split
      · rename_i stops
        refine sessionLaw_last (by simp [read, alone]) ?_
        rw [continues_iff]
        exact not_not.mpr stops
      · rename_i goesOn
        have kept : (server.processRequest request (freshResponse request)).1.handlers =
            base.handlers := (HttpServerPrivate.processRequest_handlers _).trans same
        have rest := ih ⟨(server.processRequest request (freshResponse request)).2.1, message⟩ kept
        exact rest.cons read alone (continues_iff.mpr goesOn)

end Run

/-- The law of the sessions of a server. -/
structure SessionsObey (beast : Beast) (server : HttpServerPrivate) : Prop where
  law : ∀ turns, SessionLaw beast server turns (makeSession beast server turns).2
  /-- Nothing is read behind the end. -/
  final : ∀ turns more, (makeSession beast server turns).2.ended = true →
    (makeSession beast server (turns ++ more)).2 = (makeSession beast server turns).2
  unroutable : ∀ request, server.handlers.lookup request = none →
    ∃ message, aloneResponse beast server request = some message ∧
      message.result = Status.not_found
  threw : ∀ request tail handler what, server.handlers.lookup request = some (tail, handler) →
    (handler tail request (freshResponse request)).exit = .threw what →
      ∃ message, aloneResponse beast server request = some message ∧
        message.result = Status.internal_server_error

/-- Sessions of a server whose handlers leave acceptable responses obey the law. -/
theorem session_law (beast : Beast) (server : HttpServerPrivate) (documented : Documented beast)
    (acceptable : LeavesAcceptable beast server) : SessionsObey beast server where
  law := fun turns => sessionLoop_law documented server acceptable {} turns rfl
  final := by
    intro turns more ended
    exact congrArg Prod.snd (sessionLoop_ended {} turns more ended)
  unroutable := by
    intro request unrouted
    obtain ⟨message, alone⟩ :=
      Option.isSome_iff_exists.mp (aloneResponse_isSome documented acceptable request)
    refine ⟨message, alone, ?_⟩
    rw [aloneResponse_eq, HttpServerPrivate.processRequest_unrouted unrouted] at alone
    exact (documented.keeps _ _ alone).1
  threw := by
    intro request tail handler what routed exit
    obtain ⟨message, alone⟩ :=
      Option.isSome_iff_exists.mp (aloneResponse_isSome documented acceptable request)
    refine ⟨message, alone, ?_⟩
    rw [aloneResponse_eq, HttpServerPrivate.processRequest_routed routed, exit] at alone
    exact (documented.keeps _ _ alone).1

instance (status : Status) : Decidable (BodyForbidden status) :=
  inferInstanceAs (Decidable ((100 ≤ status ∧ status < 200) ∨ status = Status.no_content ∨
    status = 304))

/-- Beast's `prepare_payload`, as far as it sets the Content-Length. -/
def setLength (response : Response) : Option Response :=
  if BodyForbidden response.result then
    if response.body = [] then some response else none
  else some (response.set "Content-Length".toList (Nat.toDigits 10 response.body.length))

def lengthBeast : Beast where
  prepare_payload := setLength
  need_eof := fun response => !response.keep_alive

/-- A handler that greets the tail and fails without one. -/
def greet : RequestHandler := fun tail request response =>
  if tail = [] then ⟨request, { response with body := "half".toList }, .threw "empty".toList⟩
  else ⟨request, { response with body := "hello ".toList ++ tail }, .returned⟩

def greeter : HttpServerPrivate where
  handlers := (HttpHandlerStore.new []).add .unknown "greet".toList greet

theorem lengthBeast_documented : Documented lengthBeast where
  accepts := by
    intro response allowed
    change (setLength response).isSome
    unfold setLength
    split
    · rename_i forbidden
      rcases allowed with empty | permitted
      · simp [empty]
      · exact absurd forbidden permitted
    · rfl
  keeps := by
    intro response message prepared
    change setLength response = some message at prepared
    unfold setLength at prepared
    split at prepared
    · split at prepared
      · cases prepared
        exact ⟨rfl, rfl, rfl⟩
      · cases prepared
    · cases prepared
      exact ⟨rfl, rfl, rfl⟩

theorem greeter_acceptable : LeavesAcceptable lengthBeast greeter := by
  intro request tail handler routed returned
  obtain ⟨route, verb, registered⟩ := HttpHandlerStore.entry_of_lookup routed
  have same : handler = greet := by
    rw [greeter, HttpHandlerStore.entry_add, HttpHandlerStore.entry_new] at registered
    split at registered
    · exact (Option.some.inj registered).symm
    · cases registered
  subst same
  unfold greet at returned ⊢
  split at returned
  · cases returned
  · rename_i nonempty
    rw [if_neg nonempty]
    refine lengthBeast_documented.accepts _ (Or.inr ?_)
    change ¬ BodyForbidden Status.ok
    decide

theorem greeter_obeys : SessionsObey lengthBeast greeter :=
  session_law lengthBeast greeter lengthBeast_documented greeter_acceptable

end Restio.Guarantees.KeepAlive
