import Restio.Source.Connections

/-!
# Requests and responses of each connection

Whatever the handlers do, to their responses, to what they share or by waiting, and
however the sessions are interleaved: the requests that the server has begun are the
requests that its connections have read, each connection's in the order read, and a
connection is answered in turn. At most one of its requests is without a response: the
one it is busy with, or the last one of a connection that was closed because the
response left for this request could not be prepared (`exchanges_in_order`).

Which response a request gets is the matter of other modules.
-/

set_option autoImplicit false

namespace Restio.Guarantees.Exchanges
open Restio.Lib Restio.Source.Http Restio.Source.HandlerStore Restio.Source.HttpServer
open Restio.Source.Connections

variable {σ : Type}

/-- What belongs to one connection among what belongs to all. -/
def own {α : Type} (id : Nat) (history : List (Nat × α)) : List α :=
  (history.filter (fun entry => entry.1 = id)).map Prod.snd

/-- `processRequest` can leave this response for the request. -/
def ComesTo (service : Service σ) (request : Request) (response : Response) : Prop :=
  (processRequest service.routes request
    ({ request := request } : Session).prepareResponse.response).MayEnd response

/-- Without the handlers' part, the law of a session. -/
structure Orderly (service : Service σ) (c : Connection σ) : Prop where
  /-- Each request of a round that is over has a response, but for the last one of a
  session that was closed because the response left for it could not be prepared. -/
  answered : (c.rounds.filterMap Turn.read).length = c.written.length ∨
    (c.phase.isClosed = true ∧ ∃ front request response,
      c.rounds.filterMap Turn.read = front ++ [request] ∧ front.length = c.written.length ∧
        ComesTo service request response ∧ service.beast.prepare_payload response = none)
  /-- A suspended handler is that of its session's request. -/
  handled : ∀ request rest, c.phase = .handling request rest →
    ∀ response, rest.MayEnd response → ComesTo service request response
  /-- Nothing is read behind a failed read or write, -/
  settled : ∀ turn ∈ c.settled, turn.read.isSome = true ∧ turn.writeFails = false
  /-- nor behind a response that ends the connection. -/
  keepsAlive : ∀ message ∈ (if c.phase.isClosed then c.written.dropLast else c.written),
    service.beast.need_eof message = false

section Wakeups
variable {service : Service σ} {shared shared' : Shared σ} {c c' : Connection σ} {wakeup : Wakeup}

theorem own_append {α : Type} (id : Nat) (history more : List (Nat × α)) :
    own id (history ++ more) = own id history ++ own id more := by
  simp [own]

theorem own_map {α : Type} (id other : Nat) (entries : List α) :
    own id (entries.map (fun entry => (other, entry))) = if other = id then entries else [] := by
  unfold own
  by_cases same : other = id <;> simp [List.filter_map, Function.comp_def, same]

theorem requests_answer (beast : Beast) (c : Connection σ) (request : Request)
    (outcome : Response ⊕ Coroutine (Shared σ) Response) :
    (c.answer beast request outcome).requests = c.rounds.filterMap Turn.read ++ [request] := by
  cases outcome with
  | inr rest => rfl
  | inl response =>
    cases prepared : beast.prepare_payload response with
    | none =>
      rw [Connection.answer_unprepared prepared]
      simp [Connection.requests, Phase.pending]
    | some message =>
      rw [Connection.answer_prepared prepared]
      rfl

/-- A wakeup adds the request it brings. -/
theorem requests_wake (woken : c.wake service shared wakeup = some (shared', c')) :
    c'.requests = c.requests ++ wakeup.asked := by
  rcases Connection.wake_cases woken with ⟨rfl, reading, -, rfl⟩ |
    ⟨request, outcome, rfl, reading, -, rfl⟩ | ⟨request, rest, outcome, rfl, handling, -, rfl⟩ |
    ⟨request, message, fails, rfl, writing, -, rfl⟩
  · simp [Connection.requests, reading, Phase.pending, Wakeup.asked]
  · rw [requests_answer]
    simp [Connection.requests, reading, Phase.pending, Wakeup.asked]
  · rw [requests_answer]
    simp [Connection.requests, handling, Phase.pending, Wakeup.asked]
  · cases stops : fails || service.beast.need_eof message <;>
      simp [Connection.requests, writing, Phase.pending, Wakeup.asked]

/-- The law of a session that is not closed. -/
theorem orderly_of_open (lasts : c.phase.isClosed = false)
    (answered : (c.rounds.filterMap Turn.read).length = c.written.length)
    (handled : ∀ request rest, c.phase = .handling request rest →
      ∀ response, rest.MayEnd response → ComesTo service request response)
    (settled : ∀ turn ∈ c.rounds, turn.read.isSome = true ∧ turn.writeFails = false)
    (keepsAlive : ∀ message ∈ c.written, service.beast.need_eof message = false) :
    Orderly service c where
  answered := Or.inl answered
  handled := handled
  settled := by
    rw [Connection.settled, lasts]
    exact settled
  keepsAlive := by
    rw [lasts]
    exact keepsAlive

/-- An open session's law, as it stands. -/
theorem Orderly.open (orderly : Orderly service c) (lasts : c.phase.isClosed = false) :
    (c.rounds.filterMap Turn.read).length = c.written.length ∧
      (∀ turn ∈ c.rounds, turn.read.isSome = true ∧ turn.writeFails = false) ∧
      ∀ message ∈ c.written, service.beast.need_eof message = false := by
  obtain ⟨answered, -, settled, keepsAlive⟩ := orderly
  rw [lasts] at answered keepsAlive
  rw [Connection.settled, lasts] at settled
  exact ⟨answered.resolve_right (fun closed => by cases closed.1), settled, keepsAlive⟩

/-- A session whose request's coroutine has been resumed. -/
theorem Orderly.answer (orderly : Orderly service c) (lasts : c.phase.isClosed = false)
    {request : Request} {outcome : Response ⊕ Coroutine (Shared σ) Response}
    (ended : ∀ response, outcome = .inl response → ComesTo service request response)
    (left : ∀ rest, outcome = .inr rest →
      ∀ response, rest.MayEnd response → ComesTo service request response) :
    Orderly service (c.answer service.beast request outcome) := by
  obtain ⟨answered, settled, keepsAlive⟩ := orderly.open lasts
  cases outcome with
  | inr rest =>
    rw [Connection.answer_suspended]
    refine orderly_of_open rfl answered ?_ settled keepsAlive
    intro request' rest' same
    cases same
    exact left rest rfl
  | inl response =>
    cases prepared : service.beast.prepare_payload response with
    | none =>
      rw [Connection.answer_unprepared prepared]
      refine ⟨Or.inr ⟨rfl, c.rounds.filterMap Turn.read, request, response, ?_, answered,
        ended response rfl, prepared⟩, ?_, ?_, ?_⟩
      · simp
      · intro request' rest' same
        cases same
      · simpa [Connection.settled, Phase.isClosed] using settled
      · exact fun message member => keepsAlive message (List.dropLast_subset _ member)
    | some message =>
      rw [Connection.answer_prepared prepared]
      refine orderly_of_open rfl answered ?_ settled keepsAlive
      intro request' rest' same
      cases same

/-- Every resumption of a session keeps its law. -/
theorem Orderly.wake (orderly : Orderly service c)
    (woken : c.wake service shared wakeup = some (shared', c')) : Orderly service c' := by
  rcases Connection.wake_cases woken with ⟨-, reading, -, rfl⟩ |
    ⟨request, outcome, -, reading, ran, rfl⟩ | ⟨request, rest, outcome, -, handling, ran, rfl⟩ |
    ⟨request, message, fails, -, writing, -, rfl⟩
  · obtain ⟨answered, settled, keepsAlive⟩ := orderly.open (by rw [reading]; rfl)
    refine ⟨Or.inl ?_, ?_, ?_, ?_⟩
    · simpa using answered
    · intro request rest same
      cases same
    · simpa [Connection.settled, Phase.isClosed] using settled
    · exact fun message member => keepsAlive message (List.dropLast_subset _ member)
  · obtain ⟨ended, left⟩ := Coroutine.mayEnd_of_resume ran
    exact orderly.answer (by rw [reading]; rfl) ended left
  · obtain ⟨ended, left⟩ := Coroutine.mayEnd_of_resume ran
    have own := orderly.handled request rest handling
    exact orderly.answer (by rw [handling]; rfl) (fun response same => own _ (ended response same))
      (fun rest same response may => own _ (left rest same response may))
  · obtain ⟨answered, settled, keepsAlive⟩ := orderly.open (by rw [writing]; rfl)
    cases stops : fails || service.beast.need_eof message with
    | true =>
      refine ⟨Or.inl ?_, ?_, ?_, ?_⟩
      · simpa using answered
      · intro request' rest same
        cases same
      · simpa [Connection.settled, Phase.isClosed] using settled
      · simpa [Phase.isClosed] using keepsAlive
    | false =>
      obtain ⟨succeeds, lasting⟩ := Bool.or_eq_false_iff.mp stops
      refine orderly_of_open rfl (by simpa using answered) ?_ ?_ ?_
      · intro request' rest same
        cases same
      · intro turn member
        rcases List.mem_append.mp member with old | new
        · exact settled turn old
        · rw [List.mem_singleton.mp new]
          exact ⟨rfl, succeeds⟩
      · intro other member
        rcases List.mem_append.mp member with old | new
        · exact keepsAlive other old
        · rw [List.mem_singleton.mp new]
          exact lasting

end Wakeups

/-- The server's requests are those of its connections, in their order. -/
structure Accounted (s : System σ) : Prop where
  known : ∀ asked ∈ s.history, asked.1 < s.connections.length
  own : ∀ id c, s.connections[id]? = some c → own id s.history = c.requests

/-- A connection that is accepted has asked nothing yet. -/
theorem Accounted.accept {s : System σ} (accounted : Accounted s) :
    Accounted { s with connections := s.connections ++ [{}] } where
  known := by
    intro asked member
    rw [List.length_append]
    exact Nat.lt_of_lt_of_le (accounted.known asked member) (Nat.le_add_right _ _)
  own := by
    intro id c present
    by_cases old : id < s.connections.length
    · rw [List.getElem?_append_left old] at present
      exact accounted.own id c present
    · rw [List.getElem?_append_right (not_lt.mp old), List.getElem?_singleton] at present
      split at present
      · cases present
        have silent : s.history.filter (fun asked => asked.1 = id) = [] := by
          rw [List.filter_eq_nil_iff]
          intro asked member
          have below := accounted.known asked member
          simp only [decide_eq_true_eq]
          omega
        rw [Exchanges.own, silent]
        rfl
      · cases present

theorem Accounted.session {service : Service σ} {s : System σ} (accounted : Accounted s) {id : Nat}
    {wakeup : Wakeup} {c c' : Connection σ} {shared' : Shared σ}
    (present : s.connections[id]? = some c)
    (woken : c.wake service s.shared wakeup = some (shared', c')) :
    Accounted { s with
      shared := shared'
      connections := s.connections.set id c'
      history := s.history ++ wakeup.asked.map (fun request => (id, request)) } where
  known := by
    intro asked member
    rw [List.length_set]
    rcases List.mem_append.mp member with old | new
    · exact accounted.known asked old
    · obtain ⟨request, -, rfl⟩ := List.mem_map.mp new
      exact (List.getElem?_eq_some_iff.mp present).1
  own := by
    intro other c'' found
    rw [own_append, own_map]
    rw [List.getElem?_set] at found
    by_cases same : id = other
    · subst same
      rw [if_pos rfl, if_pos (List.getElem?_eq_some_iff.mp present).1] at found
      cases found
      rw [if_pos rfl, accounted.own id c present, requests_wake woken]
    · rw [if_neg same] at found
      rw [if_neg same, List.append_nil, accounted.own other c'' found]

theorem Accounted.step {service : Service σ} {event : Event} {s s' : System σ}
    (accounted : Accounted s) (stepped : step service event s = some s') : Accounted s' := by
  rcases step_sessions_cases stepped with ⟨_, _, rfl⟩ | ⟨-, rfl⟩ | ⟨_, rfl⟩ |
    ⟨id, wakeup, c, shared', c', -, -, present, woken, rfl⟩
  · exact ⟨accounted.known, accounted.own⟩
  · exact ⟨accounted.known, accounted.own⟩
  · exact ⟨accounted.accept.known, accounted.accept.own⟩
  · exact accounted.session present woken

/-- Every connection keeps the law of a session. -/
theorem orderly_of_reached {service : Service σ} {app : σ} {events : List Event} {s : System σ}
    (reached : Reached service app events s) : ∀ c ∈ s.connections, Orderly service c := by
  refine reached.connection_invariant ?_ (fun _ _ _ _ _ orderly woken => orderly.wake woken)
  refine orderly_of_open rfl rfl ?_ (by simp) (by simp)
  intro request rest same
  cases same

/-- In every run of every server, for all its connections. -/
theorem exchanges_in_order (service : Service σ) (app : σ) (events : List Event) (s : System σ)
    (reached : Reached service app events s) :
    Accounted s ∧ ∀ c ∈ s.connections, Orderly service c := by
  refine ⟨?_, orderly_of_reached reached⟩
  refine EventMachine.run_induction (motive := fun _ s => Accounted s) reached ⟨?_, ?_⟩ ?_
  · intro asked member
    cases member
  · intro id c present
    cases present
  · exact fun done s event s' accounted stepped => accounted.step stepped

/-- A handler that answers with the number of calls so far, read behind a suspension. -/
def tally : AsyncHandler Nat := fun _ request response =>
  .access Nat.succ (fun _ => .suspend (.access id (fun calls =>
    .done ⟨request, { response with body := Nat.toDigits 10 calls }, .returned⟩)))

def tallyService : Service Nat where
  beast := { prepare_payload := some, need_eof := fun response => !response.keep_alive }
  routes := (HttpHandlerStore.new []).add .unknown "tally".toList tally

/-- Two connections, the first with two requests, of which the second ends it. -/
def tallied : List Event :=
  [.accept .socket, .session 0 (.read (some { target := "/tally".toList })), .accept .socket,
    .session 1 (.read (some { target := "/tally".toList })), .session 0 .resumed, .takeStats,
    .session 0 (.wrote false),
    .session 0 (.read (some { target := "/none".toList, keep_alive := false })),
    .session 0 (.wrote false)]

theorem tallied_in_order :
    ∃ s, Reached tallyService 0 tallied s ∧ s.shared.app = 2 ∧
      Accounted s ∧ ∀ c ∈ s.connections, Orderly tallyService c := by
  have ran : ((EventMachine.run (step tallyService) tallied (System.start 0)).map
      (fun s => s.shared.app)) = some 2 := by decide +kernel
  obtain ⟨s, reached, counted⟩ := Option.map_eq_some_iff.mp ran
  exact ⟨s, reached, counted, exchanges_in_order tallyService 0 tallied s reached⟩

end Restio.Guarantees.Exchanges
