import Mathlib.Data.List.Forall2
import Restio.Guarantees.Exchanges

/-!
# Each response answers its own request

Handlers may be suspended, change what they share and depend on it as they like. Yet
in every run the responses of a connection belong to the requests read on it, one by
one: each is what the handler of its own request can come to, whatever is done to the
shared state meanwhile, or the server's own for a request that is not routed and for
an exception (`responses_own`). A session that waits for a handler waits for that of
the request read last, and one that ended without a response had one that could not
be prepared.
-/

set_option autoImplicit false

namespace Restio.Guarantees.OwnResponses
open Restio.Lib Restio.Source.Http Restio.Source.HandlerStore Restio.Source.HttpServer
open Restio.Source.Connections Restio.Guarantees.Exchanges

variable {σ : Type}

/-- A response that a request can be left with. -/
def MayLeave (routes : HttpHandlerStore (AsyncHandler σ)) (request : Request)
    (response : Response) : Prop :=
  let prepared := ({ request := request } : Session).prepareResponse.response
  match routes.lookup request with
  | none => response = { prepared with result := Status.not_found }
  | some (path, handler) =>
      ∃ run, (handler path request prepared).MayEnd run ∧ response = settled run

/-- A message that a request can be answered with. -/
def Answers (service : Service σ) (request : Request) (message : Response) : Prop :=
  ∃ response, MayLeave service.routes request response ∧
    service.beast.prepare_payload response = some message

/-- The messages of a connection, each with its own request. -/
def Answered (service : Service σ) (c : Connection σ) : Prop :=
  match c.phase with
  | .handling request rest =>
      (∃ front, c.requests = front ++ [request] ∧
        List.Forall₂ (Answers service) front c.messages) ∧
      ∀ response, rest.MayEnd response → MayLeave service.routes request response
  | .closed =>
      List.Forall₂ (Answers service) c.requests c.messages ∨
      ∃ front request response, c.requests = front ++ [request] ∧
        List.Forall₂ (Answers service) front c.messages ∧
        MayLeave service.routes request response ∧
        service.beast.prepare_payload response = none
  | _ => List.Forall₂ (Answers service) c.requests c.messages

section Requests
variable {routes : HttpHandlerStore (AsyncHandler σ)} {request : Request} {response : Response}

theorem mayEnd_caught {run : HandlerRun}
    (may : (caught run : Coroutine (Shared σ) Response).MayEnd response) :
    response = settled run := by
  unfold caught at may
  unfold settled
  cases ended : run.exit with
  | returned =>
    rw [ended] at may
    exact Coroutine.mayEnd_done may
  | threw what =>
    rw [ended] at may
    obtain ⟨-, later⟩ := Coroutine.mayEnd_access may
    exact Coroutine.mayEnd_done later

theorem mayLeave_of_processRequest (may : (processRequest routes request
    ({ request := request } : Session).prepareResponse.response).MayEnd response) :
    MayLeave routes request response := by
  unfold processRequest at may
  obtain ⟨-, may⟩ := Coroutine.mayEnd_access may
  unfold MayLeave
  cases looked : routes.lookup request with
  | none =>
    rw [looked] at may
    obtain ⟨-, later⟩ := Coroutine.mayEnd_access may
    exact Coroutine.mayEnd_done later
  | some found =>
    rw [looked] at may
    obtain ⟨run, came, later⟩ := Coroutine.mayEnd_bind may
    obtain ⟨-, later⟩ := Coroutine.mayEnd_access later
    exact ⟨run, Coroutine.mayEnd_within came, mayEnd_caught later⟩

end Requests

section Wakeups
variable {service : Service σ} {shared shared' : Shared σ} {c c' : Connection σ} {wakeup : Wakeup}

/-- What a resumption of `processRequest` leaves is the request's own. -/
theorem Answered.answer {request : Request}
    {outcome : Response ⊕ Coroutine (Shared σ) Response}
    (before : List.Forall₂ (Answers service) (c.rounds.filterMap Turn.read) c.written)
    (ended : ∀ response, outcome = .inl response → MayLeave service.routes request response)
    (left : ∀ rest, outcome = .inr rest →
      ∀ response, rest.MayEnd response → MayLeave service.routes request response) :
    Answered service (c.answer service.beast request outcome) := by
  cases outcome with
  | inr rest =>
    rw [Connection.answer_suspended]
    refine ⟨⟨c.rounds.filterMap Turn.read, rfl, ?_⟩, left rest rfl⟩
    simpa [Connection.messages, Phase.message] using before
  | inl response =>
    have own := ended response rfl
    cases prepared : service.beast.prepare_payload response with
    | none =>
      rw [Connection.answer_unprepared prepared]
      refine Or.inr ⟨c.rounds.filterMap Turn.read, request, response, ?_, ?_, own, prepared⟩
      · simp [Connection.requests, Phase.pending]
      · simpa [Connection.messages, Phase.message] using before
    | some message =>
      rw [Connection.answer_prepared prepared]
      have answered : List.Forall₂ (Answers service) [request] [message] :=
        .cons ⟨response, own, prepared⟩ .nil
      exact List.rel_append before answered

theorem Answered.wake (answered : Answered service c)
    (woken : c.wake service shared wakeup = some (shared', c')) : Answered service c' := by
  rcases Connection.wake_cases woken with ⟨rfl, reading, -, rfl⟩ |
    ⟨request, outcome, rfl, reading, ran, rfl⟩ | ⟨request, rest, outcome, -, handling, ran, rfl⟩ |
    ⟨request, message, fails, rfl, writing, -, rfl⟩
  · simp only [Answered, reading] at answered
    exact Or.inl (by simpa [Connection.requests, Connection.messages, Phase.pending,
      Phase.message, reading] using answered)
  · simp only [Answered, reading] at answered
    obtain ⟨ended, left⟩ := Coroutine.mayEnd_of_resume ran
    refine Answered.answer ?_
      (fun response same => mayLeave_of_processRequest (ended response same))
      (fun rest same response may => mayLeave_of_processRequest (left rest same response may))
    simpa [Connection.requests, Connection.messages, Phase.pending, Phase.message, reading]
      using answered
  · simp only [Answered, handling] at answered
    obtain ⟨⟨front, requests, before⟩, own⟩ := answered
    obtain ⟨ended, left⟩ := Coroutine.mayEnd_of_resume ran
    have same : c.rounds.filterMap Turn.read = front := by
      simpa [Connection.requests, Phase.pending, handling] using requests
    refine Answered.answer ?_ (fun response same => own response (ended response same))
      (fun rest same response may => own response (left rest same response may))
    rw [same]
    simpa [Connection.messages, Phase.message, handling] using before
  · simp only [Answered, writing] at answered
    have kept : List.Forall₂ (Answers service) (c.rounds.filterMap Turn.read ++ [request])
        (c.written ++ [message]) := by
      simpa [Connection.requests, Connection.messages, Phase.pending, Phase.message, writing]
        using answered
    cases stops : fails || service.beast.need_eof message with
    | true => exact Or.inl (by simpa [Connection.requests, Connection.messages, Phase.pending,
        Phase.message] using kept)
    | false => simpa [Answered, Connection.requests, Connection.messages, Phase.pending,
        Phase.message] using kept

end Wakeups

/-- In every run of every server, for all its connections. -/
theorem responses_own (service : Service σ) (app : σ) (events : List Event) (s : System σ)
    (reached : Reached service app events s) : ∀ c ∈ s.connections, Answered service c :=
  reached.connection_invariant .nil (fun _ _ _ _ _ answered woken => answered.wake woken)

/-- The first call is answered with both, and an unroutable request behind it. -/
theorem tallied_own :
    ∃ s, Reached tallyService 0 tallied s ∧
      s.connections.map (fun c => c.messages.map (fun m => (m.result, m.body))) =
        [[(200, "2".toList), (404, [])], []] ∧
      ∀ c ∈ s.connections, Answered tallyService c := by
  have ran : ((EventMachine.run (step tallyService) tallied (System.start 0)).map (fun s =>
      s.connections.map (fun c => c.messages.map (fun m => (m.result, m.body))))) =
        some [[(200, "2".toList), (404, [])], []] := by decide +kernel
  obtain ⟨s, reached, seen⟩ := Option.map_eq_some_iff.mp ran
  exact ⟨s, reached, seen, responses_own tallyService 0 tallied s reached⟩

end Restio.Guarantees.OwnResponses
