import Restio.Guarantees.Exchanges
import Restio.Source.StoreHistory

/-!
# Handlers that never wait are atomic

When no handler suspends, each request is answered in the step that reads it, and
the server is a sequential one: in every run what the handlers share is what they
make of the requests one after the other, in the order in which these were read,
and each connection has been given the responses of its own requests in that
sequence (`linearized`). The order in which responses are written, which the clients
determine, is without influence.
-/

set_option autoImplicit false

namespace Restio.Guarantees.Linearization
open Restio.Lib Restio.Source.Http Restio.Source.HandlerStore Restio.Source.HttpServer
open Restio.Source.Connections Restio.Guarantees.Exchanges

variable {σ : Type}

/-- No handler that lookup finds is ever suspended. -/
def AtOnce (routes : HttpHandlerStore (AsyncHandler σ)) : Prop :=
  ∀ request found, routes.lookup request = some found →
    ∀ response, (found.2 found.1 request response).Unsuspended

theorem processRequest_unsuspended {routes : HttpHandlerStore (AsyncHandler σ)}
    (atOnce : AtOnce routes) (request : Request) (response : Response) :
    (processRequest routes request response).Unsuspended := by
  refine Coroutine.unsuspended_access (fun counted => ?_)
  cases looked : routes.lookup request with
  | none => exact Coroutine.unsuspended_access (fun _ => Coroutine.unsuspended_done _)
  | some found =>
    refine ((atOnce request found looked response).within Shared.appPart).bind (fun run => ?_)
    refine Coroutine.unsuspended_access (fun recorded => ?_)
    unfold caught
    split
    · exact Coroutine.unsuspended_done _
    · exact Coroutine.unsuspended_access (fun _ => Coroutine.unsuspended_done _)

/-- `processRequest` on a prepared response, as it changes what the handlers share. -/
def respond {routes : HttpHandlerStore (AsyncHandler σ)} (atOnce : AtOnce routes)
    (request : Request) (app : σ) : σ × Response :=
  let session := ({ request := request } : Session).prepareResponse
  let ran := (processRequest routes session.request session.response).run
    (processRequest_unsuspended atOnce _ _) { app := app }
  (ran.1.app, ran.2)

/-- The requests of all connections one after the other. -/
def serve {routes : HttpHandlerStore (AsyncHandler σ)} (atOnce : AtOnce routes) :
    List (Nat × Request) → σ → σ × List (Nat × Response)
  | [], app => (app, [])
  | (id, request) :: asked, app =>
      let answered := respond atOnce request app
      let others := serve atOnce asked answered.1
      (others.1, (id, answered.2) :: others.2)

/-- The server as a sequential one. -/
structure Sequential (service : Service σ) (atOnce : AtOnce service.routes) (app : σ)
    (s : System σ) : Prop where
  shared : s.shared.app = (serve atOnce s.history app).1
  idle : ∀ c ∈ s.connections, ∀ request rest, c.phase ≠ .handling request rest
  messages : ∀ id c, s.connections[id]? = some c →
    c.messages = (own id (serve atOnce s.history app).2).filterMap service.beast.prepare_payload

section Requests
variable {routes : HttpHandlerStore (AsyncHandler σ)} (atOnce : AtOnce routes)

theorem serve_append (asked more : List (Nat × Request)) (app : σ) :
    serve atOnce (asked ++ more) app =
      ((serve atOnce more (serve atOnce asked app).1).1,
        (serve atOnce asked app).2 ++ (serve atOnce more (serve atOnce asked app).1).2) := by
  induction asked generalizing app with
  | nil => rfl
  | cons first asked ih =>
    rw [List.cons_append, serve, serve]
    simp only [ih, List.cons_append]

/-- What the first resumption shows, if it ends the request. -/
theorem respond_of_resume {request : Request} {app : σ} {shared : Shared σ} {response : Response}
    (ran : (processRequest routes request
      ({ request := request } : Session).prepareResponse.response).resume { app := app } =
        (shared, .inl response)) : respond atOnce request app = (shared.app, response) := by
  have whole := Coroutine.run_of_resume (processRequest_unsuspended atOnce request _) ran
  exact congrArg (fun ran : Shared σ × Response => (ran.1.app, ran.2)) whole

theorem respond_unrouted {request : Request} (unrouted : routes.lookup request = none) (app : σ) :
    respond atOnce request app =
      (app, { ({ request := request } : Session).prepareResponse.response with
        result := Status.not_found }) :=
  respond_of_resume atOnce (resume_processRequest_unrouted unrouted _ _)

/-- A request whose handler ends at once, whatever the counters are. -/
theorem resume_ended {request : Request} {found : Str × AsyncHandler σ}
    (routed : routes.lookup request = some found) {response : Response} (shared : Shared σ)
    {app : σ} {run : HandlerRun}
    (ran : (found.2 found.1 request response).resume shared.app = (app, .inl run)) :
    ∃ shared', (processRequest routes request response).resume shared =
      (shared', .inl (settled run)) ∧ shared'.app = app := by
  rw [resume_processRequest_routed routed, resume_awaitHandler, ran]
  obtain ⟨stats, left⟩ := resume_caught_settled run { shared with
    stats := { shared.stats with requests := shared.stats.requests + 1 }
    exits := shared.exits ++ [run.exit], app := app }
  exact ⟨_, left, rfl⟩

/-- A request whose handler returns. -/
theorem respond_returned {request : Request} {found : Str × AsyncHandler σ}
    (routed : routes.lookup request = some found) {app app' : σ} {run : HandlerRun}
    (ran : (found.2 found.1 request
      ({ request := request } : Session).prepareResponse.response).resume app = (app', .inl run))
    (returned : run.exit = .returned) : respond atOnce request app = (app', run.response) := by
  obtain ⟨shared, ended, same⟩ := resume_ended routed { app := app } ran
  rw [respond_of_resume atOnce ended, same, settled, returned]

/-- A request is answered when it is read, and the counters have no influence. -/
theorem resume_processRequest {request : Request} {shared shared' : Shared σ}
    {outcome : Response ⊕ Coroutine (Shared σ) Response}
    (ran : (processRequest routes request
      ({ request := request } : Session).prepareResponse.response).resume shared =
        (shared', outcome)) :
    shared'.app = (respond atOnce request shared.app).1 ∧
      outcome = .inl (respond atOnce request shared.app).2 := by
  cases looked : routes.lookup request with
  | none =>
    rw [resume_processRequest_unrouted looked] at ran
    cases ran
    rw [respond_unrouted atOnce looked]
    exact ⟨rfl, rfl⟩
  | some found =>
    have waits := atOnce request found looked
      ({ request := request } : Session).prepareResponse.response
    have came := Coroutine.resume_of_unsuspended waits shared.app
    obtain ⟨shared'', ended, same⟩ := resume_ended looked shared came
    obtain ⟨_, ended', same'⟩ := resume_ended looked { app := shared.app } came
    rw [respond_of_resume atOnce ended', same']
    obtain ⟨rfl, rfl⟩ := Prod.mk.inj (ran.symm.trans ended)
    exact ⟨same, rfl⟩

end Requests

section Runs
variable {service : Service σ} {shared shared' : Shared σ} {c c' : Connection σ} {wakeup : Wakeup}

theorem messages_answer (beast : Beast) (c : Connection σ) (request : Request)
    (response : Response) :
    (c.answer beast request (.inl response)).messages =
      c.written ++ (beast.prepare_payload response).toList := by
  cases prepared : beast.prepare_payload response with
  | none =>
    rw [Connection.answer_unprepared prepared]
    rfl
  | some message =>
    rw [Connection.answer_prepared prepared]
    rfl

/-- A session that is resumed serves the request it reads and does nothing else to
what the handlers share. -/
theorem serve_wake (atOnce : AtOnce service.routes)
    (idle : ∀ request rest, c.phase ≠ .handling request rest)
    (woken : c.wake service shared wakeup = some (shared', c')) (id : Nat) :
    let served := serve atOnce (wakeup.asked.map (fun request => (id, request))) shared.app
    shared'.app = served.1 ∧
      served.2 = (served.2.map Prod.snd).map (fun response => (id, response)) ∧
      c'.messages = c.messages ++
        (served.2.map Prod.snd).filterMap service.beast.prepare_payload ∧
      ∀ request rest, c'.phase ≠ .handling request rest := by
  rcases Connection.wake_cases woken with ⟨rfl, reading, rfl, rfl⟩ |
    ⟨request, outcome, rfl, reading, ran, rfl⟩ | ⟨request, rest, outcome, -, handling, -, -⟩ |
    ⟨request, message, fails, rfl, writing, rfl, rfl⟩
  · refine ⟨rfl, rfl, ?_, fun _ _ same => by cases same⟩
    simp [Connection.messages, Phase.message, reading, serve, Wakeup.asked]
  · obtain ⟨app, rfl⟩ := resume_processRequest atOnce ran
    refine ⟨app, rfl, ?_, fun request' rest handling => ?_⟩
    · rw [messages_answer, Connection.messages, reading]
      cases prepared : service.beast.prepare_payload (respond atOnce request shared.app).2 <;>
        simp [Phase.message, serve, Wakeup.asked, prepared]
    · cases (Connection.handling_of_answer handling).2
  · exact absurd handling (idle request rest)
  · refine ⟨rfl, rfl, ?_, ?_⟩
    · cases stops : fails || service.beast.need_eof message <;>
        simp [Connection.messages, Phase.message, writing, serve, Wakeup.asked]
    · intro request' rest same
      simp only at same
      split at same <;> cases same

theorem Sequential.session {app : σ} {s : System σ} {id : Nat} (atOnce : AtOnce service.routes)
    (sequential : Sequential service atOnce app s) (present : s.connections[id]? = some c)
    (woken : c.wake service s.shared wakeup = some (shared', c')) :
    Sequential service atOnce app { s with
      shared := shared'
      connections := s.connections.set id c'
      history := s.history ++ wakeup.asked.map (fun request => (id, request)) } := by
  obtain ⟨shared, idle, messages⟩ := sequential
  obtain ⟨app', mine, further, idle'⟩ :=
    serve_wake atOnce (idle c (List.mem_of_getElem? present)) woken id
  rw [shared] at app' mine further
  refine ⟨?_, ?_, ?_⟩
  · rw [serve_append]
    exact app'
  · intro other member
    rcases List.mem_or_eq_of_mem_set member with old | rfl
    · exact idle other old
    · exact idle'
  · intro other c'' found
    rw [serve_append, own_append, List.filterMap_append, mine, own_map]
    rw [List.getElem?_set] at found
    by_cases same : id = other
    · subst same
      rw [if_pos rfl, if_pos (List.getElem?_eq_some_iff.mp present).1] at found
      cases found
      rw [if_pos rfl, ← messages id c present]
      exact further
    · rw [if_neg same] at found
      rw [if_neg same, List.filterMap_nil, List.append_nil]
      exact messages other c'' found

/-- The responses are those of the requests, in their order. -/
theorem serve_ids {routes : HttpHandlerStore (AsyncHandler σ)} (atOnce : AtOnce routes)
    (asked : List (Nat × Request)) (app : σ) :
    (serve atOnce asked app).2.map Prod.fst = asked.map Prod.fst := by
  induction asked generalizing app with
  | nil => rfl
  | cons first asked ih => exact congrArg (List.cons first.1) (ih _)

theorem Sequential.accept {atOnce : AtOnce service.routes} {app : σ} {s : System σ}
    (sequential : Sequential service atOnce app s)
    (accounted : Accounted s) : Sequential service atOnce app { s with
      connections := s.connections ++ [{}] } := by
  obtain ⟨shared, idle, messages⟩ := sequential
  refine ⟨shared, ?_, ?_⟩
  · refine List.forall_mem_append.mpr ⟨idle, List.forall_mem_singleton.mpr ?_⟩
    intro request rest same
    cases same
  · intro id c present
    by_cases old : id < s.connections.length
    · rw [List.getElem?_append_left old] at present
      exact messages id c present
    · rw [List.getElem?_append_right (not_lt.mp old), List.getElem?_singleton] at present
      split at present
      · cases present
        have silent : own id (serve atOnce s.history app).2 = [] := by
          unfold own
          rw [List.map_eq_nil_iff, List.filter_eq_nil_iff]
          intro entry member
          have asked := List.mem_map_of_mem (f := Prod.fst) member
          rw [serve_ids] at asked
          obtain ⟨request, known, same⟩ := List.mem_map.mp asked
          have below := accounted.known request known
          simp only [decide_eq_true_eq]
          omega
        rw [silent]
        rfl
      · cases present

theorem Sequential.step {app : σ} {event : Event} {s s' : System σ}
    (atOnce : AtOnce service.routes) (sequential : Sequential service atOnce app s)
    (accounted : Accounted s) (stepped : step service event s = some s') :
    Sequential service atOnce app s' := by
  rcases step_sessions_cases stepped with ⟨_, _, rfl⟩ | ⟨-, rfl⟩ | ⟨_, rfl⟩ |
    ⟨id, wakeup, c, shared', c', -, -, present, woken, rfl⟩
  · exact ⟨sequential.shared, sequential.idle, sequential.messages⟩
  · exact ⟨sequential.shared, sequential.idle, sequential.messages⟩
  · have joined := sequential.accept accounted
    exact ⟨joined.shared, joined.idle, joined.messages⟩
  · exact sequential.session atOnce present woken

end Runs

theorem atOnce_of_registered {base_path : Str} {ops : List (Op (AsyncHandler σ))}
    (registered : ∀ verb path handler, Op.add verb path handler ∈ ops →
      ∀ tail request response, (handler tail request response).Unsuspended) :
    AtOnce (HttpHandlerStore.run base_path ops) := fun request found looked response =>
  HttpHandlerStore.lookup_run_registered registered looked found.1 request response

theorem sequential_of_reached {service : Service σ} (atOnce : AtOnce service.routes) {app : σ}
    {events : List Event} {s : System σ} (reached : Reached service app events s) :
    Sequential service atOnce app s := by
  have both : Accounted s ∧ Sequential service atOnce app s := by
    refine EventMachine.run_induction
      (motive := fun _ s => Accounted s ∧ Sequential service atOnce app s) reached ⟨⟨?_, ?_⟩, ?_⟩ ?_
    · exact (fun _ member => by cases member)
    · exact (fun _ _ present => by cases present)
    · exact ⟨rfl, (fun _ member => by cases member), (fun _ _ present => by cases present)⟩
    · intro done s event s' held stepped
      exact ⟨held.1.step stepped, held.2.step atOnce held.1 stepped⟩
  exact both.2

/-- In every run of a server whose handlers never wait. -/
theorem linearized (service : Service σ) (atOnce : AtOnce service.routes) (app : σ)
    (events : List Event) (s : System σ) (reached : Reached service app events s) :
    Sequential service atOnce app s :=
  sequential_of_reached atOnce reached

/-- A handler that draws the next number. -/
def draw : AsyncHandler Nat := fun _ request response =>
  .access Nat.succ (fun drawn =>
    .done ⟨request, { response with body := Nat.toDigits 10 drawn }, .returned⟩)

def drawService : Service Nat where
  beast := { prepare_payload := some, need_eof := fun response => !response.keep_alive }
  routes := HttpHandlerStore.run [] [.add .unknown "draw".toList draw]

theorem draw_atOnce : AtOnce drawService.routes := by
  refine atOnce_of_registered (fun verb path handler member => ?_)
  cases List.mem_singleton.mp member
  exact fun _ _ _ => Coroutine.unsuspended_access (fun _ => Coroutine.unsuspended_done _)

/-- The connection that asks first is the last to write its response. -/
def crossing : List Event :=
  [.accept .socket, .accept .socket, .session 0 (.read (some { target := "/draw".toList })),
    .session 1 (.read (some { target := "/draw".toList })), .session 1 (.wrote false),
    .session 1 (.read (some { target := "/draw".toList })), .session 1 (.wrote false),
    .session 0 (.wrote false)]

theorem crossing_linearized :
    ∃ s, Reached drawService 0 crossing s ∧ s.shared.app = 3 ∧
      Sequential drawService draw_atOnce 0 s := by
  have ran : ((EventMachine.run (step drawService) crossing (System.start 0)).map
      (fun s => s.shared.app)) = some 3 := by decide +kernel
  obtain ⟨s, reached, drawn⟩ := Option.map_eq_some_iff.mp ran
  exact ⟨s, reached, drawn, linearized drawService draw_atOnce 0 crossing s reached⟩

end Restio.Guarantees.Linearization
