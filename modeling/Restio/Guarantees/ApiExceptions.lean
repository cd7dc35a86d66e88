import Restio.Guarantees.CountedRequests
import Restio.Source.AsyncRest

/-!
# Failures of API methods are not counted

`onRequest` answers an exception of a method's handler itself, also one that is
thrown behind any number of suspensions. So however many API methods fail, however
the sessions are interleaved and whenever `takeStats` is called, the exceptions
counted over all snapshots are at most the requests that were routed to raw handlers
(`only_raw_failures_counted`); on a server without raw routes there are none.
-/

set_option autoImplicit false

namespace Restio.Guarantees.ApiExceptions
open Restio.Lib Restio.Source.Http Restio.Source.ApiMapper Restio.Source.HandlerStore
open Restio.Source.HttpServer Restio.Source.RestHandler Restio.Source.Connections
open Restio.Source.MixedServer Restio.Source.AsyncRest
open Restio.Guarantees.CountedRequests (summed countP_set_add)

variable {σ J H R : Type}

/-- A handler that is awaited for an API's request lets no exception out. -/
def Harmless (server : Server J H R) (request : Request) (rest : Coroutine (Shared σ) Response) :
    Prop :=
  ∃ task, rest = awaitHandler task ∧
    (server.isRaw request = false → task.Ends (fun run => run.exit = .returned))

section Wakeups
variable {server : Server J H R} {shared shared' : Shared σ} {request : Request}
  {outcome : Response ⊕ Coroutine (Shared σ) Response}

/-- A resumed handler pays for the exception it throws by ending. -/
theorem resume_harmless {rest : Coroutine (Shared σ) Response}
    (harmless : Harmless server request rest) (ran : rest.resume shared = (shared', outcome)) :
    shared'.stats.exceptions.toNat + (server.isRaw request && outcome.isRight).toNat ≤
        shared.stats.exceptions.toNat + (server.isRaw request).toNat ∧
      ∀ rest', outcome = .inr rest' → Harmless server request rest' := by
  obtain ⟨task, rfl, quiet⟩ := harmless
  rw [resume_awaitHandler] at ran
  rcases came : task.resume shared.app with ⟨app, run | left⟩
  · rw [came] at ran
    change (caught run).resume
      { shared with exits := shared.exits ++ [run.exit], app := app } = _ at ran
    unfold caught at ran
    split at ran
    · obtain ⟨rfl, rfl⟩ := Prod.mk.inj ran
      exact ⟨by simp, fun rest' same => by cases same⟩
    · rename_i what threw
      have raw : server.isRaw request = true := by
        by_contra api
        have ends := (quiet (Bool.eq_false_iff.mpr api)).resume shared.app
        rw [came] at ends
        cases threw.symm.trans ends
      obtain ⟨rfl, rfl⟩ := Prod.mk.inj ran
      refine ⟨?_, fun rest' same => by cases same⟩
      rw [raw]
      have wraps := Nat.mod_le (shared.stats.exceptions.toNat + 1) (2 ^ 32)
      simpa [Shared.count, UInt32.toNat_add] using wraps
  · rw [came] at ran
    obtain ⟨rfl, rfl⟩ := Prod.mk.inj ran
    refine ⟨by simp, fun rest' same => ⟨left, (Sum.inr.inj same).symm, fun api => ?_⟩⟩
    have ends := (quiet api).resume shared.app
    rw [came] at ends
    exact ends

/-- A request that is begun. -/
theorem processRequest_harmless {host : Host σ J} {base_path : Str}
    {registrations : List (Registration J (MethodHandler σ) (AsyncHandler σ))}
    {server : Server J (MethodHandler σ) (AsyncHandler σ)}
    (registered : Server.registerAll base_path registrations = .ok server) {response : Response}
    (ran : (processRequest (host.service base_path registrations server.apis).routes request
      response).resume shared = (shared', outcome)) :
    shared'.stats.exceptions.toNat + (server.isRaw request && outcome.isRight).toNat ≤
        shared.stats.exceptions.toNat + (server.isRaw request).toNat ∧
      ∀ rest, outcome = .inr rest → Harmless server request rest := by
  have routed := host.lookup_service registered server.apis request
  cases looked : server.handlers.lookup request with
  | none =>
    rw [looked] at routed
    rw [resume_processRequest_unrouted routed] at ran
    obtain ⟨rfl, rfl⟩ := Prod.mk.inj ran
    exact ⟨by simp, fun rest same => by cases same⟩
  | some found =>
    obtain ⟨tail, endpoint⟩ := found
    rw [looked] at routed
    rw [resume_processRequest_routed routed] at ran
    have harmless : Harmless server request (awaitHandler
        (Endpoint.handler host.dump host.abort server.apis endpoint tail request response)) := by
      refine ⟨_, rfl, fun api => ?_⟩
      cases endpoint with
      | raw handler =>
        rw [Server.isRaw, looked] at api
        cases api
      | api closure => exact onRequest_ends host.dump host.abort server.apis closure.version _ _ _
    have bounded := resume_harmless harmless ran
    exact bounded

end Wakeups

section Runs
variable {host : Host σ J} {base_path : Str}
  {registrations : List (Registration J (MethodHandler σ) (AsyncHandler σ))}
  {server : Server J (MethodHandler σ) (AsyncHandler σ)} {c c' : Connection σ}

theorem isRaw_answer (server : Server J H R) (beast : Beast) (c : Connection σ)
    (request : Request) (outcome : Response ⊕ Coroutine (Shared σ) Response) :
    (c.answer beast request outcome).phase.isRaw server =
      (server.isRaw request && outcome.isRight) := by
  cases outcome with
  | inr rest =>
    rw [Connection.answer_suspended, Sum.isRight_inr, Bool.and_true]
    rfl
  | inl response =>
    rw [Sum.isRight_inl, Bool.and_false]
    rcases Connection.phase_answer response with closed | ⟨message, writing⟩
    · rw [closed]
      rfl
    · rw [writing]
      rfl

/-- What every session waits for is harmless. -/
def Quiet (server : Server J H R) (c : Connection σ) : Prop :=
  ∀ request rest, c.phase = .handling request rest → Harmless server request rest

theorem quiet_answer {beast : Beast} {request : Request}
    {outcome : Response ⊕ Coroutine (Shared σ) Response}
    (quiet : ∀ rest, outcome = .inr rest → Harmless server request rest) :
    Quiet server (c.answer beast request outcome) := by
  intro request' rest handling
  obtain ⟨rfl, suspended⟩ := Connection.handling_of_answer handling
  exact quiet rest suspended

/-- Every resumption of a session pays for the exceptions that it counts. -/
theorem wake_bounded (registered : Server.registerAll base_path registrations = .ok server)
    (quiet : Quiet server c) {shared shared' : Shared σ} {wakeup : Wakeup}
    (woken : c.wake (host.service base_path registrations server.apis) shared wakeup =
      some (shared', c')) :
    shared'.stats.exceptions.toNat + (c'.phase.isRaw server).toNat ≤
        shared.stats.exceptions.toNat + (c.phase.isRaw server).toNat +
          wakeup.asked.countP server.isRaw ∧
      Quiet server c' := by
  rcases Connection.wake_cases woken with ⟨rfl, reading, rfl, rfl⟩ |
    ⟨request, outcome, rfl, reading, ran, rfl⟩ | ⟨request, rest, outcome, rfl, handling, ran, rfl⟩ |
    ⟨request, message, fails, rfl, writing, rfl, rfl⟩
  · refine ⟨?_, fun _ _ same => by cases same⟩
    simp only [Phase.isRaw, Bool.toNat_false]
    omega
  · obtain ⟨bounded, quiet'⟩ := processRequest_harmless registered ran
    refine ⟨?_, quiet_answer quiet'⟩
    have single : [request].countP server.isRaw = (server.isRaw request).toNat := by
      cases known : server.isRaw request <;> simp [known]
    rw [isRaw_answer, Wakeup.asked, single]
    omega
  · obtain ⟨bounded, quiet'⟩ := resume_harmless (quiet request rest handling) ran
    refine ⟨?_, quiet_answer quiet'⟩
    rw [isRaw_answer, handling]
    exact Nat.le_add_right_of_le bounded
  · refine ⟨?_, fun request' rest' same => ?_⟩
    · simp only
      split <;> simp only [Phase.isRaw, Bool.toNat_false] <;> omega
    · simp only at same
      split at same <;> cases same

/-- The account of raw handlers' requests. -/
structure Paid (server : Server J H R) (s : System σ) : Prop where
  bounded : summed Stats.exceptions s + s.connections.countP (fun c => c.phase.isRaw server) ≤
    s.history.countP (fun asked => server.isRaw asked.2)
  quiet : ∀ c ∈ s.connections, Quiet server c

theorem Paid.accept {s : System σ} (paid : Paid server s) (listener : Listener) :
    Paid server { s with connections := s.connections ++ [{}], listener := listener } := by
  obtain ⟨bounded, quiet⟩ := paid
  refine ⟨?_, List.forall_mem_append.mpr ⟨quiet, List.forall_mem_singleton.mpr ?_⟩⟩
  · rw [List.countP_append]
    exact bounded
  · intro request rest same
    cases same

theorem Paid.takeStats {s : System σ} (paid : Paid server s) :
    Paid server { s with
      shared := { s.shared with stats := {} }
      snapshots := s.snapshots ++ [s.shared.stats] } := by
  refine ⟨?_, paid.quiet⟩
  have bounded := paid.bounded
  simpa [summed] using bounded

theorem Paid.session (registered : Server.registerAll base_path registrations = .ok server)
    {s : System σ} (paid : Paid server s) {id : Nat} {wakeup : Wakeup} {shared' : Shared σ}
    (present : s.connections[id]? = some c)
    (woken : c.wake (host.service base_path registrations server.apis) s.shared wakeup =
      some (shared', c')) :
    Paid server { s with
      shared := shared'
      connections := s.connections.set id c'
      history := s.history ++ wakeup.asked.map (fun request => (id, request)) } := by
  obtain ⟨bounded, quiet⟩ := paid
  obtain ⟨pays, quiet'⟩ := wake_bounded registered (quiet c (List.mem_of_getElem? present)) woken
  refine ⟨?_, ?_⟩
  · have asked : (wakeup.asked.map (fun request => (id, request))).countP
        (fun asked => server.isRaw asked.2) = wakeup.asked.countP server.isRaw := by
      rw [List.countP_map]
      rfl
    have replaced := countP_set_add (fun c => c.phase.isRaw server) present c'
    rw [List.countP_append, asked]
    unfold summed at bounded ⊢
    simp only at replaced ⊢
    omega
  · intro other belongs
    rcases List.mem_or_eq_of_mem_set belongs with old | rfl
    · exact quiet other old
    · exact quiet'

end Runs

/-- In every run of a server with any registrations: of all the requests, only those
routed to raw handlers can count as exceptions. -/
theorem only_raw_failures_counted (host : Host σ J) (base_path : Str)
    (registrations : List (Registration J (MethodHandler σ) (AsyncHandler σ)))
    (server : Server J (MethodHandler σ) (AsyncHandler σ))
    (registered : Server.registerAll base_path registrations = .ok server) (app : σ)
    (events : List Event) (s : System σ)
    (reached : Reached (host.service base_path registrations server.apis) app events s) :
    summed Stats.exceptions s ≤ s.history.countP (fun asked => server.isRaw asked.2) := by
  have paid : Paid server s := by
    refine EventMachine.run_induction (motive := fun _ s => Paid server s) reached
      ⟨le_rfl, fun _ member => by cases member⟩ ?_
    intro done s event s' paid stepped
    rcases step_sessions_cases stepped with ⟨_, _, rfl⟩ | ⟨-, rfl⟩ | ⟨listener, rfl⟩ |
      ⟨id, wakeup, c, shared', c', -, -, present, woken, rfl⟩
    · exact ⟨paid.bounded, paid.quiet⟩
    · exact paid.takeStats
    · exact paid.accept listener
    · exact paid.session registered present woken
  exact (Nat.le_add_right _ _).trans paid.bounded

/-- A method that fails behind a suspension. -/
def failingMethod : MethodHandler Unit := fun request response _ =>
  .suspend (.done ⟨request, response, .threw "method".toList⟩)

def failingRoute : AsyncHandler Unit := fun _ request response =>
  .done ⟨request, response, .threw "route".toList⟩

def failingRegistrations : List (Registration Unit (MethodHandler Unit) (AsyncHandler Unit)) :=
  [.route .unknown "raw".toList failingRoute,
    .registerAPI
      { version := 1, methods := [⟨.get, "item".toList, [], (), (), [], failingMethod⟩] }]

def failingHost : Host Unit Unit where
  beast := { prepare_payload := some, need_eof := fun _ => false }
  dump := fun _ => []
  abort := id
  running := fun _ => true

/-- Both handlers fail; one exception is counted. -/
def bothFail : List Event :=
  [.accept .socket,
    .session 0 (.read (some { method := .get, target := "/api/v1/item".toList })),
    .session 0 .resumed, .session 0 (.wrote false),
    .session 0 (.read (some { method := .get, target := "/raw".toList })), .takeStats]

def failingServer : Server Unit (MethodHandler Unit) (AsyncHandler Unit) :=
  (Server.registerAll [] failingRegistrations).toOption.getD (Server.new [])

theorem failingServer_registered :
    Server.registerAll [] failingRegistrations = .ok failingServer := by
  have succeeds : (Server.registerAll [] failingRegistrations).toOption.isSome = true := by
    decide +kernel
  unfold failingServer
  cases registered : Server.registerAll [] failingRegistrations with
  | error fault =>
    rw [registered] at succeeds
    cases succeeds
  | ok server => rfl

theorem bothFail_counted :
    ∃ s, Reached (failingHost.service [] failingRegistrations failingServer.apis) () bothFail s ∧
      s.snapshots = [{ requests := 2, exceptions := 1 }] ∧
      summed Stats.exceptions s ≤ s.history.countP (fun asked => failingServer.isRaw asked.2) := by
  have ran : ((EventMachine.run (step (failingHost.service [] failingRegistrations
      failingServer.apis)) bothFail (System.start ())).map System.snapshots) =
        some [{ requests := 2, exceptions := 1 }] := by decide +kernel
  obtain ⟨s, reached, taken⟩ := Option.map_eq_some_iff.mp ran
  exact ⟨s, reached, taken, only_raw_failures_counted failingHost [] failingRegistrations
    failingServer failingServer_registered () bothFail s reached⟩

end Restio.Guarantees.ApiExceptions
