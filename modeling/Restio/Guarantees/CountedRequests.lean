import Restio.Guarantees.Statistics
import Restio.Source.Connections
import Restio.Source.StoreHistory

/-!
# The server's runs as interleaved requests

The interleavings of requests that `Statistics` counts are not only allowed by the
server, they are what it does: every run of `listen`, of any number of sessions and
of their suspended handlers is simulated by steps of `Interleaving`, an event by
none, one or two of them (`runs_counted`). So the counters count the requests that
the connections have read, the unroutable ones among them, and the handlers that
threw; what is missing in the last is being handled.
-/

set_option autoImplicit false

namespace Restio.Guarantees.CountedRequests
open Restio.Lib Restio.Source.Http Restio.Source.HandlerStore Restio.Source.HttpServer
open Restio.Source.Interleaving Restio.Source.Connections
open Restio.Guarantees.Statistics (Conserved accounted_of_reachable)

variable {σ : Type}

/-- A handler for routes whose handlers are left open. -/
def standIn : RequestHandler := fun _ request response => ⟨request, response, .returned⟩

/-- The same routes. -/
def outline (base_path : Str) (ops : List (Op (AsyncHandler σ))) :
    HttpHandlerStore RequestHandler :=
  HttpHandlerStore.run base_path (ops.map (Op.map (fun _ => standIn)))

def isUnroutable (routes : HttpHandlerStore (AsyncHandler σ)) (request : Request) : Bool :=
  (routes.lookup request).isNone

def hasThrown : Exit → Bool
  | .returned => false
  | .threw _ => true

/-- A session that is handling a request waits for its handler and nothing else. -/
def Awaiting (c : Connection σ) : Prop :=
  ∀ request rest, c.phase = .handling request rest → ∃ task, rest = awaitHandler task

/-- The interleaving shows the server's counters, and its requests by number. -/
structure Mirrors (routes : HttpHandlerStore (AsyncHandler σ))
    (handlers : HttpHandlerStore RequestHandler) (s : System σ) (w : World) : Prop where
  handlers : w.server.handlers = handlers
  stats : w.server.stats = s.shared.stats
  snapshots : w.snapshots = s.snapshots.reverse
  started : w.started = s.history.length
  unroutable : w.unroutable.length = s.history.countP (fun asked => isUnroutable routes asked.2)
  inFlight : w.inFlight.length = s.connections.countP (fun c => c.phase.isHandling)
  threw : w.threw.length = s.shared.exits.countP hasThrown
  returned : w.returned.length = s.shared.exits.countP (fun exit => !hasThrown exit)
  awaiting : ∀ c ∈ s.connections, Awaiting c

/-- A counter summed over the snapshots taken and the counters as they are. -/
def summed (counter : Stats → UInt32) (s : System σ) : Nat :=
  (s.snapshots.map (fun snapshot => (counter snapshot).toNat)).sum +
    (counter s.shared.stats).toNat

/-- The counters in terms of what the connections have read and of how their handlers
have ended. -/
structure Counted (routes : HttpHandlerStore (AsyncHandler σ)) (s : System σ) : Prop where
  requests : summed Stats.requests s ≡ s.history.length [MOD 2 ^ 32]
  unknown : summed Stats.unknown_requests s ≡
    s.history.countP (fun asked => isUnroutable routes asked.2) [MOD 2 ^ 32]
  exceptions : summed Stats.exceptions s ≡ s.shared.exits.countP hasThrown [MOD 2 ^ 32]
  /-- Each request is unroutable, or its handler has ended or is awaited. -/
  handled : s.history.countP (fun asked => isUnroutable routes asked.2) + s.shared.exits.length +
    s.connections.countP (fun c => c.phase.isHandling) = s.history.length

/-- What a resumption of a session does to the requests. -/
structure Moves (w w' : World) (shared shared' : Shared σ) (started unroutable before after : Nat) :
    Prop where
  steps : Relation.ReflTransGen Step w w'
  handlers : w'.server.handlers = w.server.handlers
  stats : w'.server.stats = shared'.stats
  snapshots : w'.snapshots = w.snapshots
  started : w'.started = w.started + started
  unroutable : w'.unroutable.length = w.unroutable.length + unroutable
  inFlight : w'.inFlight.length + before = w.inFlight.length + after
  threw : w'.threw.length + shared.exits.countP hasThrown =
    w.threw.length + shared'.exits.countP hasThrown
  returned : w'.returned.length + shared.exits.countP (fun exit => !hasThrown exit) =
    w.returned.length + shared'.exits.countP (fun exit => !hasThrown exit)

theorem Moves.refl {w : World} {shared shared' : Shared σ} (stats : w.server.stats = shared'.stats)
    (exits : shared'.exits = shared.exits) (count : Nat) :
    Moves w w shared shared' 0 0 count count :=
  ⟨.refl, rfl, stats, rfl, rfl, rfl, rfl, by rw [exits], by rw [exits]⟩

theorem Moves.trans {w between w' : World} {shared middle shared' : Shared σ}
    {started unroutable before passing after : Nat}
    (first : Moves w between shared middle started unroutable before passing)
    (second : Moves between w' middle shared' 0 0 passing after) :
    Moves w w' shared shared' started unroutable before after where
  steps := first.steps.trans second.steps
  handlers := second.handlers.trans first.handlers
  stats := second.stats
  snapshots := second.snapshots.trans first.snapshots
  started := second.started.trans first.started
  unroutable := second.unroutable.trans first.unroutable
  inFlight := by
    have := first.inFlight
    have := second.inFlight
    omega
  threw := by
    have := first.threw
    have := second.threw
    omega
  returned := by
    have := first.returned
    have := second.returned
    omega

/-- One element replaced. -/
theorem countP_set_add {α : Type} (p : α → Bool) {elements : List α} {n : Nat} {x : α}
    (present : elements[n]? = some x) (y : α) :
    (elements.set n y).countP p + (p x).toNat = elements.countP p + (p y).toNat := by
  obtain ⟨inside, same⟩ := List.getElem?_eq_some_iff.mp present
  have among : (p x).toNat ≤ elements.countP p := by
    cases counted : p x with
    | false => exact Nat.zero_le _
    | true => exact List.countP_pos_iff.mpr ⟨x, List.mem_of_getElem? present, counted⟩
  rw [List.countP_set inside, same]
  cases before : p x <;> cases after : p y <;>
    simp only [before, Bool.toNat_true, Bool.toNat_false] at among ⊢ <;> simp <;> omega

section Wakeups
variable {service : Service σ} {shared shared' : Shared σ} {c c' : Connection σ} {wakeup : Wakeup}
  {w : World}

/-- A handler that ends. -/
theorem finish_moves (stats : w.server.stats = shared.stats) {id : Nat} (running : id ∈ w.inFlight)
    (run : HandlerRun) (app : σ) :
    ∃ w', Moves w w' shared
      ((caught run).resume { shared with exits := shared.exits ++ [run.exit], app := app }).1
      0 0 1 0 := by
  have fewer : (w.inFlight.erase id).length + 1 = w.inFlight.length := by
    rw [List.length_erase_of_mem running]
    exact Nat.sub_add_cancel (List.length_pos_of_mem running)
  have same : w.server.stats = ({ shared with
      exits := shared.exits ++ [run.exit], app := app } : Shared σ).stats := stats
  rw [resume_caught same]
  cases ended : run.exit with
  | returned =>
    refine ⟨_, .single (.return_ w id running run.response), rfl, rfl, rfl, rfl, rfl, fewer, ?_, ?_⟩
    · simp [hasThrown]
    · simp [hasThrown]
      omega
  | threw what =>
    refine ⟨_, .single (.throw_ w id running what run.response), rfl, rfl, rfl, rfl, rfl, fewer,
      ?_, ?_⟩
    · simp [hasThrown]
      omega
    · simp [hasThrown]

/-- A resumed handler waits on, or it ends. -/
theorem awaitHandler_moves (stats : w.server.stats = shared.stats) (busy : w.inFlight ≠ [])
    {task : Coroutine σ HandlerRun} {outcome : Response ⊕ Coroutine (Shared σ) Response}
    (ran : (awaitHandler task).resume shared = (shared', outcome)) :
    (∃ w', Moves w w' shared shared' 0 0 1 outcome.isRight.toNat) ∧
      ∀ rest, outcome = .inr rest → ∃ task', rest = awaitHandler task' := by
  rw [resume_awaitHandler] at ran
  obtain ⟨id, running⟩ := List.exists_mem_of_ne_nil _ busy
  rcases came : task.resume shared.app with ⟨app, run | rest⟩
  · rw [came] at ran
    have moved := finish_moves stats running run app
    have same : w.server.stats = ({ shared with
        exits := shared.exits ++ [run.exit], app := app } : Shared σ).stats := stats
    have ended := resume_caught same run
    change (caught run).resume _ = (shared', outcome) at ran
    rw [ran] at moved ended
    obtain ⟨-, rfl⟩ := Prod.mk.inj ended
    exact ⟨moved, fun rest same => by cases same⟩
  · rw [came] at ran
    obtain ⟨rfl, rfl⟩ := Prod.mk.inj ran
    have same : w.server.stats = ({ shared with app := app } : Shared σ).stats := stats
    refine ⟨⟨w, .refl same ?_ 1⟩, fun rest' left => ⟨rest, (Sum.inr.inj left).symm⟩⟩
    rfl

/-- A request that is begun is counted, looked up, and its handler awaited. -/
theorem processRequest_moves
    (alike : ∀ request,
      (w.server.handlers.lookup request).isNone = isUnroutable service.routes request)
    (stats : w.server.stats = shared.stats) {request : Request} {response : Response}
    {outcome : Response ⊕ Coroutine (Shared σ) Response}
    (ran : (processRequest service.routes request response).resume shared = (shared', outcome)) :
    (∃ w', Moves w w' shared shared' 1 (isUnroutable service.routes request).toNat 0
        outcome.isRight.toNat) ∧
      ∀ rest, outcome = .inr rest → ∃ task, rest = awaitHandler task := by
  have unseen := alike request
  unfold isUnroutable at unseen ⊢
  cases looked : service.routes.lookup request with
  | none =>
    rw [resume_processRequest_unrouted looked] at ran
    cases ran
    rw [looked, Option.isNone_none, Option.isNone_iff_eq_none] at unseen
    refine ⟨⟨_, .single (.unrouted w request response _ _
      (HttpServerPrivate.startRequest_unrouted unseen response)), rfl, ?_, rfl, rfl, rfl, rfl, rfl,
      rfl⟩, fun rest same => by cases same⟩
    simp only [stats]
  | some found =>
    rw [resume_processRequest_routed looked] at ran
    rw [looked, Option.isNone_some] at unseen
    obtain ⟨found', known⟩ := Option.isSome_iff_exists.mp (Option.isNone_eq_false_iff.mp unseen)
    have counted :=
      congrArg (fun stats : Stats => { stats with requests := stats.requests + 1 }) stats
    have begun : Moves w _ shared
        { shared with stats := { shared.stats with requests := shared.stats.requests + 1 } }
        1 0 0 1 :=
      ⟨.single (.routed w request response _ found'
        (HttpServerPrivate.startRequest_routed known response)), rfl, counted, rfl, rfl, rfl, rfl,
        rfl, rfl⟩
    obtain ⟨⟨w', moves⟩, awaiting⟩ :=
      awaitHandler_moves begun.stats (List.cons_ne_nil _ _) ran
    exact ⟨⟨w', begun.trans moves⟩, awaiting⟩

theorem isHandling_answer (beast : Beast) (c : Connection σ) (request : Request)
    (outcome : Response ⊕ Coroutine (Shared σ) Response) :
    (c.answer beast request outcome).phase.isHandling = outcome.isRight := by
  cases outcome with
  | inr rest => rfl
  | inl response =>
    rcases Connection.phase_answer response with closed | ⟨message, writing⟩
    · rw [closed]
      rfl
    · rw [writing]
      rfl

theorem awaiting_answer {beast : Beast} {request : Request}
    {outcome : Response ⊕ Coroutine (Shared σ) Response}
    (awaiting : ∀ rest, outcome = .inr rest → ∃ task, rest = awaitHandler task) :
    Awaiting (c.answer beast request outcome) := by
  intro request' rest handling
  exact awaiting rest (Connection.handling_of_answer handling).2

/-- Every resumption of a session is simulated. -/
theorem wake_moves
    (alike : ∀ request,
      (w.server.handlers.lookup request).isNone = isUnroutable service.routes request)
    (stats : w.server.stats = shared.stats) (awaiting : Awaiting c)
    (busy : c.phase.isHandling = true → w.inFlight ≠ [])
    (woken : c.wake service shared wakeup = some (shared', c')) :
    (∃ w', Moves w w' shared shared' wakeup.asked.length
        (wakeup.asked.countP (isUnroutable service.routes)) c.phase.isHandling.toNat
        c'.phase.isHandling.toNat) ∧ Awaiting c' := by
  rcases Connection.wake_cases woken with ⟨rfl, reading, rfl, rfl⟩ |
    ⟨request, outcome, rfl, reading, ran, rfl⟩ | ⟨request, rest, outcome, rfl, handling, ran, rfl⟩ |
    ⟨request, message, fails, rfl, writing, rfl, rfl⟩
  · refine ⟨⟨w, ?_⟩, fun _ _ same => by cases same⟩
    rw [reading]
    exact .refl stats rfl 0
  · obtain ⟨⟨w', moves⟩, awaiting'⟩ := processRequest_moves alike stats ran
    refine ⟨⟨w', ?_⟩, awaiting_answer awaiting'⟩
    rw [reading, isHandling_answer]
    have single : [request].countP (isUnroutable service.routes) =
        (isUnroutable service.routes request).toNat := by
      cases known : isUnroutable service.routes request <;> simp [known]
    rw [Wakeup.asked, single]
    exact moves
  · obtain ⟨task, rfl⟩ := awaiting request rest handling
    obtain ⟨⟨w', moves⟩, awaiting'⟩ :=
      awaitHandler_moves stats (busy (by rw [handling]; rfl)) ran
    refine ⟨⟨w', ?_⟩, awaiting_answer awaiting'⟩
    rw [handling, isHandling_answer]
    exact moves
  · have idle : Phase.isHandling
        (if fails || service.beast.need_eof message then Phase.closed (σ := σ) else .reading) =
          false := by
      split <;> rfl
    refine ⟨⟨w, ?_⟩, fun request' rest' same => ?_⟩
    · rw [writing, idle]
      exact .refl stats rfl 0
    · have busy := congrArg Phase.isHandling same
      cases idle.symm.trans busy

end Wakeups

section Runs
variable {service : Service σ} {handlers : HttpHandlerStore RequestHandler} {s s' : System σ}
  {w : World}

theorem Mirrors.start (routes : HttpHandlerStore (AsyncHandler σ))
    (handlers : HttpHandlerStore RequestHandler) (app : σ) :
    Mirrors routes handlers (System.start app) (World.start handlers) :=
  ⟨rfl, rfl, rfl, rfl, rfl, rfl, rfl, rfl, fun _ member => by cases member⟩

theorem Mirrors.takeStats (mirrors : Mirrors service.routes handlers s w) :
    Mirrors service.routes handlers
      { s with
        shared := { s.shared with stats := {} }
        snapshots := s.snapshots ++ [s.shared.stats] }
      { w with
        server := w.server.takeStats.2
        snapshots := w.server.takeStats.1 :: w.snapshots } where
  handlers := mirrors.handlers
  stats := rfl
  snapshots := by
    rw [List.reverse_append, ← mirrors.snapshots, ← mirrors.stats]
    rfl
  started := mirrors.started
  unroutable := mirrors.unroutable
  inFlight := mirrors.inFlight
  threw := mirrors.threw
  returned := mirrors.returned
  awaiting := mirrors.awaiting

theorem Mirrors.accept (mirrors : Mirrors service.routes handlers s w) (listener : Listener) :
    Mirrors service.routes handlers
      { s with connections := s.connections ++ [{}], listener := listener } w := by
  obtain ⟨own, stats, snapshots, started, unrouted, inFlight, threw, returned, awaiting⟩ := mirrors
  refine ⟨own, stats, snapshots, started, unrouted, ?_, threw, returned,
    List.forall_mem_append.mpr ⟨awaiting, List.forall_mem_singleton.mpr ?_⟩⟩
  · rw [List.countP_append]
    exact inFlight
  · intro request rest same
    cases same

theorem Mirrors.session {id : Nat} {wakeup : Wakeup} {c c' : Connection σ} {shared' : Shared σ}
    (alike : ∀ request, (handlers.lookup request).isNone = isUnroutable service.routes request)
    (mirrors : Mirrors service.routes handlers s w) (present : s.connections[id]? = some c)
    (woken : c.wake service s.shared wakeup = some (shared', c')) :
    ∃ w', Relation.ReflTransGen Step w w' ∧ Mirrors service.routes handlers { s with
      shared := shared'
      connections := s.connections.set id c'
      history := s.history ++ wakeup.asked.map (fun request => (id, request)) } w' := by
  obtain ⟨own, stats, snapshots, started, unrouted, inFlight, threw, returned, awaiting⟩ := mirrors
  have member := List.mem_of_getElem? present
  have inHandlers : c.phase.isHandling = true → w.inFlight ≠ [] := by
    intro busy
    rw [← List.length_pos_iff, inFlight]
    exact List.countP_pos_iff.mpr ⟨c, member, busy⟩
  obtain ⟨⟨w', moves⟩, awaiting'⟩ :=
    wake_moves (by rw [own]; exact alike) stats (awaiting c member) inHandlers woken
  refine ⟨w', moves.steps, ⟨moves.handlers.trans own, moves.stats, moves.snapshots.trans snapshots,
    ?_, ?_, ?_, ?_, ?_, ?_⟩⟩
  · rw [moves.started, started, List.length_append, List.length_map]
  · rw [moves.unroutable, unrouted, List.countP_append, List.countP_map]
    rfl
  · have counted := moves.inFlight
    have replaced := countP_set_add (fun c => c.phase.isHandling) present c'
    simp only at replaced ⊢
    omega
  · have counted := moves.threw
    simp only
    omega
  · have counted := moves.returned
    simp only
    omega
  · intro other member
    rcases List.mem_or_eq_of_mem_set member with old | rfl
    · exact awaiting other old
    · exact awaiting'

/-- Every event is simulated. -/
theorem Mirrors.step {event : Event}
    (alike : ∀ request, (handlers.lookup request).isNone = isUnroutable service.routes request)
    (mirrors : Mirrors service.routes handlers s w) (stepped : step service event s = some s') :
    ∃ w', Relation.ReflTransGen Step w w' ∧ Mirrors service.routes handlers s' w' := by
  rcases step_sessions_cases stepped with ⟨_, _, rfl⟩ | ⟨-, rfl⟩ | ⟨listener, rfl⟩ |
    ⟨id, wakeup, c, shared', c', -, -, present, woken, rfl⟩
  · exact ⟨w, .refl, ⟨mirrors.handlers, mirrors.stats, mirrors.snapshots, mirrors.started,
      mirrors.unroutable, mirrors.inFlight, mirrors.threw, mirrors.returned, mirrors.awaiting⟩⟩
  · exact ⟨_, .single (.takeStats w), mirrors.takeStats⟩
  · exact ⟨w, .refl, mirrors.accept listener⟩
  · exact mirrors.session alike present woken

/-- The interleaving's account, told of the server. -/
theorem Mirrors.counted {routes : HttpHandlerStore (AsyncHandler σ)}
    (mirrors : Mirrors routes handlers s w) (reachable : Reachable handlers w) :
    Counted routes s := by
  have accounted := accounted_of_reachable reachable
  have totals : ∀ counter, Statistics.total counter w = summed counter s := by
    intro counter
    rw [Statistics.total, summed, mirrors.snapshots, mirrors.stats, List.map_reverse,
      List.sum_reverse]
  obtain ⟨requests, unknown, exceptions, outcomes⟩ := accounted
  rw [totals] at requests unknown exceptions
  rw [mirrors.started] at requests
  rw [mirrors.unroutable] at unknown
  rw [mirrors.threw] at exceptions
  refine ⟨requests, unknown, exceptions, ?_⟩
  have lengths := outcomes.length_eq
  simp only [List.length_append, List.length_range] at lengths
  have ended : s.shared.exits.length = s.shared.exits.countP hasThrown +
      s.shared.exits.countP (fun exit => !hasThrown exit) := by
    simpa using s.shared.exits.length_eq_countP_add_countP hasThrown
  rw [mirrors.unroutable, mirrors.threw, mirrors.returned, mirrors.inFlight, mirrors.started]
    at lengths
  omega

end Runs

theorem outline_lookup (base_path : Str) (ops : List (Op (AsyncHandler σ))) (request : Request) :
    ((outline base_path ops).lookup request).isNone =
      isUnroutable (HttpHandlerStore.run base_path ops) request := by
  unfold outline isUnroutable
  rw [HttpHandlerStore.lookup_run_map, Option.isNone_map]

/-- A server with the routes that are left by registrations. -/
def routed (beast : Beast) (base_path : Str) (ops : List (Op (AsyncHandler σ)))
    (running : σ → Bool) : Service σ where
  beast := beast
  routes := HttpHandlerStore.run base_path ops
  running := running

/-- Every run of the server is one of the interleavings, and its counters count the
requests that its connections have read and the handlers that threw. -/
theorem runs_counted (beast : Beast) (base_path : Str) (ops : List (Op (AsyncHandler σ)))
    (running : σ → Bool) (app : σ) (events : List Event) (s : System σ)
    (reached : Reached (routed beast base_path ops running) app events s) :
    (∃ w, Reachable (outline base_path ops) w ∧
      Mirrors (HttpHandlerStore.run base_path ops) (outline base_path ops) s w) ∧
      Counted (HttpHandlerStore.run base_path ops) s := by
  obtain ⟨w, reachable, mirrors⟩ := EventMachine.run_simulated reached
    (Mirrors.start (HttpHandlerStore.run base_path ops) (outline base_path ops) app)
    (fun _ _ _ _ mirrors stepped => mirrors.step (outline_lookup base_path ops) stepped)
  exact ⟨⟨w, reachable, mirrors⟩, mirrors.counted reachable⟩

/-- A handler that fails behind a suspension. -/
def failing : AsyncHandler Unit := fun _ request response =>
  .suspend (.done ⟨request, response, .threw "boom".toList⟩)

def failingOps : List (Op (AsyncHandler Unit)) := [.add .unknown "boom".toList failing]

def anyBeast : Beast := { prepare_payload := some, need_eof := fun _ => false }

/-- The counters are taken while the handler waits and again after an unroutable request. -/
def overdrawnRun : List Event :=
  [.accept .socket, .session 0 (.read (some { target := "/boom".toList })), .takeStats,
    .session 0 .resumed, .session 0 (.wrote false),
    .session 0 (.read (some { target := "/none".toList })), .takeStats]

theorem overdrawnRun_counted :
    ∃ s, Reached (routed anyBeast [] failingOps (fun _ => true)) () overdrawnRun s ∧
      s.snapshots = [{ requests := 1 }, { requests := 1, unknown_requests := 1, exceptions := 1 }] ∧
      (∃ w, Reachable (outline [] failingOps) w ∧
        Mirrors (HttpHandlerStore.run [] failingOps) (outline [] failingOps) s w) ∧
      Counted (HttpHandlerStore.run [] failingOps) s := by
  have ran : ((EventMachine.run (step (routed anyBeast [] failingOps (fun _ => true)))
      overdrawnRun (System.start ())).map System.snapshots) =
        some [{ requests := 1 }, { requests := 1, unknown_requests := 1, exceptions := 1 }] := by
    decide +kernel
  obtain ⟨s, reached, taken⟩ := Option.map_eq_some_iff.mp ran
  exact ⟨s, reached, taken,
    runs_counted anyBeast [] failingOps (fun _ => true) () overdrawnRun s reached⟩

end Restio.Guarantees.CountedRequests
