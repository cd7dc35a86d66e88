import Restio.Guarantees.Exchanges
import Restio.Source.StoreHistory

/-!
# Every request is answered

In an infinite run in which no session that has something to do is left alone for
ever, whatever else goes on meanwhile, each request that a connection has read is
answered, or the connection is closed (`requests_answered`). The argument has two
waits: a handler is suspended finitely often, and a response is written once.

The first is assumed of the handlers (`Terminating`): one that awaits again and again
is never answered. One that goes on for ever without awaiting anything keeps the whole
server waiting; it is no coroutine here, where each stretch is a function. That what a
handler awaits comes and that a write completes, with or without an error, is the
environment's part and assumed as well (`Fair`); a call of `io_context::stop` ends all
of it.
-/

set_option autoImplicit false

namespace Restio.Guarantees.Progress
open Restio.Lib Restio.Source.Http Restio.Source.HandlerStore Restio.Source.HttpServer
open Restio.Source.Connections Restio.Guarantees.Exchanges

variable {σ : Type}

/-- No handler that lookup finds awaits again and again without end, whatever the others
do to what it shares with them. -/
def Terminating (routes : HttpHandlerStore (AsyncHandler σ)) : Prop :=
  ∀ request found, routes.lookup request = some found →
    ∀ response, (found.2 found.1 request response).Terminates

/-- A session that remains busy is resumed again and again. -/
def Fair {service : Service σ} (execution : EventMachine.Execution (step service)) : Prop :=
  ∀ id n, (∀ m, n ≤ m → ∃ c, (execution.state m).connections[id]? = some c ∧
      c.phase.isBusy = true) →
    ∃ m, n ≤ m ∧ ∃ wakeup, execution.event m = .session id wakeup

/-- All requests of the connection are answered, or nothing more will be. -/
def Answered (c : Connection σ) : Prop :=
  c.phase = .closed ∨ c.requests.length = c.written.length

section Steps
variable {service : Service σ} {s s' : System σ} {event : Event} {id : Nat} {c : Connection σ}

/-- A session is resumed by its own events only. -/
theorem untouched (present : s.connections[id]? = some c) (stepped : step service event s = some s')
    (other : ¬ ∃ wakeup, event = .session id wakeup) : s'.connections[id]? = some c := by
  rcases step_sessions_cases stepped with ⟨_, _, rfl⟩ | ⟨-, rfl⟩ | ⟨_, rfl⟩ |
    ⟨id', wakeup, c', shared', c'', rfl, -, -, -, rfl⟩
  · exact present
  · exact present
  · rw [List.getElem?_append_left (List.getElem?_eq_some_iff.mp present).1]
    exact present
  · have different : id' ≠ id := fun same => other ⟨wakeup, by rw [same]⟩
    rw [List.getElem?_set_ne different]
    exact present

/-- What its own event makes of a session. -/
theorem touched {wakeup : Wakeup} (present : s.connections[id]? = some c)
    (stepped : step service (.session id wakeup) s = some s') :
    ∃ shared' c', c.wake service s.shared wakeup = some (shared', c') ∧
      s'.connections[id]? = some c' := by
  rcases step_cases stepped with ⟨same, -⟩ | ⟨same, -⟩ | ⟨outcome, same, -⟩ |
    ⟨id', wakeup', c', shared', c'', same, -, present', woken, rfl⟩
  · cases same
  · cases same
  · cases same
  · cases same
    cases present'.symm.trans present
    exact ⟨shared', c'', woken,
      List.getElem?_set_self (List.getElem?_eq_some_iff.mp present).1⟩

/-- A resumed handler's session waits on for what it left, or is over with the handler. -/
theorem handling_wake {shared shared' : Shared σ} {c' : Connection σ} {wakeup : Wakeup}
    {request : Request} {rest : Coroutine (Shared σ) Response}
    (handling : c.phase = .handling request rest)
    (woken : c.wake service shared wakeup = some (shared', c')) :
    c'.phase = .closed ∨
      (∃ message, c' = { c with phase := .writing request message }) ∨
      ∃ rest', Coroutine.Follows rest' rest ∧ c' = { c with phase := .handling request rest' } := by
  rcases Connection.wake_cases woken with ⟨-, other, -, -⟩ | ⟨_, _, -, other, -, -⟩ |
    ⟨request', rest', outcome, -, same, ran, rfl⟩ | ⟨_, _, _, -, other, -, -⟩
  · cases handling.symm.trans other
  · cases handling.symm.trans other
  · cases handling.symm.trans same
    cases outcome with
    | inr left => exact Or.inr (Or.inr ⟨left, ⟨shared, shared', ran⟩, rfl⟩)
    | inl response =>
      cases prepared : service.beast.prepare_payload response with
      | none =>
        rw [Connection.answer_unprepared prepared]
        exact Or.inl rfl
      | some message =>
        rw [Connection.answer_prepared prepared]
        exact Or.inr (Or.inl ⟨message, rfl⟩)
  · cases handling.symm.trans other

theorem writing_wake {shared shared' : Shared σ} {c' : Connection σ} {wakeup : Wakeup}
    {request : Request} {message : Response} (writing : c.phase = .writing request message)
    (woken : c.wake service shared wakeup = some (shared', c')) :
    c'.phase = .closed ∨ c'.phase = .reading := by
  rcases Connection.wake_cases woken with ⟨-, other, -, -⟩ | ⟨_, _, -, other, -, -⟩ |
    ⟨_, _, _, -, other, -, -⟩ | ⟨_, _, fails, -, -, -, rfl⟩
  · cases writing.symm.trans other
  · cases writing.symm.trans other
  · cases writing.symm.trans other
  · simp only
    split
    · exact Or.inl rfl
    · exact Or.inr rfl

end Steps

section Handlers
variable {service : Service σ}

/-- `processRequest` is suspended as long as its handler. -/
theorem processRequest_terminates (terminating : Terminating service.routes) (request : Request)
    (response : Response) : (processRequest service.routes request response).Terminates := by
  refine .of_access (fun counted => ?_)
  cases looked : service.routes.lookup request with
  | none => exact .of_access (fun _ => .of_done _)
  | some found =>
    refine ((terminating request found looked response).within Shared.appPart).bind (fun run => ?_)
    refine .of_access (fun recorded => ?_)
    unfold caught
    split
    · exact .of_done _
    · exact .of_access (fun _ => .of_done _)

theorem terminating_of_registered (base_path : Str) {ops : List (Op (AsyncHandler σ))}
    (registered : ∀ verb path handler, Op.add verb path handler ∈ ops →
      ∀ tail request response, (handler tail request response).Terminates) :
    Terminating (HttpHandlerStore.run base_path ops) := fun request found looked response =>
  HttpHandlerStore.lookup_run_registered registered looked found.1 request response

theorem handling_terminates (terminating : Terminating service.routes) {app : σ}
    {events : List Event} {s : System σ} (reached : Reached service app events s) :
    ∀ c ∈ s.connections, ∀ request rest, c.phase = .handling request rest → rest.Terminates :=
  reached.handling_invariant (motive := fun _ rest => rest.Terminates)
    (fun request _ follows => (processRequest_terminates terminating request _).inv follows)
    (fun _ _ _ terminates follows => terminates.inv follows)

end Handlers

section Executions
variable {service : Service σ} {execution : EventMachine.Execution (step service)} {id n : Nat}
  {c : Connection σ}

/-- A connection stays, and what it has read is not forgotten. -/
theorem requests_kept (present : (execution.state n).connections[id]? = some c) {m : Nat}
    (later : n ≤ m) :
    ∃ c', (execution.state m).connections[id]? = some c' ∧ c.requests <+: c'.requests := by
  induction m, later using Nat.le_induction with
  | base => exact ⟨c, present, List.prefix_refl _⟩
  | succ m later ih =>
    obtain ⟨c', present', sofar⟩ := ih
    by_cases own : ∃ wakeup, execution.event m = .session id wakeup
    · obtain ⟨wakeup, same⟩ := own
      have stepped := execution.next m
      rw [same] at stepped
      obtain ⟨shared', c'', woken, present''⟩ := touched present' stepped
      refine ⟨c'', present'', sofar.trans ?_⟩
      rw [requests_wake woken]
      exact List.prefix_append _ _
    · exact ⟨c', untouched present' (execution.next m) own, sofar⟩

/-- The last wait: a response that is being written. -/
theorem written_or_closed (fair : Fair execution) {request : Request} {message : Response}
    (present : (execution.state n).connections[id]? = some c)
    (writing : c.phase = .writing request message) :
    ∃ m, n < m ∧ ∃ c', (execution.state m).connections[id]? = some c' ∧
      (c'.phase = .closed ∨ c'.phase = .reading) := by
  refine execution.leaves (fun s (_ : Unit) => s.connections[id]? = some c)
    (fun event => ∃ wakeup, event = .session id wakeup)
    (fun s => ∃ c', s.connections[id]? = some c' ∧ (c'.phase = .closed ∨ c'.phase = .reading))
    ?_ ?_ ?_ (emptyWf.wf.apply ()) present
  · exact fun event s s' _ waiting stepped other => untouched waiting stepped other
  · intro event s s' _ waiting stepped helps
    obtain ⟨wakeup, rfl⟩ := helps
    obtain ⟨shared', c', woken, present'⟩ := touched waiting stepped
    exact Or.inl ⟨c', present', writing_wake writing woken⟩
  · intro n lasts
    refine fair id n (fun m later => ?_)
    obtain ⟨-, waiting⟩ := lasts m later
    exact ⟨c, waiting, by rw [writing]; rfl⟩

/-- The first wait: a handler that is suspended. -/
theorem handled_or_closed (fair : Fair execution) {request : Request}
    {rest : Coroutine (Shared σ) Response} (terminates : rest.Terminates)
    (present : (execution.state n).connections[id]? = some c)
    (handling : c.phase = .handling request rest) :
    ∃ m, n < m ∧ ∃ c', (execution.state m).connections[id]? = some c' ∧
      (c'.phase = .closed ∨ ∃ message, c' = { c with phase := .writing request message }) := by
  refine execution.leaves
    (fun s rest => s.connections[id]? = some { c with phase := .handling request rest })
    (fun event => ∃ wakeup, event = .session id wakeup)
    (fun s => ∃ c', s.connections[id]? = some c' ∧
      (c'.phase = .closed ∨ ∃ message, c' = { c with phase := .writing request message }))
    ?_ ?_ ?_ terminates (by rw [← handling]; exact present)
  · exact fun event s s' rest waiting stepped other => untouched waiting stepped other
  · intro event s s' rest waiting stepped helps
    obtain ⟨wakeup, rfl⟩ := helps
    obtain ⟨shared', c', woken, present'⟩ := touched waiting stepped
    rcases handling_wake rfl woken with closed | written | ⟨rest', follows, rfl⟩
    · exact Or.inl ⟨c', present', Or.inl closed⟩
    · exact Or.inl ⟨c', present', Or.inr written⟩
    · exact Or.inr ⟨rest', follows, present'⟩
  · intro n lasts
    refine fair id n (fun m later => ?_)
    obtain ⟨rest, waiting⟩ := lasts m later
    exact ⟨_, waiting, rfl⟩

end Executions

/-- A session that waits for its next request has answered all. -/
theorem answered_of_reading {service : Service σ} {c : Connection σ} (orderly : Orderly service c)
    (reading : c.phase = .reading) : Answered c := by
  have settled := (orderly.open (by rw [reading]; rfl)).1
  refine Or.inr ?_
  rw [Connection.requests, reading]
  simpa [Phase.pending] using settled

/-- In an infinite run that leaves no busy session alone, every connection comes to
have all the requests answered that it has read by now, or it is closed. -/
theorem requests_answered (service : Service σ) (terminating : Terminating service.routes) (app : σ)
    (execution : EventMachine.Execution (step service))
    (started : execution.state 0 = System.start app) (fair : Fair execution) (n id : Nat)
    (c : Connection σ) (present : (execution.state n).connections[id]? = some c) :
    ∃ m, n ≤ m ∧ ∃ c', (execution.state m).connections[id]? = some c' ∧
      c.requests <+: c'.requests ∧ Answered c' := by
  have reached : ∀ m, Reached service app ((List.range m).map execution.event)
      (execution.state m) := by
    intro m
    rw [Reached, ← started]
    exact execution.run_range m
  have orderly : ∀ m c', (execution.state m).connections[id]? = some c' →
      Orderly service c' := fun m c' present' =>
    orderly_of_reached (reached m) c' (List.mem_of_getElem? present')
  have asked : ∀ m, n ≤ m → ∀ c', (execution.state m).connections[id]? = some c' →
      c.requests <+: c'.requests := by
    intro m later c' present'
    obtain ⟨c'', same, kept⟩ := requests_kept present later
    cases present'.symm.trans same
    exact kept
  have written : ∀ m, n ≤ m → ∀ request message c',
      (execution.state m).connections[id]? = some c' → c'.phase = .writing request message →
      ∃ m', n ≤ m' ∧ ∃ c'', (execution.state m').connections[id]? = some c'' ∧
        c.requests <+: c''.requests ∧ Answered c'' := by
    intro m after request message c' present' writing
    obtain ⟨m', later, c'', present'', ended⟩ := written_or_closed fair present' writing
    have after' := after.trans later.le
    refine ⟨m', after', c'', present'', asked m' after' c'' present'', ?_⟩
    rcases ended with closed | reading
    · exact Or.inl closed
    · exact answered_of_reading (orderly m' c'' present'') reading
  cases phase : c.phase with
  | reading =>
    exact ⟨n, le_rfl, c, present, List.prefix_refl _,
      answered_of_reading (orderly n c present) phase⟩
  | closed => exact ⟨n, le_rfl, c, present, List.prefix_refl _, Or.inl phase⟩
  | writing request message => exact written n le_rfl request message c present phase
  | handling request rest =>
    have terminates := handling_terminates terminating (reached n) c
      (List.mem_of_getElem? present) request rest phase
    obtain ⟨m, later, c', present', closed | ⟨message, rfl⟩⟩ :=
      handled_or_closed fair terminates present phase
    · exact ⟨m, later.le, c', present', asked m later.le c' present', Or.inl closed⟩
    · exact written m later.le request message _ present' rfl

/-- One request; its handler is resumed once, its response is written. -/
def oneTally : List Event :=
  [.accept .socket, .session 0 (.read (some { target := "/tally".toList })),
    .session 0 .resumed, .session 0 (.wrote false)]

theorem tally_terminating : Terminating tallyService.routes := by
  have registered : Terminating (HttpHandlerStore.run []
      [Op.add .unknown "tally".toList tally]) := by
    refine terminating_of_registered [] (fun verb path handler member => ?_)
    cases List.mem_singleton.mp member
    exact fun _ _ _ => .of_access (fun _ => .of_suspend (.of_access (fun _ => .of_done _)))
  exact registered

theorem oneTally_answered :
    ∃ execution : EventMachine.Execution (step tallyService), ∃ c,
      (execution.state 2).connections[0]? = some c ∧ c.phase.isBusy = true ∧
      ∃ m, 2 ≤ m ∧ ∃ c', (execution.state m).connections[0]? = some c' ∧
        c.requests <+: c'.requests ∧ Answered c' := by
  have ran : ((EventMachine.run (step tallyService) oneTally (System.start 0)).map
      (fun s => s.connections.map (fun c => c.phase.isBusy))) = some [false] := by
    decide +kernel
  have began : ((EventMachine.run (step tallyService) (oneTally.take 2) (System.start 0)).map
      (fun s => s.connections.map (fun c => c.phase.isBusy))) = some [true] := by
    decide +kernel
  obtain ⟨last, reached, idle⟩ := Option.map_eq_some_iff.mp ran
  obtain ⟨s, reached', busy⟩ := Option.map_eq_some_iff.mp began
  obtain ⟨c, only, busy⟩ := List.map_eq_singleton_iff.mp busy
  have always : ∀ s, (step tallyService .stop s).isSome := fun _ => rfl
  have present : ((EventMachine.Execution.complete reached always).state 2).connections[0]? =
      some c := by
    have state : (EventMachine.Execution.complete reached always).state 2 = s :=
      Option.some.inj ((EventMachine.Execution.complete_state reached always 2).symm.trans reached')
    rw [state, only]
    rfl
  refine ⟨_, c, present, busy, requests_answered tallyService
    tally_terminating 0 (EventMachine.Execution.complete reached always) ?_ ?_ 2 0 c present⟩
  · exact EventMachine.Execution.complete_start reached always
  · -- once the response is written, no session is busy
    intro id n lasts
    have rests := EventMachine.Execution.complete_invariant reached always
      (motive := fun s => s.connections.map (fun c => c.phase.isBusy) = [false]) idle
      (fun s s' held stepped => by cases stepped; exact held) (Nat.le_add_left oneTally.length n)
    obtain ⟨c', present', busy'⟩ := lasts (n + oneTally.length) (Nat.le_add_right _ _)
    obtain ⟨other, only', idle'⟩ := List.map_eq_singleton_iff.mp rests
    rw [only', List.getElem?_singleton] at present'
    split at present'
    · cases present'
      cases idle'.symm.trans busy'
    · cases present'

end Restio.Guarantees.Progress
