import Restio.Source.Connections

/-!
# The listener

`listen` gives each accepted socket to a session of its own and survives a failed
accept, unless it was aborted, the acceptor is closed by then or something else was
thrown: the first accept of that kind is the last one. After `stop` at most one more
socket is taken, the one whose accept had begun (`listener_law`).

The sessions notice nothing of this: a run with all its calls of `stop` and all its
failed accepts left out is a run too, and leads to the same sessions, counters and
handlers' state (`sessions_unaffected`).
-/

set_option autoImplicit false

namespace Restio.Guarantees.Listening
open Restio.Lib Restio.Source.Http Restio.Source.HandlerStore Restio.Source.HttpServer
open Restio.Source.Connections

variable {σ : Type}

/-- Whether `listen` ends with an accept, behind the events that came before it. -/
def isFinal (before : List Event) : Accept → Bool
  | .socket => false
  | .failed aborted => aborted || decide (Event.stop ∈ before)
  | .unexpected => true

/-- An accept has ended `listen`. -/
def Over (events : List Event) : Prop :=
  ∃ before outcome after, events = before ++ .accept outcome :: after ∧
    isFinal before outcome = true

/-- What has happened since the first `stop`. -/
def sinceStop (events : List Event) : List Event := events.dropWhile (fun event => event ≠ .stop)

/-- The listener as the events so far determine it. -/
structure Heard (events : List Event) (s : System σ) : Prop where
  /-- Every socket has got its session. -/
  sockets : s.connections.length = events.count (.accept .socket)
  acceptor : s.acceptorOpen = !decide (Event.stop ∈ events)
  ended : s.listener = .ended ↔ Over events
  /-- No accept behind the one that ended `listen`. -/
  last : ∀ before outcome after, events = before ++ .accept outcome :: after →
    isFinal before outcome = true → ∀ outcome', Event.accept outcome' ∉ after
  stopped : (sinceStop events).count (.accept .socket) ≤ 1
  /-- The accept under way that began before `stop` has not taken a socket since. -/
  begun : s.listener = .accepting true → (sinceStop events).count (.accept .socket) = 0

section Lists

theorem concat_eq_append_cons_iff {α : Type} {events before after : List α} {event x : α} :
    events ++ [event] = before ++ x :: after ↔
      (after = [] ∧ before = events ∧ x = event) ∨
        ∃ after', after = after' ++ [event] ∧ events = before ++ x :: after' := by
  rcases List.eq_nil_or_concat after with rfl | ⟨after', final, rfl⟩
  · rw [List.append_singleton_inj]
    constructor
    · rintro ⟨rfl, rfl⟩
      exact Or.inl ⟨rfl, rfl, rfl⟩
    · rintro (⟨-, rfl, rfl⟩ | ⟨after', none, -⟩)
      · exact ⟨rfl, rfl⟩
      · simp at none
  · rw [List.concat_eq_append, ← List.cons_append, ← List.append_assoc, List.append_singleton_inj]
    constructor
    · rintro ⟨rfl, rfl⟩
      exact Or.inr ⟨after', rfl, rfl⟩
    · rintro (⟨none, -⟩ | ⟨after'', same, rfl⟩)
      · simp at none
      · obtain ⟨rfl, rfl⟩ := List.append_singleton_inj.mp same
        exact ⟨rfl, rfl⟩

theorem over_concat_iff (events : List Event) (event : Event) :
    Over (events ++ [event]) ↔
      Over events ∨ ∃ outcome, event = .accept outcome ∧ isFinal events outcome = true := by
  constructor
  · rintro ⟨before, outcome, after, split, final⟩
    rcases concat_eq_append_cons_iff.mp split with ⟨-, rfl, rfl⟩ | ⟨after', -, earlier⟩
    · exact Or.inr ⟨outcome, rfl, final⟩
    · exact Or.inl ⟨before, outcome, after', earlier, final⟩
  · rintro (⟨before, outcome, after, rfl, final⟩ | ⟨outcome, rfl, final⟩)
    · exact ⟨before, outcome, after ++ [event], by simp, final⟩
    · exact ⟨events, outcome, [], rfl, final⟩

theorem sinceStop_concat (events : List Event) (event : Event) :
    sinceStop (events ++ [event]) =
      if Event.stop ∈ events then sinceStop events ++ [event]
      else if event = .stop then [event] else [] := by
  unfold sinceStop
  rw [List.dropWhile_append]
  by_cases stopped : Event.stop ∈ events
  · have some : (events.dropWhile (fun event => event ≠ .stop)).isEmpty = false := by
      rw [Bool.eq_false_iff]
      intro none
      rw [List.isEmpty_iff, List.dropWhile_eq_nil_iff] at none
      exact absurd (none _ stopped) (by simp)
    rw [some, if_pos stopped]
    rfl
  · have none : (events.dropWhile (fun event => event ≠ .stop)).isEmpty = true := by
      rw [List.isEmpty_iff, List.dropWhile_eq_nil_iff]
      intro other member
      have different : other ≠ .stop := fun same => stopped (by rw [← same]; exact member)
      exact decide_eq_true different
    rw [none, if_neg stopped]
    by_cases same : event = .stop <;> simp [same]

end Lists

section Steps
variable {service : Service σ} {events : List Event} {s s' : System σ} {event : Event}

/-- The part of `Heard.last` that an event adds. -/
theorem Heard.last_concat (heard : Heard events s)
    (fresh : ∀ outcome, event = .accept outcome → ¬ Over events) :
    ∀ before outcome after, events ++ [event] = before ++ .accept outcome :: after →
      isFinal before outcome = true → ∀ outcome', Event.accept outcome' ∉ after := by
  intro before outcome after split final outcome' member
  rcases concat_eq_append_cons_iff.mp split with ⟨rfl, -, -⟩ | ⟨after', rfl, earlier⟩
  · cases member
  · rcases List.mem_append.mp member with old | new
    · exact heard.last before outcome after' earlier final outcome' old
    · exact fresh outcome' (List.mem_singleton.mp new).symm
        ⟨before, outcome, after', earlier, final⟩

/-- An event that is neither an accept nor `stop`. -/
theorem Heard.other (heard : Heard events s) (connections : s'.connections.length =
    s.connections.length) (acceptor : s'.acceptorOpen = s.acceptorOpen)
    (listener : s'.listener = s.listener) (notAccept : ∀ outcome, event ≠ .accept outcome)
    (notStop : event ≠ .stop) : Heard (events ++ [event]) s' where
  sockets := by
    rw [connections, heard.sockets, List.count_append, List.count_singleton]
    simp [notAccept]
  acceptor := by
    rw [acceptor, heard.acceptor]
    simp [notStop.symm]
  ended := by
    rw [listener, heard.ended, over_concat_iff]
    simp [notAccept]
  last := heard.last_concat (fun outcome same => absurd same (notAccept outcome))
  stopped := by
    rw [sinceStop_concat]
    have := heard.stopped
    split <;> simp_all
  begun := by
    rw [listener, sinceStop_concat]
    intro waiting
    have := heard.begun waiting
    split <;> simp_all

theorem Heard.stop (heard : Heard events s) :
    Heard (events ++ [.stop]) { s with acceptorOpen := false } where
  sockets := by
    rw [heard.sockets, List.count_append, List.count_singleton]
    simp
  acceptor := by simp
  ended := by
    rw [heard.ended, over_concat_iff]
    simp
  last := heard.last_concat (fun outcome same => by cases same)
  stopped := by
    rw [sinceStop_concat]
    have := heard.stopped
    split <;> simp_all
  begun := by
    intro waiting
    rw [sinceStop_concat]
    have := heard.begun waiting
    split <;> simp_all

/-- While `listen` has not ended, there was no accept to end it. -/
theorem Heard.notOver (heard : Heard events s) {opened : Bool}
    (waiting : s.listener = .accepting opened) : ¬ Over events := by
  intro ended
  rw [← heard.ended, waiting] at ended
  cases ended

theorem Heard.openedBefore (heard : Heard events s) (opened : s.acceptorOpen = true) :
    Event.stop ∉ events := by
  have acceptor := heard.acceptor
  rw [opened] at acceptor
  simpa using acceptor.symm

theorem Heard.socket (heard : Heard events s) (waiting : s.listener = .accepting true) :
    Heard (events ++ [.accept .socket])
      { s with connections := s.connections ++ [{}], listener := .accepting s.acceptorOpen } where
  sockets := by
    rw [List.length_append, heard.sockets, List.count_append, List.count_singleton]
    simp
  acceptor := by
    rw [heard.acceptor]
    simp
  ended := by
    rw [over_concat_iff]
    simp [heard.notOver waiting, isFinal]
  last := heard.last_concat (fun _ _ => heard.notOver waiting)
  stopped := by
    rw [sinceStop_concat]
    split
    · rw [List.count_append, heard.begun waiting]
      simp
    · simp
  begun := by
    intro opened
    rw [sinceStop_concat, if_neg (heard.openedBefore (Listener.accepting.inj opened))]
    simp

/-- An accept that is not completed with a socket. -/
theorem Heard.failed (heard : Heard events s) {opened : Bool}
    (waiting : s.listener = .accepting opened) {outcome : Accept} (noSocket : outcome ≠ .socket)
    {listener : Listener} (next : listener =
      if isFinal events outcome then .ended else .accepting s.acceptorOpen) :
    Heard (events ++ [.accept outcome]) { s with listener := listener } where
  sockets := by
    rw [heard.sockets, List.count_append, List.count_singleton]
    simp [noSocket]
  acceptor := by
    rw [heard.acceptor]
    simp
  ended := by
    rw [over_concat_iff, next]
    cases final : isFinal events outcome <;> simp [heard.notOver waiting, final]
  last := heard.last_concat (fun _ _ => heard.notOver waiting)
  stopped := by
    rw [sinceStop_concat]
    have := heard.stopped
    split <;> simp_all
  begun := by
    intro begun
    have still : listener = .accepting true := begun
    rw [next] at still
    split at still
    · cases still
    · rw [sinceStop_concat, if_neg (heard.openedBefore (Listener.accepting.inj still))]
      simp

theorem Heard.step (heard : Heard events s) (stepped : step service event s = some s') :
    Heard (events ++ [event]) s' := by
  rcases step_cases stepped with ⟨rfl, rfl⟩ | ⟨rfl, rfl⟩ | ⟨outcome, rfl, -, accepted⟩ |
    ⟨id, wakeup, c, shared', c', rfl, -, -, -, rfl⟩
  · exact heard.other rfl rfl rfl (fun _ same => by cases same) (fun same => by cases same)
  · exact heard.stop
  · rcases System.accept_cases accepted with ⟨rfl, waiting, rfl⟩ | ⟨_, aborted, rfl, waiting, rfl⟩ |
      ⟨_, rfl, waiting, rfl⟩
    · exact heard.socket waiting
    · refine heard.failed waiting (fun same => by cases same) ?_
      rw [isFinal, heard.acceptor, Bool.not_not]
    · exact heard.failed waiting (fun same => by cases same) rfl
  · exact heard.other (List.length_set ..) rfl rfl (fun _ same => by cases same)
      (fun same => by cases same)

end Steps

/-- In every run of every server. -/
theorem listener_law (service : Service σ) (app : σ) (events : List Event) (s : System σ)
    (reached : Reached service app events s) : Heard events s := by
  refine EventMachine.run_induction (motive := Heard) reached ?_
    (fun _ _ _ _ heard stepped => heard.step stepped)
  refine ⟨rfl, rfl, ?_, ?_, Nat.zero_le _, fun _ => rfl⟩
  · constructor
    · intro ended
      cases ended
    · rintro ⟨before, outcome, after, split, -⟩
      simp at split
  · intro before outcome after split
    simp at split

def emptyService : Service Unit where
  beast := { prepare_payload := some, need_eof := fun _ => false }
  routes := HttpHandlerStore.new []

/-- One accept fails before `stop`; behind it a socket is still taken. -/
def shutdown : List Event :=
  [.accept .socket, .accept (.failed false), .session 0 (.read (some {})), .stop,
    .accept .socket, .accept (.failed false), .session 0 (.wrote false), .session 1 (.read none)]

theorem shutdown_heard :
    ∃ s, Reached emptyService () shutdown s ∧ s.listener = .ended ∧ Heard shutdown s := by
  have ran : ((EventMachine.run (step emptyService) shutdown (System.start ())).map
      System.listener) = some .ended := by decide +kernel
  obtain ⟨s, reached, ended⟩ := Option.map_eq_some_iff.mp ran
  exact ⟨s, reached, ended, listener_law emptyService () shutdown s reached⟩

/-- Calls of `stop` and accepts that fail. -/
def concernsListener : Event → Bool
  | .stop => true
  | .accept .socket => false
  | .accept _ => true
  | _ => false

/-- Without its calls of `stop` and its failed accepts, a run leads to the same. -/
theorem sessions_unaffected (service : Service σ) (app : σ) (events : List Event) (s : System σ)
    (reached : Reached service app events s) :
    Reached service app (events.filter (fun event => !concernsListener event))
      (System.withoutListener s) := by
  refine EventMachine.run_erased System.withoutListener reached ?_ ?_
  · intro s event s' quiet stepped
    rcases step_cases stepped with ⟨rfl, -⟩ | ⟨rfl, rfl⟩ | ⟨outcome, rfl, -, accepted⟩ |
      ⟨id, wakeup, c, shared', c', rfl, -, -, -, -⟩
    · cases quiet
    · rfl
    · rcases System.accept_cases accepted with ⟨rfl, -, -⟩ | ⟨_, _, -, -, rfl⟩ | ⟨_, -, -, rfl⟩
      · cases quiet
      · rfl
      · rfl
    · cases quiet
  · intro s event s' seen stepped
    rcases step_cases stepped with ⟨rfl, rfl⟩ | ⟨rfl, -⟩ | ⟨outcome, rfl, running, accepted⟩ |
      ⟨id, wakeup, c, shared', c', rfl, running, present, woken, rfl⟩
    · rfl
    · cases seen
    · rcases System.accept_cases accepted with ⟨rfl, -, rfl⟩ | ⟨_, _, rfl, -, -⟩ | ⟨_, rfl, -, -⟩
      · simp [step, System.accept, System.withoutListener, running]
      · cases seen
      · cases seen
    · simp [step, System.withoutListener, running, present, woken]

theorem shutdown_unaffected :
    ∃ s, Reached emptyService () shutdown s ∧ s.listener = .ended ∧
      Reached emptyService () (shutdown.filter (fun event => !concernsListener event))
        (System.withoutListener s) := by
  have ran : ((EventMachine.run (step emptyService) shutdown (System.start ())).map
      System.listener) = some .ended := by decide +kernel
  obtain ⟨s, reached, ended⟩ := Option.map_eq_some_iff.mp ran
  exact ⟨s, reached, ended, sessions_unaffected emptyService () shutdown s reached⟩

end Restio.Guarantees.Listening
