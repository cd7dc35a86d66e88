import Mathlib.Data.List.Induction
import Mathlib.Data.Nat.Find
import Mathlib.Logic.Relation
import Mathlib.Order.WellFounded
import Mathlib.Tactic.Push

/-!
# Machines driven by events

A machine is a partial step function: an event takes a state to the next, or it
cannot happen there. What holds after no event and is kept by each holds after
every run (`run_induction`), and a relation that each step keeps on another
machine's reachable states is kept by every run (`run_simulated`).

For infinite runs there is one rule of progress: a wait whose rank falls with
each helpful event, and cannot fall without end, ends when helpful events do not
stay out for ever (`Execution.leaves`).
-/

set_option autoImplicit false

namespace Restio.Lib.EventMachine
variable {Event State : Type} {step : Event → State → Option State}

/-- The events one after the other, as long as they can happen. -/
def run (step : Event → State → Option State) : List Event → State → Option State
  | [], s => some s
  | event :: events, s => (step event s).bind (run step events)

theorem run_append (events more : List Event) (s : State) :
    run step (events ++ more) s = (run step events s).bind (run step more) := by
  induction events generalizing s with
  | nil => rfl
  | cons event events ih =>
    rw [List.cons_append, run, run, Option.bind_assoc]
    exact congrArg (Option.bind (step event s)) (funext ih)

theorem run_concat_eq_some_iff (events : List Event) (event : Event) (s last : State) :
    run step (events ++ [event]) s = some last ↔
      ∃ between, run step events s = some between ∧ step event between = some last := by
  rw [run_append, Option.bind_eq_some_iff]
  simp only [run, Option.bind_fun_some]

/-- An invariant of the events done so far and the state they lead to. -/
theorem run_induction {motive : List Event → State → Prop} {start last : State}
    {events : List Event} (ran : run step events start = some last) (initial : motive [] start)
    (kept : ∀ done s event s', motive done s → step event s = some s' →
      motive (done ++ [event]) s') : motive events last := by
  induction events using List.reverseRecOn generalizing last with
  | nil =>
    cases ran
    exact initial
  | append_singleton events event ih =>
    obtain ⟨between, before, stepped⟩ := (run_concat_eq_some_iff _ _ _ _).mp ran
    exact kept events between event last (ih before) stepped

/-- A relation to another system that each step keeps, by some steps of the other. -/
theorem run_simulated {Other : Type} {next : Other → Other → Prop}
    {simulates : State → Other → Prop}
    {start last : State} {other : Other} {events : List Event}
    (ran : run step events start = some last) (initial : simulates start other)
    (kept : ∀ s event s' o, simulates s o → step event s = some s' →
      ∃ o', Relation.ReflTransGen next o o' ∧ simulates s' o') :
    ∃ o, Relation.ReflTransGen next other o ∧ simulates last o := by
  refine run_induction
    (motive := fun _ s => ∃ o, Relation.ReflTransGen next other o ∧ simulates s o) ran
    ⟨other, .refl, initial⟩ ?_
  intro done s event s' ⟨o, steps, held⟩ stepped
  obtain ⟨o', further, held'⟩ := kept s event s' o held stepped
  exact ⟨o', steps.trans further, held'⟩

/-- Events that leave a view of the state as it is may be left out, if the others do to
the view what they do to the state. -/
theorem run_erased {keep : Event → Bool} (view : State → State) {start last : State}
    {events : List Event} (ran : run step events start = some last)
    (silent : ∀ s event s', keep event = false → step event s = some s' → view s' = view s)
    (seen : ∀ s event s', keep event = true → step event s = some s' →
      step event (view s) = some (view s')) :
    run step (events.filter keep) (view start) = some (view last) := by
  refine run_induction
    (motive := fun done s => run step (done.filter keep) (view start) = some (view s)) ran rfl ?_
  intro done s event s' held stepped
  rw [List.filter_append]
  cases kept : keep event with
  | false =>
    rw [List.filter_cons_of_neg (by rw [kept]; decide), List.filter_nil, List.append_nil,
      silent s event s' kept stepped]
    exact held
  | true =>
    rw [List.filter_cons_of_pos kept, List.filter_nil, run_concat_eq_some_iff]
    exact ⟨view s, held, seen s event s' kept stepped⟩

/-- A run without end. -/
structure Execution (step : Event → State → Option State) where
  state : Nat → State
  event : Nat → Event
  next : ∀ n, step (event n) (state n) = some (state (n + 1))

/-- Every state of an execution is the last one of a run. -/
theorem Execution.run_range (execution : Execution step) (n : Nat) :
    run step ((List.range n).map execution.event) (execution.state 0) =
      some (execution.state n) := by
  induction n with
  | zero => rfl
  | succ n ih =>
    rw [List.range_succ, List.map_append, List.map_singleton, run_concat_eq_some_iff]
    exact ⟨execution.state n, ih, execution.next n⟩

section Completion
variable {start last : State} {events : List Event} {idle : Event}

/-- The first events of a run that goes on with one event for ever. -/
def padded (events : List Event) (idle : Event) (n : Nat) : List Event :=
  events.take n ++ List.replicate (n - events.length) idle

theorem padded_succ (events : List Event) (idle : Event) (n : Nat) :
    padded events idle (n + 1) = padded events idle n ++ [events[n]?.getD idle] := by
  unfold padded
  by_cases inside : n < events.length
  · rw [Nat.sub_eq_zero_of_le inside, Nat.sub_eq_zero_of_le inside.le, List.take_add_one]
    simp [List.getElem?_eq_getElem inside]
  · have beyond : events.length ≤ n := not_lt.mp inside
    rw [List.take_of_length_le beyond, List.take_of_length_le (Nat.le_succ_of_le beyond),
      Nat.succ_sub beyond, List.replicate_succ', List.getElem?_eq_none beyond, List.append_assoc]
    rfl

theorem run_padded_isSome (ran : run step events start = some last)
    (always : ∀ s, (step idle s).isSome) (n : Nat) :
    (run step (padded events idle n) start).isSome := by
  induction n with
  | zero => simp [padded, run]
  | succ n ih =>
    by_cases inside : n < events.length
    · -- a beginning of the run that ends with `last`
      have split : run step (events.take (n + 1) ++ events.drop (n + 1)) start = some last := by
        rw [List.take_append_drop]
        exact ran
      rw [run_append, Option.bind_eq_some_iff] at split
      obtain ⟨between, before, -⟩ := split
      rw [padded, Nat.sub_eq_zero_of_le inside, List.replicate_zero, List.append_nil, before]
      rfl
    · obtain ⟨s, reached⟩ := Option.isSome_iff_exists.mp ih
      rw [padded_succ, List.getElem?_eq_none (not_lt.mp inside), run_append, reached]
      obtain ⟨s', stepped⟩ := Option.isSome_iff_exists.mp (always s)
      simp [run, stepped]

/-- A finite run, and one event that can always happen for ever after. -/
def Execution.complete (ran : run step events start = some last)
    (always : ∀ s, (step idle s).isSome) : Execution step where
  state n := (run step (padded events idle n) start).get (run_padded_isSome ran always n)
  event n := events[n]?.getD idle
  next := by
    intro n
    obtain ⟨s, reached⟩ := Option.isSome_iff_exists.mp (run_padded_isSome ran always n)
    obtain ⟨s', reached'⟩ := Option.isSome_iff_exists.mp (run_padded_isSome ran always (n + 1))
    have further := reached'
    rw [padded_succ, run_concat_eq_some_iff] at further
    obtain ⟨between, before, stepped⟩ := further
    simp only [reached, reached', Option.get_some]
    rw [reached] at before
    rw [Option.some.inj before]
    exact stepped

theorem Execution.complete_state (ran : run step events start = some last)
    (always : ∀ s, (step idle s).isSome) (n : Nat) :
    run step (padded events idle n) start = some ((Execution.complete ran always).state n) :=
  (Option.some_get _).symm

theorem Execution.complete_start (ran : run step events start = some last)
    (always : ∀ s, (step idle s).isSome) : (Execution.complete ran always).state 0 = start := by
  have none := Execution.complete_state ran always 0
  rw [padded, List.take_zero, Nat.zero_sub, List.replicate_zero, List.append_nil] at none
  exact (Option.some.inj none).symm

theorem Execution.complete_last (ran : run step events start = some last)
    (always : ∀ s, (step idle s).isSome) :
    (Execution.complete ran always).state events.length = last := by
  have whole := Execution.complete_state ran always events.length
  rw [padded, List.take_length, Nat.sub_self, List.replicate_zero, List.append_nil, ran] at whole
  exact (Option.some.inj whole).symm

theorem Execution.complete_idle (ran : run step events start = some last)
    (always : ∀ s, (step idle s).isSome) {n : Nat} (beyond : events.length ≤ n) :
    (Execution.complete ran always).event n = idle := by
  simp [Execution.complete, List.getElem?_eq_none beyond]

/-- What the one event keeps holds for ever after. -/
theorem Execution.complete_invariant {motive : State → Prop}
    (ran : run step events start = some last) (always : ∀ s, (step idle s).isSome)
    (holds : motive last) (kept : ∀ s s', motive s → step idle s = some s' → motive s')
    {n : Nat} (beyond : events.length ≤ n) : motive ((Execution.complete ran always).state n) := by
  induction n, beyond using Nat.le_induction with
  | base =>
    rw [Execution.complete_last]
    exact holds
  | succ n beyond ih =>
    have stepped := (Execution.complete ran always).next n
    rw [Execution.complete_idle ran always beyond] at stepped
    exact kept _ _ ih stepped

end Completion

section Progress
variable {Rank : Type} {lower : Rank → Rank → Prop}

/-- A wait lasts, at the same rank, until an event helps. -/
theorem Execution.waits_until (execution : Execution step) {waits : State → Rank → Prop}
    {helpful : Event → Prop}
    (kept : ∀ event s s' rank, waits s rank → step event s = some s' → ¬ helpful event →
      waits s' rank)
    {n : Nat} {rank : Rank} (waiting : waits (execution.state n) rank) (delay : Nat)
    (unhelpful : ∀ k < delay, ¬ helpful (execution.event (n + k))) :
    waits (execution.state (n + delay)) rank := by
  induction delay with
  | zero => exact waiting
  | succ delay ih =>
    have still := ih (fun k below => unhelpful k (Nat.lt_succ_of_lt below))
    exact kept _ _ _ rank still (execution.next (n + delay))
      (unhelpful delay (Nat.lt_succ_self delay))

/-- A wait whose rank falls with each helpful event, and cannot fall without end, is
left, if while it lasts some event helps again and again. -/
theorem Execution.leaves (execution : Execution step) (waits : State → Rank → Prop)
    (helpful : Event → Prop) (left : State → Prop)
    (kept : ∀ event s s' rank, waits s rank → step event s = some s' → ¬ helpful event →
      waits s' rank)
    (falls : ∀ event s s' rank, waits s rank → step event s = some s' → helpful event →
      left s' ∨ ∃ rank', lower rank' rank ∧ waits s' rank')
    (fair : ∀ n, (∀ m, n ≤ m → ∃ rank, waits (execution.state m) rank) →
      ∃ m, n ≤ m ∧ helpful (execution.event m))
    {n : Nat} {rank : Rank} (bottomed : Acc lower rank)
    (waiting : waits (execution.state n) rank) : ∃ m, n < m ∧ left (execution.state m) := by
  classical
  induction bottomed generalizing n with
  | intro rank _ ih =>
    have helped : ∃ k, helpful (execution.event (n + k)) := by
      by_contra never
      push Not at never
      obtain ⟨m, later, helps⟩ := fair n (fun m later => by
        obtain ⟨delay, rfl⟩ := Nat.exists_eq_add_of_le later
        exact ⟨rank, execution.waits_until kept waiting delay (fun k _ => never k)⟩)
      obtain ⟨k, rfl⟩ := Nat.exists_eq_add_of_le later
      exact never k helps
    -- the first helpful event finds the wait at its old rank
    have still := execution.waits_until kept waiting (Nat.find helped)
      (fun k below => Nat.find_min helped below)
    rcases falls _ _ _ rank still (execution.next _) (Nat.find_spec helped) with
      gone | ⟨rank', less, waiting'⟩
    · exact ⟨n + Nat.find helped + 1, by omega, gone⟩
    · obtain ⟨m, later, gone⟩ := ih rank' less waiting'
      exact ⟨m, by omega, gone⟩

end Progress
end Restio.Lib.EventMachine
