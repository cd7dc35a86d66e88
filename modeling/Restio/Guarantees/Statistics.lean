import Mathlib.Data.Nat.ModEq
import Restio.Source.Interleaving

/-!
# Statistics under interleaving

`takeStats` resets the counters between the start of a request and the end of its
handler, so a single snapshot can show more exceptions than requests. What is
conserved is the sum over all snapshots and the current counters: modulo 2^32 it
is the number of requests started, of unroutable ones and of exceptions, in every
reachable state (`stats_conserved`). The invariant behind it accounts for every
started request once: unroutable, ended by an exception, returned or in flight.
-/

set_option autoImplicit false

namespace Restio.Guarantees.Statistics
open Restio.Source.Http Restio.Source.HandlerStore Restio.Source.HttpServer
open Restio.Source.Interleaving

/-- A counter summed over all snapshots taken and the counters as they are. -/
def total (counter : Stats → UInt32) (w : World) : Nat :=
  (w.snapshots.map (fun snapshot => (counter snapshot).toNat)).sum +
    (counter w.server.stats).toNat

/-- The sums are the true counts, and each started request has one outcome. -/
structure Accounted (w : World) : Prop where
  requests : total Stats.requests w ≡ w.started [MOD 2 ^ 32]
  unknown : total Stats.unknown_requests w ≡ w.unroutable.length [MOD 2 ^ 32]
  exceptions : total Stats.exceptions w ≡ w.threw.length [MOD 2 ^ 32]
  outcomes : (w.unroutable ++ w.threw ++ w.returned ++ w.inFlight).Perm (List.range w.started)

section Counting

/-- Incrementing a counter adds one to its sum, modulo the counter's range. -/
theorem total_increment {counter : Stats → UInt32} {w w' : World} {count : Nat}
    (snapshots : w'.snapshots = w.snapshots)
    (incremented : counter w'.server.stats = counter w.server.stats + 1)
    (conserved : total counter w ≡ count [MOD 2 ^ 32]) :
    total counter w' ≡ count + 1 [MOD 2 ^ 32] := by
  have wrapped : (counter w.server.stats + 1).toNat ≡
      (counter w.server.stats).toNat + 1 [MOD 2 ^ 32] := by
    rw [UInt32.toNat_add]
    exact Nat.mod_modEq _ _
  have sum := (wrapped.add_left
    (w.snapshots.map (fun snapshot => (counter snapshot).toNat)).sum)
  rw [← Nat.add_assoc] at sum
  unfold total at conserved ⊢
  rw [snapshots, incremented]
  exact sum.trans (conserved.add_right 1)

theorem total_unchanged {counter : Stats → UInt32} {w w' : World} {count : Nat}
    (snapshots : w'.snapshots = w.snapshots)
    (same : counter w'.server.stats = counter w.server.stats)
    (conserved : total counter w ≡ count [MOD 2 ^ 32]) :
    total counter w' ≡ count [MOD 2 ^ 32] := by
  unfold total at conserved ⊢
  rw [snapshots, same]
  exact conserved

/-- A snapshot moves the current count into the sum. -/
theorem total_takeStats {counter : Stats → UInt32} (fresh : counter {} = 0) (w : World) :
    total counter { w with
        server := w.server.takeStats.2
        snapshots := w.server.takeStats.1 :: w.snapshots } = total counter w := by
  unfold total HttpServerPrivate.takeStats
  simp only [List.map_cons, List.sum_cons, fresh, UInt32.toNat_zero]
  omega

/-- A number moved out of one list into the front of the others. -/
theorem perm_moved {others inFlight : List Nat} {all : List Nat} {id : Nat}
    (running : id ∈ inFlight) (perm : (others ++ inFlight).Perm all) :
    (id :: others ++ inFlight.erase id).Perm all := by
  have out : (others ++ inFlight).Perm (others ++ id :: inFlight.erase id) :=
    (List.perm_cons_erase running).append_left others
  exact (List.perm_middle.symm.trans out.symm).trans perm

/-- The next number put in front. -/
theorem perm_next {others : List Nat} {count : Nat} (perm : others.Perm (List.range count)) :
    (count :: others).Perm (List.range (count + 1)) := by
  rw [List.range_succ]
  exact (perm.cons count).trans (List.perm_append_singleton count (List.range count)).symm

end Counting

section Starting
variable {server server' : HttpServerPrivate} {request : Request} {response : Response}

/-- An unroutable request counts as a request and as unknown. -/
theorem unrouted_stats {response' : Response}
    (started : server.startRequest request response = (server', .inl response')) :
    server'.stats.requests = server.stats.requests + 1 ∧
      server'.stats.unknown_requests = server.stats.unknown_requests + 1 ∧
      server'.stats.exceptions = server.stats.exceptions := by
  cases looked : server.handlers.lookup request with
  | none =>
    rw [HttpServerPrivate.startRequest_unrouted looked] at started
    rw [← (Prod.mk.inj started).1]
    exact ⟨rfl, rfl, rfl⟩
  | some found =>
    rw [HttpServerPrivate.startRequest_routed looked] at started
    cases (Prod.mk.inj started).2

/-- A request that is routed counts as a request. -/
theorem routed_stats {found : Str × RequestHandler}
    (started : server.startRequest request response = (server', .inr found)) :
    server'.stats.requests = server.stats.requests + 1 ∧
      server'.stats.unknown_requests = server.stats.unknown_requests ∧
      server'.stats.exceptions = server.stats.exceptions := by
  cases looked : server.handlers.lookup request with
  | none =>
    rw [HttpServerPrivate.startRequest_unrouted looked] at started
    cases (Prod.mk.inj started).2
  | some found =>
    rw [HttpServerPrivate.startRequest_routed looked] at started
    rw [← (Prod.mk.inj started).1]
    exact ⟨rfl, rfl, rfl⟩

end Starting

theorem accounted_start (handlers : HttpHandlerStore RequestHandler) :
    Accounted (World.start handlers) :=
  ⟨rfl, rfl, rfl, .refl _⟩

/-- Every step keeps the account. -/
theorem Accounted.step {w w' : World} (accounted : Accounted w) (step : Step w w') :
    Accounted w' := by
  obtain ⟨requests, unknown, exceptions, outcomes⟩ := accounted
  cases step with
  | unrouted request response response' server' started =>
    obtain ⟨counted, unknown_counted, exceptions_counted⟩ := unrouted_stats started
    have outcomes' := perm_next outcomes
    constructor
    · exact total_increment (w := w) rfl counted requests
    · exact total_increment (w := w) rfl unknown_counted unknown
    · exact total_unchanged (w := w) rfl exceptions_counted exceptions
    · exact outcomes'
  | routed request response server' found started =>
    obtain ⟨counted, unknown_counted, exceptions_counted⟩ := routed_stats started
    have outcomes' := perm_next outcomes
    constructor
    · exact total_increment (w := w) rfl counted requests
    · exact total_unchanged (w := w) rfl unknown_counted unknown
    · exact total_unchanged (w := w) rfl exceptions_counted exceptions
    · exact List.perm_middle.trans outcomes'
  | suspend id running => exact ⟨requests, unknown, exceptions, outcomes⟩
  | return_ id running response =>
    have outcomes' := perm_moved running outcomes
    refine ⟨requests, unknown, exceptions, ?_⟩
    exact (List.perm_middle.append_right _).trans outcomes'
  | throw_ id running what response =>
    have outcomes' := perm_moved running outcomes
    constructor
    · exact total_unchanged (w := w) rfl rfl requests
    · exact total_unchanged (w := w) rfl rfl unknown
    · exact total_increment (w := w) rfl rfl exceptions
    · exact ((List.perm_middle.append_right _).append_right _).trans outcomes'
  | takeStats =>
    constructor
    · rw [total_takeStats rfl]
      exact requests
    · rw [total_takeStats rfl]
      exact unknown
    · rw [total_takeStats rfl]
      exact exceptions
    · exact outcomes
  | addRoute method path handler => exact ⟨requests, unknown, exceptions, outcomes⟩

/-- Every reachable state is accounted for. -/
theorem accounted_of_reachable {handlers : HttpHandlerStore RequestHandler} {w : World}
    (reachable : Reachable handlers w) : Accounted w :=
  reachable.invariant (accounted_start handlers)
    (fun _ _ step accounted => accounted.step step)

/-- What is conserved: the sums of the counters are the true counts, a started
request counts at most once as unknown or as an exception, and so the true counts
of these are covered by the requests. -/
structure Conserved (w : World) : Prop where
  requests : total Stats.requests w ≡ w.started [MOD 2 ^ 32]
  unknown : total Stats.unknown_requests w ≡ w.unroutable.length [MOD 2 ^ 32]
  exceptions : total Stats.exceptions w ≡ w.threw.length [MOD 2 ^ 32]
  once : ∀ id, w.unroutable.count id + w.threw.count id ≤ if id < w.started then 1 else 0
  covered : w.unroutable.length + w.threw.length ≤ w.started

/-- In a list of all numbers below a bound, each stands once. -/
theorem count_le_of_perm_range {first rest : List Nat} {bound : Nat}
    (perm : (first ++ rest).Perm (List.range bound)) (id : Nat) :
    first.count id ≤ if id < bound then 1 else 0 := by
  have counts := perm.count_eq id
  rw [List.count_append, List.count_range] at counts
  omega

theorem Accounted.conserved {w : World} (accounted : Accounted w) : Conserved w := by
  obtain ⟨requests, unknown, exceptions, outcomes⟩ := accounted
  rw [List.append_assoc] at outcomes
  refine ⟨requests, unknown, exceptions, ?_, ?_⟩
  · intro id
    have once := count_le_of_perm_range outcomes id
    rw [List.count_append] at once
    exact once
  · have lengths := outcomes.length_eq
    simp only [List.length_append, List.length_range] at lengths
    omega

/-- A handler that fails behind a suspension. -/
def boom : RequestHandler := fun _ request response =>
  ⟨request, response, .threw "boom".toList⟩

def boomRoutes : HttpHandlerStore RequestHandler :=
  (HttpHandlerStore.new []).add .unknown "boom".toList boom

/-- One request, with `takeStats` called while its handler runs and after it. -/
def overdrawn : World where
  server := { handlers := boomRoutes }
  snapshots := [{ exceptions := 1 }, { requests := 1 }]
  started := 1
  threw := [0]

theorem overdrawn_reachable : Reachable boomRoutes overdrawn := by
  have routed : (boomRoutes.lookup { target := "/boom".toList }).isSome := by decide +kernel
  obtain ⟨found, looked⟩ := Option.isSome_iff_exists.mp routed
  have start := Relation.ReflTransGen.refl.tail
    (Step.routed (World.start boomRoutes) _ {} _ found
      (HttpServerPrivate.startRequest_routed looked {}))
  have during := start.tail (Step.takeStats _)
  have thrown := during.tail
    (Step.throw_ _ 0 (List.mem_singleton_self 0) "boom".toList {})
  exact thrown.tail (Step.takeStats _)

/-- In every reachable state the statistics are conserved, although some snapshot of
some run shows fewer requests than unknown ones and exceptions. -/
theorem stats_conserved :
    (∀ handlers w, Reachable handlers w → Conserved w) ∧
      ∃ handlers w, Reachable handlers w ∧ ∃ snapshot ∈ w.snapshots,
        snapshot.requests.toNat <
          snapshot.unknown_requests.toNat + snapshot.exceptions.toNat := by
  constructor
  · intro handlers w reachable
    exact (accounted_of_reachable reachable).conserved
  · refine ⟨boomRoutes, overdrawn, overdrawn_reachable, { exceptions := 1 }, ?_, ?_⟩
    · exact List.mem_cons_self
    · decide

theorem overdrawn_conserved : Conserved overdrawn :=
  stats_conserved.1 boomRoutes overdrawn overdrawn_reachable

end Restio.Guarantees.Statistics
