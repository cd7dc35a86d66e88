import Mathlib.Logic.Relation
import Restio.Source.HttpServer

/-!
# Interleaved requests

Any number of sessions on one thread: between the start of a request's handler and
its end, which the coroutine awaits, any other session may start or end a request
and `takeStats` may be called. Requests are numbered in the order they start. The
lists of numbers beside the server are a record of what happened; no step looks at
them, except that a handler ends for a request that is in flight.

What a handler does to its response and when it returns or throws is left open.
-/

set_option autoImplicit false

namespace Restio.Source.Interleaving
open Restio.Source.Http Restio.Source.HandlerStore Restio.Source.HttpServer

structure World where
  server : HttpServerPrivate
  snapshots : List Stats := []
  started : Nat := 0
  inFlight : List Nat := []
  unroutable : List Nat := []
  threw : List Nat := []
  returned : List Nat := []

/-- A server before its first request. -/
def World.start (handlers : HttpHandlerStore RequestHandler) : World :=
  { server := { handlers := handlers } }

inductive Step : World → World → Prop
  | unrouted (w : World) (request : Request) (response response' : Response)
      (server' : HttpServerPrivate)
      (started : w.server.startRequest request response = (server', .inl response')) :
      Step w { w with
        server := server'
        started := w.started + 1
        unroutable := w.started :: w.unroutable }
  | routed (w : World) (request : Request) (response : Response) (server' : HttpServerPrivate)
      (found : Str × RequestHandler)
      (started : w.server.startRequest request response = (server', .inr found)) :
      Step w { w with
        server := server'
        started := w.started + 1
        inFlight := w.started :: w.inFlight }
  | suspend (w : World) (id : Nat) (running : id ∈ w.inFlight) : Step w w
  | return_ (w : World) (id : Nat) (running : id ∈ w.inFlight) (response : Response) :
      Step w { w with
        server := (w.server.finishRequest .returned response).1
        inFlight := w.inFlight.erase id
        returned := id :: w.returned }
  | throw_ (w : World) (id : Nat) (running : id ∈ w.inFlight) (what : Str)
      (response : Response) :
      Step w { w with
        server := (w.server.finishRequest (.threw what) response).1
        inFlight := w.inFlight.erase id
        threw := id :: w.threw }
  | takeStats (w : World) :
      Step w { w with
        server := w.server.takeStats.2
        snapshots := w.server.takeStats.1 :: w.snapshots }
  | addRoute (w : World) (method : Verb) (path : Str) (handler : RequestHandler) :
      Step w { w with server := w.server.addRoute method path handler }

section Sessions

/-- A request whose handler nothing interrupts is started and finished by steps. -/
theorem processRequest_steps (w : World) (request : Request) (response : Response) :
    ∃ w', Relation.ReflTransGen Step w w' ∧
      w'.server = (w.server.processRequest request response).1 := by
  unfold HttpServerPrivate.processRequest
  cases started : w.server.startRequest request response with
  | mk server' outcome =>
    cases outcome with
    | inl response' =>
      exact ⟨_, .single (Step.unrouted w request response response' server' started), rfl⟩
    | inr found =>
      have start := Relation.ReflTransGen.single
        (Step.routed w request response server' found started)
      have running : w.started ∈ w.started :: w.inFlight := List.mem_cons_self
      let run := found.2 found.1 request response
      change ∃ w' : World, _ ∧ w'.server = (server'.finishRequest run.exit run.response).1
      cases run.exit with
      | returned => exact ⟨_, start.tail (Step.return_ _ _ running run.response), rfl⟩
      | threw what => exact ⟨_, start.tail (Step.throw_ _ _ running what run.response), rfl⟩

/-- A session that nothing interrupts is one of the interleavings. -/
theorem sessionLoop_steps (beast : Beast) (turns : List Turn) :
    ∀ (w : World) (session : Session), ∃ w', Relation.ReflTransGen Step w w' ∧
      w'.server = (sessionLoop beast w.server session turns).1 := by
  induction turns with
  | nil => exact fun w _ => ⟨w, .refl, rfl⟩
  | cons turn turns ih =>
    intro w session
    rw [sessionLoop]
    cases turn.read with
    | none => exact ⟨w, .refl, rfl⟩
    | some request =>
      obtain ⟨between, steps, processed⟩ := processRequest_steps w request
        (Session.prepareResponse { session with request := request }).response
      dsimp only
      split
      · exact ⟨between, steps, processed⟩
      · rename_i message _
        split
        · exact ⟨between, steps, processed⟩
        · obtain ⟨w', rest, ended⟩ := ih between _
          refine ⟨w', steps.trans rest, ?_⟩
          rw [ended, processed]
          rfl

end Sessions

/-- The states of any run of a server with these routes. -/
def Reachable (handlers : HttpHandlerStore RequestHandler) (w : World) : Prop :=
  Relation.ReflTransGen Step (World.start handlers) w

/-- What holds at the start and is kept by every step holds in every run. -/
theorem Reachable.invariant {handlers : HttpHandlerStore RequestHandler} {w : World}
    {motive : World → Prop} (reachable : Reachable handlers w)
    (start : motive (World.start handlers))
    (step : ∀ before after, Step before after → motive before → motive after) : motive w := by
  unfold Reachable at reachable
  induction reachable with
  | refl => exact start
  | tail _ last ih => exact step _ _ last ih

end Restio.Source.Interleaving
