import Restio.Source.MixedServer

/-!
# Raw routes and APIs do not disturb each other

`route` and `registerAPI` may be called in any order and any number of times, with
any paths, verbs, versions and URIs. If no raw route lies under `api`, the server
that results has the APIs of one where only `registerAPI` was called and routes each
request as that one does, and the rest as a server with the raw routes alone; and it
goes down with the one that only has the APIs (`registrations_compose`).

The hypothesis is needed: a raw route `api/v1` replaces the API's, or the other way.
-/

set_option autoImplicit false

namespace Restio.Guarantees.Composition
open Restio.Lib Restio.Source.Http Restio.Source.ApiMapper Restio.Source.HandlerStore
open Restio.Source.RestHandler Restio.Source.MixedServer

variable {J H R : Type}

/-- The server routes by its APIs first and by its raw routes else. -/
structure Routes (server : Server J H R) (rest : RestServer J H) (raw : HttpHandlerStore R) :
    Prop where
  apis : server.apis = rest.apis
  lookup : ∀ req, server.handlers.lookup req =
    ((rest.handlers.lookup req).map (Prod.map id Endpoint.api)).or
      ((raw.lookup req).map (Prod.map id Endpoint.raw))

/-- For every history of registrations. -/
theorem registrations_compose (base_path : Str) (registrations : List (Registration J H R))
    (apart : Apart registrations) :
    match RestServer.registerAll base_path (registrations.filterMap Registration.api?) with
    | .error fault => Server.registerAll base_path registrations = .error fault
    | .ok rest => ∃ server, Server.registerAll base_path registrations = .ok server ∧
        Routes server rest
          (HttpHandlerStore.run base_path (registrations.filterMap Registration.rawOp)) := by
  have both := Composed.registerAll registrations (Composed.new base_path) apart
  unfold RestServer.registerAll
  split
  · rename_i fault failed
    rw [failed] at both
    exact both
  · rename_i rest succeeded
    rw [succeeded] at both
    obtain ⟨server, registered, composed⟩ := both
    exact ⟨server, registered, composed.apis, composed.lookup⟩

/-- An API between two raw routes, one of them the root route. -/
def surrounded : List (Registration Unit Nat Nat) :=
  [.route .post "/shutdown".toList 0,
    .registerAPI { version := 1, methods := [⟨.get, "item".toList, [], (), (), [], 1⟩] },
    .route .unknown "".toList 2]

theorem surrounded_apart : Apart surrounded := by
  intro method path handler member
  simp only [surrounded, List.mem_cons, List.not_mem_nil, or_false, Registration.route.injEq,
    reduceCtorEq, false_or] at member
  rcases member with ⟨-, rfl, -⟩ | ⟨-, rfl, -⟩ <;> decide

theorem surrounded_composed :
    ∃ rest server, RestServer.registerAll [] (surrounded.filterMap Registration.api?) = .ok rest ∧
      Server.registerAll [] surrounded = .ok server ∧
      Routes server rest
        (HttpHandlerStore.run [] (surrounded.filterMap Registration.rawOp)) := by
  have both := registrations_compose [] surrounded surrounded_apart
  have succeeds : (RestServer.registerAll []
      (surrounded.filterMap Registration.api?)).toOption.isSome = true := by decide +kernel
  cases registered : RestServer.registerAll [] (surrounded.filterMap Registration.api?) with
  | error fault =>
    rw [registered] at succeeds
    cases succeeds
  | ok rest =>
    rw [registered] at both
    obtain ⟨server, registered', routes⟩ := both
    exact ⟨rest, server, rfl, registered', routes⟩

end Restio.Guarantees.Composition
