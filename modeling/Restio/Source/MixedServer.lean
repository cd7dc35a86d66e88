import Restio.Source.StoreHistory
import Restio.Source.VersionRoutes

/-!
# Raw routes and APIs on one server

`HttpServer::route` and `RestHandler::registerAPI` in any order on one server. Every
registration adds one route, a raw handler's or the closure of a version; an API also
enters the handler's map. `registerAPI` adds its route first, so when an assertion of
`buildParser` fails the process is gone with the route already added.

As long as no raw route lies under `api`, the two kinds are independent: lookup asks
the APIs first and then the raw routes, each as if alone (`Composed.lookup`).
-/

set_option autoImplicit false

namespace Restio.Source.MixedServer
open Restio.Lib Restio.Source.Http Restio.Source.ApiMapper Restio.Source.HandlerStore
open Restio.Source.RestHandler

variable {J H R : Type}

/-- What a route holds: a handler given to `route`, or `registerAPI`'s closure. -/
inductive Endpoint (R : Type) where
  | raw (handler : R)
  | api (closure : OnRequest)

inductive Registration (J H R : Type) where
  | route (method : Verb) (path : Str) (handler : R)
  | registerAPI (api : API J H)

structure Server (J H R : Type) where
  handlers : HttpHandlerStore (Endpoint R)
  apis : FiniteMap Int (API J H)

/-- The route that a registration adds. -/
def Registration.op : Registration J H R → Op (Endpoint R)
  | .route method path handler => .add method path (.raw handler)
  | .registerAPI api => .add .unknown (RestServer.apiPath api.version) (.api ⟨api.version⟩)

/-- The raw route among the registrations, or none. -/
def Registration.rawOp : Registration J H R → Option (Op R)
  | .route method path handler => some (.add method path handler)
  | .registerAPI _ => none

def Registration.api? : Registration J H R → Option (API J H)
  | .route _ _ _ => none
  | .registerAPI api => some api

namespace Server

def new (base_path : Str) : Server J H R := ⟨HttpHandlerStore.new base_path, []⟩

def register (server : Server J H R) (registration : Registration J H R) :
    Except Fault (Server J H R) :=
  let handlers := server.handlers.apply registration.op
  match registration with
  | .route _ _ _ => .ok { server with handlers := handlers }
  | .registerAPI api =>
      api.buildParser.map (fun built => ⟨handlers, server.apis.insert api.version built⟩)

def registerAll (base_path : Str) (registrations : List (Registration J H R)) :
    Except Fault (Server J H R) :=
  registrations.foldlM register (new base_path)

/-- The server routes the request to a raw handler. -/
def isRaw (server : Server J H R) (request : Request) : Bool :=
  match server.handlers.lookup request with
  | some (_, .raw _) => true
  | _ => false

end Server

/-- No raw route lies under the APIs' common first segment. -/
def Apart (registrations : List (Registration J H R)) : Prop :=
  ∀ method path handler, Registration.route method path handler ∈ registrations →
    (addRoute path).head? ≠ some "api".toList

/-- A server composed of one with the APIs and of a store with the raw routes. -/
structure Composed (server : Server J H R) (rest : RestServer J H)
    (raw : HttpHandlerStore R) : Prop where
  apis : server.apis = rest.apis
  base : server.handlers.base_path = rest.handlers.base_path
  base' : server.handlers.base_path = raw.base_path
  under : ∀ route verb, route.head? ≠ some "api".toList → rest.handlers.entry route verb = none
  beside : ∀ route verb, route.head? = some "api".toList → raw.entry route verb = none
  entry : ∀ route verb, server.handlers.entry route verb =
    ((rest.handlers.entry route verb).map Endpoint.api).or
      ((raw.entry route verb).map Endpoint.raw)

section Registrations
variable {server : Server J H R} {rest : RestServer J H} {raw : HttpHandlerStore R}

theorem Composed.new (base_path : Str) :
    Composed (Server.new base_path : Server J H R) (RestServer.new base_path)
      (HttpHandlerStore.new base_path) where
  apis := rfl
  base := rfl
  base' := rfl
  under := fun route verb _ => HttpHandlerStore.entry_new base_path route verb
  beside := fun route verb _ => HttpHandlerStore.entry_new base_path route verb
  entry := by
    intro route verb
    rw [Server.new, RestServer.new]
    simp

theorem Composed.route (composed : Composed server rest raw) (method : Verb) {path : Str}
    (handler : R) (apart : (addRoute path).head? ≠ some "api".toList) :
    Composed { server with handlers := server.handlers.add method path (.raw handler) } rest
      (raw.add method path handler) where
  apis := composed.apis
  base := composed.base
  base' := composed.base'
  under := composed.under
  beside := by
    intro route verb head
    rw [HttpHandlerStore.entry_add]
    split
    · rename_i own
      rw [own.1] at head
      exact absurd head apart
    · exact composed.beside route verb head
  entry := by
    intro route verb
    rw [HttpHandlerStore.entry_add, HttpHandlerStore.entry_add]
    split
    · rename_i own
      rw [composed.under route verb (by rw [own.1]; exact apart)]
      rfl
    · exact composed.entry route verb

theorem head_addRoute_apiPath (version : Int) :
    (addRoute (RestServer.apiPath version)).head? = some "api".toList := by
  rw [addRoute_apiPath]
  rfl

theorem Composed.registerAPI (composed : Composed server rest raw) (api built : API J H) :
    Composed
      ⟨server.handlers.add .unknown (RestServer.apiPath api.version) (.api ⟨api.version⟩),
        server.apis.insert api.version built⟩
      ⟨rest.handlers.add .unknown (RestServer.apiPath api.version) ⟨api.version⟩,
        rest.apis.insert api.version built⟩ raw where
  apis := by rw [composed.apis]
  base := composed.base
  base' := composed.base'
  under := by
    intro route verb other
    rw [HttpHandlerStore.entry_add]
    split
    · rename_i own
      rw [own.1] at other
      exact absurd (head_addRoute_apiPath api.version) other
    · exact composed.under route verb other
  beside := composed.beside
  entry := by
    intro route verb
    rw [HttpHandlerStore.entry_add, HttpHandlerStore.entry_add]
    split
    · rfl
    · exact composed.entry route verb

/-- The same histories on a server with both kinds of routes and on two servers with one
kind each; they go down together. -/
theorem Composed.registerAll (registrations : List (Registration J H R)) :
    ∀ {server : Server J H R} {rest : RestServer J H} {raw : HttpHandlerStore R},
      Composed server rest raw → Apart registrations →
      match (registrations.filterMap Registration.api?).foldlM RestServer.registerAPI rest with
      | .error fault => registrations.foldlM Server.register server = .error fault
      | .ok rest' => ∃ server', registrations.foldlM Server.register server = .ok server' ∧
          Composed server' rest'
            ((registrations.filterMap Registration.rawOp).foldl HttpHandlerStore.apply raw) := by
  induction registrations with
  | nil => exact fun composed _ => ⟨_, rfl, composed⟩
  | cons registration registrations ih =>
    intro server rest raw composed apart
    have apart' : Apart registrations := fun method path handler member =>
      apart method path handler (List.mem_cons_of_mem _ member)
    cases registration with
    | route method path handler =>
      exact ih (composed.route method handler (apart method path handler List.mem_cons_self)) apart'
    | registerAPI api =>
      rw [List.filterMap_cons_some (by rfl), List.foldlM_cons, List.foldlM_cons, Server.register,
        RestServer.registerAPI]
      cases ran : api.buildParser with
      | error fault => rfl
      | ok built => exact ih (composed.registerAPI api built) apart'

/-- The routes are those of the registrations' operations. -/
theorem register_handlers {server' : Server J H R} {registration : Registration J H R}
    (registered : server.register registration = .ok server') :
    server'.handlers = server.handlers.apply registration.op := by
  cases registration with
  | route method path handler =>
    cases registered
    rfl
  | registerAPI api =>
    simp only [Server.register] at registered
    cases ran : api.buildParser with
    | error fault =>
      rw [ran] at registered
      cases registered
    | ok built =>
      rw [ran] at registered
      cases registered
      rfl

theorem registerAll_handlers (registrations : List (Registration J H R)) :
    ∀ {server server' : Server J H R}, registrations.foldlM Server.register server = .ok server' →
      server'.handlers =
        (registrations.map Registration.op).foldl HttpHandlerStore.apply server.handlers := by
  induction registrations with
  | nil =>
    intro server server' registered
    cases registered
    rfl
  | cons registration registrations ih =>
    intro server server' registered
    rw [List.foldlM_cons] at registered
    cases first : server.register registration with
    | error fault =>
      rw [first] at registered
      cases registered
    | ok between =>
      rw [first] at registered
      rw [ih registered, register_handlers first]
      rfl

end Registrations

section Lookup
variable {server : Server J H R} {rest : RestServer J H} {raw : HttpHandlerStore R}

theorem Composed.handlerFor_under (composed : Composed server rest raw) (verb : Verb)
    {route : List Str} (head : route.head? = some "api".toList) :
    server.handlers.handlerFor verb route =
        (rest.handlers.handlerFor verb route).map Endpoint.api ∧
      raw.handlerFor verb route = none := by
  constructor <;>
    simp [HttpHandlerStore.handlerFor, composed.entry, composed.beside route _ head, Option.map_or]

theorem Composed.handlerFor_beside (composed : Composed server rest raw) (verb : Verb)
    {route : List Str} (head : route.head? ≠ some "api".toList) :
    server.handlers.handlerFor verb route = (raw.handlerFor verb route).map Endpoint.raw ∧
      rest.handlers.handlerFor verb route = none := by
  constructor <;>
    simp [HttpHandlerStore.handlerFor, composed.entry, composed.under route _ head, Option.map_or]

/-- Dispatch over routes of two kinds that differ in the first segment. -/
theorem Composed.longestMatch {τ : Type} (composed : Composed server rest raw) (verb : Verb)
    (steps : List (Str × τ)) :
    longestMatch (server.handlers.handlerFor verb) steps =
      ((longestMatch (rest.handlers.handlerFor verb) steps).map (Prod.map id Endpoint.api)).or
        ((longestMatch (raw.handlerFor verb) steps).map (Prod.map id Endpoint.raw)) := by
  have first : ∀ route, route ≠ [] → route <+: steps.map Prod.fst →
      route.head? = (steps.map Prod.fst).head? := by
    rintro route nonempty ⟨more, split⟩
    rw [← split, List.head?_append_of_ne_nil _ nonempty]
  by_cases head : (steps.map Prod.fst).head? = some "api".toList
  · have silent : Lib.longestMatch (raw.handlerFor verb) steps = none :=
      (longestMatch_eq_none_iff _ _).mpr (fun route nonempty below =>
        (composed.handlerFor_under verb ((first route nonempty below).trans head)).2)
    have own : Lib.longestMatch (server.handlers.handlerFor verb) steps = Lib.longestMatch
        (fun route => (rest.handlers.handlerFor verb route).map Endpoint.api) steps :=
      longestMatch_congr (fun route nonempty below =>
        (composed.handlerFor_under verb ((first route nonempty below).trans head)).1)
    rw [silent, own, longestMatch_map, Option.map_none, Option.or_none]
    rfl
  · have silent : Lib.longestMatch (rest.handlers.handlerFor verb) steps = none :=
      (longestMatch_eq_none_iff _ _).mpr (fun route nonempty below =>
        (composed.handlerFor_beside verb
          (fun same => head ((first route nonempty below).symm.trans same))).2)
    have own : Lib.longestMatch (server.handlers.handlerFor verb) steps = Lib.longestMatch
        (fun route => (raw.handlerFor verb route).map Endpoint.raw) steps :=
      longestMatch_congr (fun route nonempty below =>
        (composed.handlerFor_beside verb
          (fun same => head ((first route nonempty below).symm.trans same))).1)
    rw [silent, own, longestMatch_map, Option.map_none, Option.none_or]
    rfl

/-- The APIs are asked first, the raw routes else. -/
theorem Composed.lookup (composed : Composed server rest raw) (req : Request) :
    server.handlers.lookup req =
      ((rest.handlers.lookup req).map (Prod.map id Endpoint.api)).or
        ((raw.lookup req).map (Prod.map id Endpoint.raw)) := by
  have left : rest.handlers.remainder req = server.handlers.remainder req := by
    rw [HttpHandlerStore.remainder, HttpHandlerStore.remainder, composed.base]
  have left' : raw.remainder req = server.handlers.remainder req := by
    rw [HttpHandlerStore.remainder, HttpHandlerStore.remainder, composed.base']
  have notApi : ([[]] : List Str).head? ≠ some "api".toList := by decide
  obtain ⟨root, noRoot⟩ := composed.handlerFor_beside req.method notApi
  rw [HttpHandlerStore.lookup_eq, HttpHandlerStore.lookup_eq, HttpHandlerStore.lookup_eq, left,
    left', ← composed.base, ← composed.base', composed.longestMatch, root, noRoot]
  split
  · rfl
  · rw [Option.map_none, ite_self, Option.or_none, Option.map_or, Option.or_assoc]
    congr 2
    split
    · rfl
    · rw [Option.map_map, Option.map_map]
      rfl

end Lookup
end Restio.Source.MixedServer
