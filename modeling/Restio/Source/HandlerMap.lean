import Restio.Lib.ForestValues
import Restio.Source.MixedServer

/-!
# Handlers are opaque to the mapper

`buildParser`, the lookup of methods and the registrations move handlers about and
never look into them: with all handlers replaced, they do the same and come to the
same with the handlers replaced.
-/

set_option autoImplicit false

namespace Restio.Source.ApiMapper
open Restio.Lib Restio.Source.Http

variable {J H K : Type}

def Method.map (f : H → K) (m : Method J H) : Method J K :=
  ⟨m.method, m.uri, m.comment, m.inputExample, m.outputExample, m.responseStatus, f m.handler⟩

def LookupResult.map (f : H → K) (result : LookupResult J H) : LookupResult J K :=
  ⟨result.properties, result.method.map f⟩

/-- The same tree of other methods. -/
def mapRoots (f : H → K) (roots : List (ParsedNode J H)) : List (ParsedNode J K) :=
  Forest.mapValues (List.map (Method.map f)) roots

def API.map (f : H → K) (api : API J H) : API J K :=
  ⟨api.version, api.methods.map (Method.map f), mapRoots f api.roots⟩

section Parser
variable (f : H → K)

theorem addMethod_map (roots : List (ParsedNode J H)) (m : Method J H) :
    addMethod (mapRoots f roots) (m.map f) = (addMethod roots m).map (mapRoots f) := by
  have uri : (m.map f).uri = m.uri := rfl
  unfold addMethod
  rw [uri]
  cases (splitUri m.uri).mapM newNode with
  | error fault => rfl
  | ok path =>
    cases path with
    | nil => rfl
    | cons key path =>
      exact congrArg Except.ok (Forest.mapValues_map_push (Method.map f) m (key :: path) roots).symm

theorem foldlM_addMethod_map (methods : List (Method J H)) (roots : List (ParsedNode J H)) :
    (methods.map (Method.map f)).foldlM addMethod (mapRoots f roots) =
      (methods.foldlM addMethod roots).map (mapRoots f) := by
  induction methods generalizing roots with
  | nil => rfl
  | cons m methods ih =>
    rw [List.map_cons, List.foldlM_cons, List.foldlM_cons, addMethod_map]
    cases addMethod roots m with
    | error fault => rfl
    | ok roots' => exact ih roots'

theorem API.buildParser_map (api : API J H) :
    (api.map f).buildParser = api.buildParser.map (API.map f) := by
  have ran := foldlM_addMethod_map f api.methods api.roots
  unfold API.buildParser
  rw [API.map]
  simp only
  rw [ran]
  cases api.methods.foldlM addMethod api.roots <;> rfl

end Parser

section Lookup
variable (f : H → K) (verb : Verb)

theorem find_map (held : List (Method J H)) :
    (held.map (Method.map f)).find? (fun m => m.method == verb) =
      (held.find? (fun m => m.method == verb)).map (Method.map f) := by
  rw [List.find?_map]
  rfl

theorem lastSegment_map (view : Str) (nodes : List (ParsedNode J H)) :
    lastSegment verb view (mapRoots f nodes) =
      (lastSegment verb view nodes).map (Method.map f) := by
  unfold lastSegment mapRoots
  rw [Forest.mapValues_eq_map, List.foldl_map]
  rw [← Option.map_none (f := Method.map f)]
  refine List.foldl_hom (Option.map (Method.map f)) (fun result node => ?_)
  rw [Branch.mapValues_eq]
  simp only [find_map]
  cases nodeMatch node.key view with
  | false => rfl
  | true => cases node.values.find? (fun m => m.method == verb) <;> rfl

theorem lookup_helper_map (segments : List Str) (nodes : List (ParsedNode J H)) :
    lookup_helper verb segments (mapRoots f nodes) =
      (lookup_helper verb segments nodes).map (LookupResult.map f) := by
  induction segments generalizing nodes with
  | nil => rfl
  | cons view rest ih =>
    have leaf : ∀ children : List (ParsedNode J H),
        (mapRoots f children).isEmpty = children.isEmpty := by
      intro children
      rw [mapRoots, Forest.mapValues_eq_map, List.isEmpty_map]
    unfold lookup_helper
    rw [lastSegment_map, mapRoots, Forest.mapValues_eq_map, List.findSome?_map, List.map_findSome?]
    congr 1
    funext node
    simp only [Function.comp_apply, Branch.mapValues_eq]
    have below := leaf node.children
    have deeper := ih node.children
    unfold mapRoots at below deeper
    rw [below, deeper]
    split
    · rfl
    · split
      · cases lastSegment verb view nodes <;> rfl
      · cases lookup_helper verb rest node.children <;> rfl

theorem API.lookup_map (api : API J H) (target : Str) :
    (api.map f).lookup verb target = (api.lookup verb target).map (LookupResult.map f) := by
  rw [API.lookup_eq, API.lookup_eq]
  exact lookup_helper_map f verb _ api.roots

end Lookup
end Restio.Source.ApiMapper

namespace Restio.Source.RestHandler
open Restio.Lib Restio.Source.Http Restio.Source.ApiMapper

variable {J H K : Type}

def Action.map (f : H → K) : Action J H → Action J K
  | introspection api => introspection (api.map f)
  | notFound => notFound
  | call method properties => call (method.map f) properties

theorem dispatch_map (f : H → K) (apis : FiniteMap Int (API J H)) (apiVersion : Int) (verb : Verb)
    (target : Str) :
    dispatch (apis.map (API.map f)) apiVersion verb target =
      (dispatch apis apiVersion verb target).map (Action.map f) := by
  unfold dispatch
  rw [FiniteMap.find_map]
  cases apis.find apiVersion with
  | none => rfl
  | some api =>
    simp only [Option.map_some]
    split
    · rfl
    · rw [API.lookup_map]
      cases api.lookup verb target <;> rfl

/-- The page does not show the handlers. -/
theorem handleAPIIntrospection_map (f : H → K) (dump : J → Str) (api : API J H)
    (response : Response) :
    handleAPIIntrospection dump (api.map f) response =
      handleAPIIntrospection dump api response := by
  unfold handleAPIIntrospection
  simp only [API.map, List.flatMap_map]
  rfl

end Restio.Source.RestHandler

namespace Restio.Source.MixedServer
open Restio.Lib Restio.Source.Http Restio.Source.ApiMapper Restio.Source.HandlerStore
open Restio.Source.RestHandler

variable {J H K R S : Type}

def Endpoint.map (g : R → S) : Endpoint R → Endpoint S
  | raw handler => raw (g handler)
  | api closure => api closure

def Registration.map (f : H → K) (g : R → S) : Registration J H R → Registration J K S
  | route method path handler => route method path (g handler)
  | registerAPI api => registerAPI (api.map f)

section Registrations
variable (f : H → K) (g : R → S)

/-- The routes that are added are the same. -/
theorem ops_map {T : Type} (last : Endpoint S → T) (registrations : List (Registration J H R)) :
    ((registrations.map (Registration.map f g)).map Registration.op).map (Op.map last) =
      (registrations.map Registration.op).map
        (Op.map (fun endpoint => last (endpoint.map g))) := by
  simp only [List.map_map]
  refine List.map_congr_left (fun registration _ => ?_)
  cases registration <;> rfl

/-- The APIs of a server that is registered the same way. -/
theorem foldlM_register_map (registrations : List (Registration J H R)) (server : Server J H R)
    (other : Server J K S) (same : other.apis = server.apis.map (API.map f)) :
    match registrations.foldlM Server.register server with
    | .error fault =>
        (registrations.map (Registration.map f g)).foldlM Server.register other = .error fault
    | .ok server' => ∃ other',
        (registrations.map (Registration.map f g)).foldlM Server.register other = .ok other' ∧
          other'.apis = server'.apis.map (API.map f) := by
  induction registrations generalizing server other with
  | nil => exact ⟨_, rfl, same⟩
  | cons registration registrations ih =>
    rw [List.map_cons, List.foldlM_cons, List.foldlM_cons]
    cases registration with
    | route method path handler => exact ih _ _ same
    | registerAPI api =>
      have built := API.buildParser_map f api
      simp only [Registration.map, Server.register]
      rw [built]
      cases api.buildParser with
      | error fault => rfl
      | ok built' =>
        refine ih _ _ ?_
        rw [FiniteMap.map_insert, ← same]
        rfl

theorem registerAll_map {base_path : Str} {registrations : List (Registration J H R)}
    {server : Server J H R} (registered : Server.registerAll base_path registrations = .ok server) :
    ∃ other, Server.registerAll base_path (registrations.map (Registration.map f g)) = .ok other ∧
      other.apis = server.apis.map (API.map f) := by
  have both := foldlM_register_map f g registrations (Server.new base_path)
    (Server.new base_path) rfl
  unfold Server.registerAll at registered ⊢
  rw [registered] at both
  exact both

/-- And back. -/
theorem registerAll_of_map {base_path : Str} {registrations : List (Registration J H R)}
    {other : Server J K S}
    (registered : Server.registerAll base_path (registrations.map (Registration.map f g)) =
      .ok other) :
    ∃ server, Server.registerAll base_path registrations = .ok server ∧
      other.apis = server.apis.map (API.map f) := by
  have both := foldlM_register_map f g registrations (Server.new base_path)
    (Server.new base_path) rfl
  unfold Server.registerAll at registered ⊢
  cases ran : registrations.foldlM Server.register (Server.new base_path) with
  | error fault =>
    rw [ran] at both
    cases both.symm.trans registered
  | ok server =>
    rw [ran] at both
    obtain ⟨other', registered', apis⟩ := both
    cases registered'.symm.trans registered
    exact ⟨server, rfl, apis⟩

end Registrations

section Registered
variable {server : Server J H R}

/-- A version that is registered gets into the map, and none leaves it. -/
theorem find_register {server' : Server J H R} {registration : Registration J H R}
    (registered : server.register registration = .ok server') (version : Int)
    (known : (server.apis.find version).isSome ∨
      ∃ api, registration = .registerAPI api ∧ api.version = version) :
    (server'.apis.find version).isSome := by
  cases registration with
  | route method path handler =>
    cases registered
    rcases known with held | ⟨api, same, -⟩
    · exact held
    · cases same
  | registerAPI api =>
    simp only [Server.register] at registered
    cases ran : api.buildParser with
    | error fault =>
      rw [ran] at registered
      cases registered
    | ok built =>
      rw [ran] at registered
      cases registered
      rw [FiniteMap.find_insert]
      split
      · rfl
      · rename_i different
        rcases known with held | ⟨other, same, own⟩
        · exact held
        · cases same
          exact absurd own.symm different

theorem find_registered {registrations : List (Registration J H R)} :
    ∀ {server server' : Server J H R}, registrations.foldlM Server.register server = .ok server' →
      ∀ version, ((server.apis.find version).isSome ∨
          ∃ api, .registerAPI api ∈ registrations ∧ api.version = version) →
        (server'.apis.find version).isSome := by
  induction registrations with
  | nil =>
    intro server server' registered version known
    cases registered
    rcases known with held | ⟨api, member, -⟩
    · exact held
    · cases member
  | cons registration registrations ih =>
    intro server server' registered version known
    rw [List.foldlM_cons] at registered
    cases first : server.register registration with
    | error fault =>
      rw [first] at registered
      cases registered
    | ok between =>
      rw [first] at registered
      refine ih registered version ?_
      rcases known with held | ⟨api, member, same⟩
      · exact Or.inl (find_register first version (Or.inl held))
      · rcases List.mem_cons.mp member with rfl | later
        · exact Or.inl (find_register first version (Or.inr ⟨api, rfl, same⟩))
        · exact Or.inr ⟨api, later, same⟩

end Registered
end Restio.Source.MixedServer
