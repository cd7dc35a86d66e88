import Restio.Lib.Text
import Restio.Source.Demo

/-!
# What the demo service is for

A set of names that clients add to, delete from and look up, one request after the
other. A request is read as a call without any table of routes: what stands behind
`/api/v1`, split at `/`, names a resource or the greeting; `/shutdown` counts for POST
only. `Call.answer` is the service; `Reply.write` puts its answer into a response.
-/

set_option autoImplicit false

namespace Restio.Spec.Resources
open Restio.Lib Restio.Source.Http Restio.Source.HandlerStore Restio.Source.HttpServer
open Restio.Source.RestHandler Restio.Source.Demo

inductive Call where
  | add (body : Str)
  | delete (id : Str)
  | get (id : Str)
  | hello
  | page
  | shutdown
  /-- Under the API, but none of its methods. -/
  | unknown
  | unroutable
  deriving DecidableEq, Repr

/-- What follows a path in a target, if the path ends there or at `/`, `?` or `#`. -/
def behind (path target : Str) : Option Str :=
  let text := HttpHandlerStore.dropSlash target
  if path <+: text ∧ Boundary (text.drop path.length) then some (text.drop path.length) else none

/-- The call of a method of the API. -/
def Call.ofSegments (request : Request) : List Str → Call
  | [first] =>
      if request.method = .post ∧ first = "resource".toList then .add request.body
      else if request.method = .get ∧ first = "hello".toList then .hello
      else .unknown
  | [first, id] =>
      if first = "resource".toList then
        match request.method with
        | .delete_ => .delete id
        | .get => .get id
        | _ => .unknown
      else .unknown
  | _ => .unknown

def Call.of (request : Request) : Call :=
  match behind "api/v1".toList request.target with
  | some tail => if tail = [] then .page else .ofSegments request (Text.pieces '/' tail)
  | none =>
      if request.method = .post ∧ (behind "shutdown".toList request.target).isSome then .shutdown
      else .unroutable

inductive Reply where
  | message (json : Json)
  | page
  | unchanged
  | status (result : Status)
  deriving DecidableEq, Repr

def echo (text name : Str) : Reply := .message (.record "echo".toList (text ++ name))

/-- The answer to a call, and the names that there are then. -/
def Call.answer (json : Nlohmann) (names : Finset Str) : Call → Finset Str × Reply
  | .add body =>
      match json.parseName body with
      | .error _ => (names, .status Status.internal_server_error)
      | .ok name =>
          if name ∈ names then (names, .status conflict)
          else (insert name names, echo "hello ".toList name)
  | .delete id =>
      if id ∈ names then (names.erase id, .status Status.no_content)
      else (names, .status Status.not_found)
  | .get id => (names, if id ∈ names then echo "It's ".toList id else .status Status.not_found)
  | .hello => (names, echo "hello world".toList [])
  | .page => (names, .page)
  | .shutdown => (names, .unchanged)
  | .unknown => (names, .status Status.not_found)
  | .unroutable => (names, .status Status.not_found)

/-- The response that carries a reply. -/
def Reply.write (json : Nlohmann) (response : Response) : Reply → Response
  | .message content =>
      { ({ response with result := Status.ok } : Response).set Field.content_type
          "application/json; charset=utf-8".toList with
        body := json.dump content }
  | .page => handleAPIIntrospection json.dumpIndented (api json) response
  | .unchanged => response
  | .status result => { response with result := result }

/-- The names after a history of requests, and the replies given to it. -/
def serveAll (json : Nlohmann) : List (Nat × Request) → Finset Str →
    Finset Str × List (Nat × Response)
  | [], names => (names, [])
  | (id, request) :: asked, names =>
      let answered := (Call.of request).answer json names
      let response := ({ request := request } : Session).prepareResponse.response
      let others := serveAll json asked answered.1
      (others.1, (id, answered.2.write json response) :: others.2)

theorem behind_eq_some_iff (path target tail : Str) :
    behind path target = some tail ↔
      HttpHandlerStore.dropSlash target = path ++ tail ∧ Boundary tail := by
  unfold behind
  constructor
  · intro found
    simp only at found
    split at found
    · rename_i held
      obtain ⟨⟨more, split⟩, boundary⟩ := held
      rw [← split, List.drop_left] at found boundary
      cases found
      exact ⟨split.symm, boundary⟩
    · cases found
  · rintro ⟨split, boundary⟩
    simp only [split, List.drop_left, List.prefix_append, boundary, and_self, if_true]

theorem serveAll_append (json : Nlohmann) (asked more : List (Nat × Request)) (names : Finset Str) :
    (serveAll json (asked ++ more) names).1 =
      (serveAll json more (serveAll json asked names).1).1 := by
  induction asked generalizing names with
  | nil => rfl
  | cons first asked ih => exact ih _

/-- A name is lost by its deletion only. -/
theorem Call.answer_keeps {json : Nlohmann} {names : Finset Str} {name : Str} {call : Call}
    (held : name ∈ names) (other : call ≠ .delete name) :
    name ∈ (call.answer json names).1 := by
  cases call with
  | add body =>
    unfold answer
    simp only
    split
    · exact held
    · split
      · exact held
      · exact Finset.mem_insert_of_mem held
  | delete id =>
    have different : name ≠ id := fun same => other (by rw [same])
    unfold answer
    simp only
    split
    · exact Finset.mem_erase.mpr ⟨different, held⟩
    · exact held
  | _ => exact held

theorem serveAll_keeps {json : Nlohmann} {asked : List (Nat × Request)} {names : Finset Str}
    {name : Str} (held : name ∈ names)
    (others : ∀ entry ∈ asked, Call.of entry.2 ≠ .delete name) :
    name ∈ (serveAll json asked names).1 := by
  induction asked generalizing names with
  | nil => exact held
  | cons first asked ih =>
    obtain ⟨other, rest⟩ := List.forall_mem_cons.mp others
    exact ih (Call.answer_keeps held other) rest

theorem Call.mem_of_ofSegments {request : Request} {segments : List Str} {name : Str}
    (deletes : Call.ofSegments request segments = .delete name) : name ∈ segments := by
  unfold ofSegments at deletes
  split at deletes
  · split at deletes
    · cases deletes
    · split at deletes <;> cases deletes
  · split at deletes
    · split at deletes <;> cases deletes
      simp
    · cases deletes
  · cases deletes

/-- What a call deletes is a piece of its target. -/
theorem Call.mem_pieces_of_delete {request : Request} {name : Str}
    (deletes : Call.of request = .delete name) :
    ∃ tail, behind "api/v1".toList request.target = some tail ∧ name ∈ Text.pieces '/' tail := by
  unfold Call.of at deletes
  split at deletes
  · rename_i tail isApi
    split at deletes
    · cases deletes
    · exact ⟨tail, isApi, mem_of_ofSegments deletes⟩
  · split at deletes <;> cases deletes

end Restio.Spec.Resources
