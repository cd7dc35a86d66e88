import Restio.Guarantees.KeepAlive
import Restio.Source.RestHandler

/-!
# Repeated calls of `makeOkResponse`

The branch of `makeOkResponse` for an empty body sets the status only. After a
call with a body it leaves that body and its Content-Type behind a 204, which
`prepare_payload` refuses outside of the handler's `try` block: the session ends
without a response (`empty_call_keeps_body`). `last_call_wins_iff` says which
sequences of calls amount to their last one.

Of Beast it is assumed that `prepare_payload` throws exactly for a non-empty body
behind a status that forbids one.
-/

set_option autoImplicit false

namespace Restio.Guarantees.OkResponse
open Restio.Source.Http Restio.Source.HttpServer Restio.Source.RestHandler
open Restio.Guarantees.KeepAlive

/-- A body and a content type. -/
abbrev OkCall := Str × Str

def okCalls (response : Response) (calls : List OkCall) : Response :=
  calls.foldl (fun response call => makeOkResponse response call.1 call.2) response

def contentType (response : Response) : Option Str :=
  (response.fields.find? (fun field => sameField field.1 Field.content_type)).map Prod.snd

/-- The calls leave what the last one alone leaves of the prepared response, no body
behind a 204, and a session answers with it. -/
structure LastCallWins (beast : Beast) (request : Request) (calls : List OkCall)
    (last : OkCall) : Prop where
  result : (okCalls (freshResponse request) (calls ++ [last])).result =
    (okCalls (freshResponse request) [last]).result
  body : (okCalls (freshResponse request) (calls ++ [last])).body =
    (okCalls (freshResponse request) [last]).body
  content_type : contentType (okCalls (freshResponse request) (calls ++ [last])) =
    contentType (okCalls (freshResponse request) [last])
  noBody : (okCalls (freshResponse request) (calls ++ [last])).result = Status.no_content →
    (okCalls (freshResponse request) (calls ++ [last])).body = []
  answered : ∀ (server : HttpServerPrivate) (session : Session) (turn : Turn) (turns : List Turn)
    tail handler, turn.read = some request → server.handlers.lookup request = some (tail, handler) →
      (handler tail request (freshResponse request)).exit = .returned →
        (handler tail request (freshResponse request)).response =
          okCalls (freshResponse request) (calls ++ [last]) →
            (sessionLoop beast server session (turn :: turns)).2.written ≠ []

section Calls
variable {response : Response}

theorem okCalls_concat (calls : List OkCall) (call : OkCall) :
    okCalls response (calls ++ [call]) = makeOkResponse (okCalls response calls) call.1 call.2 := by
  rw [okCalls, List.foldl_append]
  rfl

theorem makeOkResponse_full {body : Str} (nonempty : body ≠ []) (type : Str) :
    makeOkResponse response body type =
      { ({ response with result := Status.ok } : Response).set Field.content_type type with
        body := body } :=
  if_pos (by simpa using nonempty)

theorem makeOkResponse_empty (type : Str) :
    makeOkResponse response [] type = { response with result := Status.no_content } := rfl

/-- After a call with a body the Content-Type is that call's. -/
theorem contentType_set (type : Str) :
    contentType (response.set Field.content_type type) = some type := by
  have dropped : (response.fields.filter
      (fun field => !sameField field.1 Field.content_type)).find?
        (fun field => sameField field.1 Field.content_type) = none := by
    rw [List.find?_eq_none]
    intro field member
    have other := List.of_mem_filter member
    simpa using other
  have own : sameField Field.content_type Field.content_type = true := beq_self_eq_true _
  unfold contentType Response.set
  simp only [List.find?_append, dropped, Option.none_or, List.find?_cons, own, Option.map_some]

/-- Calls with empty bodies change the status only. -/
theorem okCalls_empty {calls : List OkCall} (empty : ∀ call ∈ calls, call.1 = []) :
    (okCalls response calls).body = response.body ∧
      (okCalls response calls).fields = response.fields := by
  induction calls using List.reverseRecOn with
  | nil => exact ⟨rfl, rfl⟩
  | append_singleton calls call ih =>
    rw [okCalls_concat, empty call (List.mem_append_right _ List.mem_cons_self),
      makeOkResponse_empty]
    exact ih (fun other member => empty other (List.mem_append_left _ member))

/-- The body is empty after calls only when it was and all their bodies are. -/
theorem okCalls_body_eq_nil {calls : List OkCall} (none : (okCalls response calls).body = []) :
    ∀ call ∈ calls, call.1 = [] := by
  induction calls using List.reverseRecOn with
  | nil => simp
  | append_singleton calls call ih =>
    rw [okCalls_concat] at none
    have empty : call.1 = [] := by
      by_contra nonempty
      rw [makeOkResponse_full nonempty] at none
      exact nonempty none
    rw [empty, makeOkResponse_empty] at none
    intro other member
    rcases List.mem_append.mp member with earlier | last
    · exact ih none other earlier
    · rw [List.mem_singleton.mp last]
      exact empty

end Calls

/-- With a body in the last call, or in none, the response is as after the last
call alone, and it has a status that allows a body or no body. -/
theorem okCalls_last (request : Request) {calls : List OkCall} {last : OkCall}
    (condition : last.1 ≠ [] ∨ ∀ call ∈ calls, call.1 = []) :
    let all := okCalls (freshResponse request) (calls ++ [last])
    let alone := okCalls (freshResponse request) [last]
    (all.result = alone.result ∧ all.body = alone.body ∧ contentType all = contentType alone) ∧
      (all.result = Status.ok ∨ all.body = []) := by
  have single : okCalls (freshResponse request) [last] =
      makeOkResponse (freshResponse request) last.1 last.2 := rfl
  intro all alone
  subst all alone
  rw [okCalls_concat, single]
  by_cases full : last.1 = []
  · obtain ⟨body, fields⟩ : (okCalls (freshResponse request) calls).body = [] ∧
        (okCalls (freshResponse request) calls).fields = (freshResponse request).fields :=
      okCalls_empty (condition.resolve_left (not_not.mpr full))
    rw [full, makeOkResponse_empty, makeOkResponse_empty]
    refine ⟨⟨rfl, body, ?_⟩, Or.inr body⟩
    unfold contentType
    rw [fields]
  · rw [makeOkResponse_full full, makeOkResponse_full full]
    refine ⟨⟨rfl, rfl, ?_⟩, Or.inl rfl⟩
    exact (contentType_set last.2).trans (contentType_set last.2).symm

/-- A round whose handler's response can be prepared writes a response. -/
theorem written_of_prepared {beast : Beast} {server : HttpServerPrivate} {request : Request}
    {tail : Str} {handler : RequestHandler} (session : Session) {turn : Turn} (turns : List Turn)
    (read : turn.read = some request)
    (routed : server.handlers.lookup request = some (tail, handler))
    (returned : (handler tail request (freshResponse request)).exit = .returned)
    (accepted : (beast.prepare_payload
      (handler tail request (freshResponse request)).response).isSome) :
    (sessionLoop beast server session (turn :: turns)).2.written ≠ [] := by
  obtain ⟨message, prepared⟩ := Option.isSome_iff_exists.mp accepted
  have left : beast.prepare_payload
      (server.processRequest request (freshResponse request)).2.2 = some message := by
    rw [HttpServerPrivate.processRequest_routed routed, returned]
    exact prepared
  rw [sessionLoop_answered session turn turns read left]
  split <;> simp

/-- The last of a sequence of calls wins, and the response is sent, if and only if
it has a body or none of the earlier calls has one. -/
theorem last_call_wins_iff (beast : Beast)
    (throws : ∀ response, beast.prepare_payload response = none ↔
      BodyForbidden response.result ∧ response.body ≠ [])
    (request : Request) (calls : List OkCall) (last : OkCall) :
    LastCallWins beast request calls last ↔ last.1 ≠ [] ∨ ∀ call ∈ calls, call.1 = [] := by
  constructor
  · intro wins
    by_contra neither
    rw [not_or, not_not] at neither
    obtain ⟨empty, some_body⟩ := neither
    have noBody := wins.noBody
    rw [okCalls_concat, empty, makeOkResponse_empty] at noBody
    exact some_body (okCalls_body_eq_nil (noBody rfl))
  · intro condition
    obtain ⟨⟨result, body, type⟩, sendable⟩ := okCalls_last request condition
    refine ⟨result, body, type, ?_, ?_⟩
    · intro noContent
      rcases sendable with ok | empty
      · exact absurd (ok.symm.trans noContent) (by decide)
      · exact empty
    · intro server session turn turns tail handler read routed returned left
      refine written_of_prepared session turns read routed returned ?_
      rw [left, Option.isSome_iff_ne_none, ne_eq, throws]
      intro ⟨forbidden, some_body⟩
      rcases sendable with ok | empty
      · rw [ok] at forbidden
        revert forbidden
        decide
      · exact some_body empty

theorem lengthBeast_throws (response : Response) : lengthBeast.prepare_payload response = none ↔
    BodyForbidden response.result ∧ response.body ≠ [] := by
  change setLength response = none ↔ _
  unfold setLength
  split
  · rename_i forbidden
    split <;> simp_all
  · rename_i allowed
    simp [allowed]

/-- A second call with another body replaces the first. -/
theorem second_body_wins :
    LastCallWins lengthBeast {} [("old".toList, "text/plain".toList)]
      ("new".toList, "text/html".toList) :=
  (last_call_wins_iff lengthBeast lengthBeast_throws {} [("old".toList, "text/plain".toList)]
    ("new".toList, "text/html".toList)).mpr (Or.inl (by decide))

/-- A call without a body keeps the body of the call before it behind the 204. -/
theorem empty_call_keeps_body :
    ¬ LastCallWins lengthBeast {} [("x".toList, "text/plain".toList)]
      ([], "text/plain".toList) := by
  intro wins
  exact absurd wins.body (by decide)

end Restio.Guarantees.OkResponse
