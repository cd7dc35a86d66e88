import Restio.Guarantees.KeepAlive
import Restio.Source.RestHandler

/-!
# Handlers that throw

Neither of the two `catch` blocks touches more of the response than its status,
and `processRequest`'s also its reason: nothing in the sources takes back what a
handler set before it threw. So in every round of every session the response
written is the one the handler left, with status 500, as `prepare_payload` makes it:
with the body, and with all header fields but those that describe the body
(`failure_responses`). `failed_handlers_show` has a body and a header field of a
failed route and of a failed API method on the wire.

An exception of an API method is answered in `onRequest` and does not reach
`processRequest`, so the reason stays as the method left it.
-/

set_option autoImplicit false

namespace Restio.Guarantees.FailingHandler
open Restio.Lib Restio.Source.Http Restio.Source.HandlerStore Restio.Source.HttpServer
open Restio.Source.ApiMapper Restio.Source.RestHandler Restio.Guarantees.KeepAlive

/-- The handler is the route closure of a version. -/
def Serves {J : Type} (dump : J → Str) (apis : FiniteMap Int (API J Handler)) (version : Int)
    (handler : RequestHandler) : Prop :=
  ∀ target request response run,
    onRequest dump apis version target request response = .ok run →
      handler target request response = run

/-- The fields that `prepare_payload` adjusts. -/
def describesPayload (name : Str) : Bool :=
  sameField name "Content-Length".toList || sameField name "Transfer-Encoding".toList

/-- `prepare_payload` leaves the other fields alone. -/
def KeepsFields (beast : Beast) : Prop :=
  ∀ response message, beast.prepare_payload response = some message →
    ∀ field ∈ response.fields, describesPayload field.1 = false → field ∈ message.fields

/-- A response written with status 500 is the one left behind, as `prepare_payload`
makes it. -/
structure WritesFailure (beast : Beast) (left : Response) (reason : Str)
    (written : Option Response) : Prop where
  prepared : written = beast.prepare_payload
    { left with result := Status.internal_server_error, reason := reason }
  kept : ∃ message, written = some message ∧
    message.result = Status.internal_server_error ∧ message.reason = reason ∧
      message.body = left.body ∧
        ∀ field ∈ left.fields, describesPayload field.1 = false → field ∈ message.fields

/-- What the sessions of a server write for a handler that throws. -/
structure FailuresWritten (beast : Beast) (server : HttpServerPrivate) : Prop where
  /-- `processRequest`'s catch. -/
  route : ∀ turns i request tail handler what,
    i < (makeSession beast server turns).2.reads → turns[i]?.bind Turn.read = some request →
    server.handlers.lookup request = some (tail, handler) →
    (handler tail request (freshResponse request)).exit = .threw what →
      WritesFailure beast (handler tail request (freshResponse request)).response
        "Exception happened".toList (makeSession beast server turns).2.written[i]?
  /-- `onRequest`'s catch. -/
  method : ∀ (J : Type) (dump : J → Str) apis version turns i request tail handler m properties
    what,
    i < (makeSession beast server turns).2.reads → turns[i]?.bind Turn.read = some request →
    server.handlers.lookup request = some (tail, handler) → Serves dump apis version handler →
    dispatch apis version request.method tail = .ok (.call m properties) →
    (m.handler request (freshResponse request) properties).exit = .threw what →
      WritesFailure beast (m.handler request (freshResponse request) properties).response
        (m.handler request (freshResponse request) properties).response.reason
        (makeSession beast server turns).2.written[i]?

section Rounds
variable {beast : Beast} {server base : HttpServerPrivate}

/-- In each round that reads a request a session writes what that request gets
alone, and nothing when `prepare_payload` throws. -/
theorem sessionLoop_written (session : Session) (turns : List Turn)
    (same : server.handlers = base.handlers) (i : Nat) {request : Request}
    (reached : i < (sessionLoop beast server session turns).2.reads)
    (read : turns[i]?.bind Turn.read = some request) :
    (sessionLoop beast server session turns).2.written[i]? =
      beast.prepare_payload (base.processRequest request (freshResponse request)).2.2 := by
  induction turns generalizing server session i with
  | nil => cases read
  | cons turn turns ih =>
    cases first : turn.read with
    | none =>
      rw [sessionLoop_unread session turn turns first] at reached
      obtain rfl : i = 0 := Nat.lt_one_iff.mp reached
      rw [List.getElem?_cons_zero, Option.bind_some, first] at read
      cases read
    | some request' =>
      have alone : (server.processRequest request' (freshResponse request')).2 =
          (base.processRequest request' (freshResponse request')).2 :=
        HttpServerPrivate.processRequest_messages same _
      cases prepared : beast.prepare_payload
          (server.processRequest request' (freshResponse request')).2.2 with
      | none =>
        rw [sessionLoop_unprepared session turn turns first prepared] at reached ⊢
        obtain rfl : i = 0 := Nat.lt_one_iff.mp reached
        rw [List.getElem?_cons_zero, Option.bind_some, first, Option.some.injEq] at read
        rw [← read, ← alone, prepared]
        rfl
      | some message =>
        rw [sessionLoop_answered session turn turns first prepared] at reached ⊢
        cases i with
        | zero =>
          rw [List.getElem?_cons_zero, Option.bind_some, first, Option.some.injEq] at read
          rw [← read, ← alone, prepared]
          split <;> rfl
        | succ i =>
          rw [List.getElem?_cons_succ] at read
          split at reached
          · simp at reached
          · rename_i goesOn
            rw [if_neg goesOn]
            have kept : (server.processRequest request' (freshResponse request')).1.handlers =
                base.handlers := (HttpServerPrivate.processRequest_handlers _).trans same
            exact ih _ kept i (Nat.lt_of_succ_lt_succ reached) read

/-- Status 500 can always be prepared, and the rest of the response is as left. -/
theorem writesFailure_of_eq (documented : Documented beast) (keepsFields : KeepsFields beast)
    {left : Response} {reason : Str} {written : Option Response}
    (prepared : written = beast.prepare_payload
      { left with result := Status.internal_server_error, reason := reason }) :
    WritesFailure beast left reason written where
  prepared := prepared
  kept := by
    have accepted := documented.accepts
      { left with result := Status.internal_server_error, reason := reason }
      (Or.inr (by
        change ¬ BodyForbidden Status.internal_server_error
        decide))
    obtain ⟨message, done⟩ := Option.isSome_iff_exists.mp accepted
    obtain ⟨result, ownReason, body⟩ := documented.keeps _ _ done
    have fields := keepsFields _ _ done
    exact ⟨message, prepared.trans done, result, ownReason, body, fields⟩

end Rounds

/-- In every round of every session whose handler throws, the response written is
the one the handler left with status 500. -/
theorem failure_responses (beast : Beast) (documented : Documented beast)
    (keepsFields : KeepsFields beast) (server : HttpServerPrivate) :
    FailuresWritten beast server where
  route := by
    intro turns i request tail handler what reached read routed threw
    refine writesFailure_of_eq documented keepsFields ?_
    rw [makeSession, sessionLoop_written {} turns rfl i reached read,
      HttpServerPrivate.processRequest_routed routed, threw]
    rfl
  method := by
    intro J dump apis version turns i request tail handler m properties what reached read routed
      serves called threw
    have answered : handler tail request (freshResponse request) =
        ⟨(m.handler request (freshResponse request) properties).request,
          { (m.handler request (freshResponse request) properties).response with
            result := Status.internal_server_error }, .returned⟩ := by
      refine serves _ _ _ _ ?_
      unfold onRequest
      simp only [called, threw]
    refine writesFailure_of_eq documented keepsFields ?_
    rw [makeSession, sessionLoop_written {} turns rfl i reached read,
      HttpServerPrivate.processRequest_routed routed, answered]
    rfl

/-- Sets a body and a header field and then fails. -/
def halfDone (request : Request) (response : Response) : HandlerRun :=
  ⟨request,
    { response.set Field.content_type "text/plain".toList with body := "half".toList },
    .threw "broken".toList⟩

/-- A registered API with one method that fails. -/
def brokenApis : FiniteMap Int (API Unit Handler) :=
  [(1, { methods := [⟨.get, "x".toList, [], (), (), [], fun request response _ =>
      halfDone request response⟩],
         roots := [⟨⟨.ConstString, "x".toList⟩,
           [⟨.get, "x".toList, [], (), (), [], fun request response _ =>
             halfDone request response⟩], []⟩] })]

/-- The route closure, where `onRequest` does not abort. -/
def brokenClosure : RequestHandler := fun target request response =>
  (onRequest (fun _ => []) brokenApis 1 target request response).toOption.getD
    ⟨request, response, .returned⟩

def brokenServer : HttpServerPrivate where
  handlers := ((HttpHandlerStore.new []).add .unknown "raw".toList
    (fun _ request response => halfDone request response)).add .unknown "api/v1".toList
      brokenClosure

theorem lengthBeast_keepsFields : KeepsFields lengthBeast := by
  intro response message prepared field member other
  change setLength response = some message at prepared
  unfold setLength at prepared
  split at prepared
  · split at prepared
    · cases prepared
      exact member
    · cases prepared
  · cases prepared
    have apart : sameField field.1 "Content-Length".toList = false :=
      (Bool.or_eq_false_iff.mp other).1
    refine List.mem_append_left _ (List.mem_filter.mpr ⟨member, ?_⟩)
    rw [apart]
    rfl

theorem brokenServer_failures : FailuresWritten lengthBeast brokenServer :=
  failure_responses lengthBeast lengthBeast_documented lengthBeast_keepsFields brokenServer

/-- Status, body and fields of what the server writes for a GET. -/
def writtenFor (target : Str) : List (Status × Str × List (Str × Str)) :=
  (makeSession lengthBeast brokenServer
      [{ read := some { method := .get, target := target } }]).2.written.map
    (fun message => (message.result, message.body, message.fields))

/-- A failed route and a failed API method are written with their handler's body
and Content-Type. -/
theorem failed_handlers_show :
    writtenFor "/raw".toList =
        [(Status.internal_server_error, "half".toList,
          [(Field.server, "Restio/1.0.0".toList), (Field.content_type, "text/plain".toList),
            ("Content-Length".toList, "4".toList)])] ∧
      writtenFor "/api/v1/x".toList = writtenFor "/raw".toList := by
  constructor <;> decide +kernel

end Restio.Guarantees.FailingHandler
