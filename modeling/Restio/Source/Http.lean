import Mathlib.Data.Char
import Mathlib.Data.List.Lex
import Mathlib.Order.Basic

/-!
# HTTP vocabulary

What the sources take from Boost.Beast, as its documentation describes it: the
verb enumeration, request and response messages, and the setters the server and
its handlers call. A C++ string is the list of its characters. `keep_alive` is
kept as a flag of the message, where Beast derives it from the version and the
Connection field.

No wire format, no parser and no serializer are modelled here.
-/

set_option autoImplicit false

namespace Restio.Source.Http

abbrev Str := List Char

/-- `http::verb`; `unknown` doubles as "any verb" in the handler store. -/
inductive Verb where
  | unknown
  | delete_ | get | head | post | put | connect | options | trace
  | copy | lock | mkcol | move | propfind | proppatch | search | unlock | bind | rebind
  | unbind | acl
  | report | mkactivity | checkout | merge
  | msearch | notify | subscribe | unsubscribe
  | patch | purge
  | mkcalendar
  | link | unlink
  deriving DecidableEq, Repr

theorem Verb.ctorIdx_injective : Function.Injective Verb.ctorIdx :=
  Function.LeftInverse.injective Verb.ofNat_ctorIdx

/-- The enumeration order, used only to key tables by verb. -/
instance : LinearOrder Verb := LinearOrder.lift' Verb.ctorIdx Verb.ctorIdx_injective

/-- `http::to_string` of a verb. -/
def Verb.toStr : Verb → Str
  | unknown => "<unknown>".toList
  | delete_ => "DELETE".toList
  | get => "GET".toList
  | head => "HEAD".toList
  | post => "POST".toList
  | put => "PUT".toList
  | connect => "CONNECT".toList
  | options => "OPTIONS".toList
  | trace => "TRACE".toList
  | copy => "COPY".toList
  | lock => "LOCK".toList
  | mkcol => "MKCOL".toList
  | move => "MOVE".toList
  | propfind => "PROPFIND".toList
  | proppatch => "PROPPATCH".toList
  | search => "SEARCH".toList
  | unlock => "UNLOCK".toList
  | bind => "BIND".toList
  | rebind => "REBIND".toList
  | unbind => "UNBIND".toList
  | acl => "ACL".toList
  | report => "REPORT".toList
  | mkactivity => "MKACTIVITY".toList
  | checkout => "CHECKOUT".toList
  | merge => "MERGE".toList
  | msearch => "M-SEARCH".toList
  | notify => "NOTIFY".toList
  | subscribe => "SUBSCRIBE".toList
  | unsubscribe => "UNSUBSCRIBE".toList
  | patch => "PATCH".toList
  | purge => "PURGE".toList
  | mkcalendar => "MKCALENDAR".toList
  | link => "LINK".toList
  | unlink => "UNLINK".toList

/-- `http::status` as its numeric code. -/
abbrev Status := Nat

namespace Status
def ok : Status := 200
def no_content : Status := 204
def not_found : Status := 404
def internal_server_error : Status := 500
end Status

namespace Field
def server : Str := "Server".toList
def content_type : Str := "Content-Type".toList
end Field

structure Request where
  method : Verb := .unknown
  target : Str := []
  version : Nat := 11
  keep_alive : Bool := true
  fields : List (Str × Str) := []
  body : Str := []
  deriving DecidableEq, Repr

structure Response where
  version : Nat := 11
  result : Status := Status.ok
  reason : Str := []
  keep_alive : Bool := true
  fields : List (Str × Str) := []
  body : Str := []
  deriving DecidableEq, Repr

/-- Field names are compared without regard to case. -/
def sameField (left right : Str) : Bool := left.map Char.toLower == right.map Char.toLower

/-- `fields::set`: remove every field of that name, then insert. -/
def Response.set (response : Response) (name value : Str) : Response :=
  { response with
    fields := response.fields.filter (fun field => !sameField field.1 name) ++ [(name, value)] }

/-- How a handler's coroutine ends: by returning or with a `std::exception`. -/
inductive Exit where
  | returned
  | threw (what : Str)
  deriving DecidableEq, Repr

/-- What a handler leaves of the two messages it was given by reference. -/
structure HandlerRun where
  request : Request
  response : Response
  exit : Exit
  deriving DecidableEq, Repr

/-- `RequestHandler` of restio_common.hpp. -/
abbrev RequestHandler := Str → Request → Response → HandlerRun

end Restio.Source.Http
