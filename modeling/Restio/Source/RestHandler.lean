import Mathlib.Data.Int.Order.Basic
import Restio.Source.ApiMapper
import Restio.Source.HandlerStore

/-!
# The REST handler

`RestHandler::Private` of restio_rest_handler.cpp:38-125, `makeOkResponse` of
restio_rest_handler.cpp:133-142 and `htmlEscape` of restio_util.cpp:29-56, on a
server that has no other routes. The route closure made by `registerAPI` captures
only the version, so a route's handler is `OnRequest version`. The server's
`route` without a verb adds the route for `verb::unknown`.

JSON's `dump(2)` is a parameter. `BOOST_ASSERT` and the assertions of
`buildParser` abort.
-/

set_option autoImplicit false

namespace Restio.Source.RestHandler
open Restio.Lib Restio.Source.Http Restio.Source.ApiMapper Restio.Source.HandlerStore

/-- `API::Method::Handler`. -/
abbrev Handler := Request → Response → Properties → HandlerRun

/-- The closure added by `registerAPI`, by what it captures beside `this`. -/
structure OnRequest where
  version : Int
  deriving DecidableEq, Repr

variable {J H : Type}

/-- The server's routes and the handler's `apis`. -/
structure RestServer (J H : Type) where
  handlers : HttpHandlerStore OnRequest
  apis : FiniteMap Int (API J H)

namespace RestServer

def new (base_path : Str) : RestServer J H := ⟨HttpHandlerStore.new base_path, []⟩

/-- `"api/v" + std::to_string(version)`. -/
def apiPath (version : Int) : Str := "api/v".toList ++ Decimal.render version

theorem apiPath_text (version : Int) :
    apiPath version = "api/v".toList ++ Decimal.render version := rfl

def registerAPI (server : RestServer J H) (api : API J H) : Except Fault (RestServer J H) :=
  let handlers := server.handlers.add .unknown (apiPath api.version) ⟨api.version⟩
  api.buildParser.map (fun built => ⟨handlers, server.apis.insert api.version built⟩)

/-- A history of registrations on a new server. -/
def registerAll (base_path : Str) (apis : List (API J H)) : Except Fault (RestServer J H) :=
  apis.foldlM registerAPI (new base_path)

end RestServer

/-- What `onRequest` decides to do. -/
inductive Action (J H : Type) where
  | introspection (api : API J H)
  | notFound
  | call (method : Method J H) (properties : Properties)

/-- `if (!lookupResult)` of `onRequest`. -/
def Action.ofLookup : Option (LookupResult J H) → Action J H
  | none => notFound
  | some lookupResult => call lookupResult.method lookupResult.properties

/-- The decision of `onRequest`, before anything touches the response. -/
def dispatch (apis : FiniteMap Int (API J H)) (apiVersion : Int) (verb : Verb) (target : Str) :
    Except Fault (Action J H) :=
  match apis.find apiVersion with
  | none => .error .assertion
  | some api =>
      if target.isEmpty then .ok (.introspection api)
      else .ok (.ofLookup (api.lookup verb target))

/-- The choice made for a request between introspection page, 404 and method, by
the server's lookup and by the closure it finds. An unroutable request gets the
server's own 404. -/
def RestServer.respond (server : RestServer J H) (req : Request) : Except Fault (Action J H) :=
  match server.handlers.lookup req with
  | none => .ok .notFound
  | some (tail, closure) => dispatch server.apis closure.version req.method tail

def htmlEscapeChar (c : Char) : Str :=
  -- 0x22 is the double quote, 0x27 the apostrophe
  if c = '&' then "&amp;".toList
  else if c = '\x22' then "&quot;".toList
  else if c = '\x27' then "&apos;".toList
  else if c = '<' then "&lt;".toList
  else if c = '>' then "&gt;".toList
  else [c]

def htmlEscape (data : Str) : Str := data.flatMap htmlEscapeChar

def makeOkResponse (response : Response) (body contentType : Str) : Response :=
  if body.length ≠ 0 then
    { ({ response with result := Status.ok } : Response).set Field.content_type contentType with
      body := body }
  else { response with result := Status.no_content }

/-- The page up to the version in its title. -/
def introHead : Str :=
  ("<!DOCTYPE html>\n" ++
    "<html>\n" ++
    "<head>\n" ++
    "  <title>Restio API version ").toList

/-- The page between the version's two places. -/
def introStyle : Str :=
  ("</title>\n" ++
    "  <style type=\"text/css\">\n" ++
    "body \x7b width:100%; padding:0; margin:0; \x7d\n" ++
    ".methods \x7b border: 1px solid black; border-collapse: collapse; width:100%; \x7d\n" ++
    ".methods th, .methods td \x7b padding: 0.5em; \x7d\n" ++
    "td.code \x7b font-family: monospace; max-width: 60em; padding: 0; \x7d\n" ++
    ".code > pre \x7b overflow-x:auto; text-overflow: ellipsis; padding: 0.5em; margin:0; \x7d\n" ++
    "  </style>\n" ++
    "</head>\n" ++
    "<body>\n" ++
    "<h2>Restio API version ").toList

/-- The page behind the version, with the placeholder `{api}` in the table. -/
def introTable : Str :=
  ("</h2>\n" ++
    "<table border=\"1\" class=\"methods\">\n" ++
    "  <tr><th>URI</th>\n" ++
    "      <th>Method</th>\n" ++
    "      <th>Description</th>\n" ++
    "      <th width=\"35%\">Input</th>\n" ++
    "      <th width=\"35%\">Output</th>\n" ++
    "      <th>Status codes</th>\n" ++
    "  </tr>\n" ++
    "\x7bapi\x7d\n" ++
    "</table>\n" ++
    "</body>\n" ++
    "</html>").toList

/-- `boost::replace_first` of a non-empty search text. -/
def replaceFirst (search format : Str) : Str → Str
  | [] => []
  | c :: rest =>
      if search.isPrefixOf (c :: rest) then format ++ (c :: rest).drop search.length
      else c :: replaceFirst search format rest

/-- The table row of one method. -/
def introRow (dump : J → Str) (uriPrefix : Str) (m : Method J H) : Str :=
  "<tr><td>".toList ++
    (uriPrefix ++ htmlEscape m.uri ++ "</td><td>".toList) ++
    (m.method.toStr ++ "</td><td>".toList) ++
    (m.comment ++ "</td><td class=\"code\"><pre>".toList) ++
    (dump m.inputExample ++ "</pre></td><td class=\"code\"><pre>".toList) ++
    (dump m.outputExample ++ "</pre></td><td>".toList) ++
    (m.responseStatus ++ "</td></tr>".toList)

def handleAPIIntrospection (dump : J → Str) (api : API J H) (response : Response) : Response :=
  let verStr := Decimal.render api.version
  let introTemplate := introHead ++ verStr ++ introStyle ++ verStr ++ introTable
  let uriPrefix := "/api/v".toList ++ Decimal.render api.version ++ "/".toList
  let introStr := api.methods.flatMap (introRow dump uriPrefix)
  makeOkResponse response (replaceFirst "\x7bapi\x7d".toList introStr introTemplate)
    "text/html; charset=utf-8".toList

/-- `onRequest`: an exception of the method's handler is answered with 500 here and
does not reach the server. -/
def onRequest (dump : J → Str) (apis : FiniteMap Int (API J Handler)) (apiVersion : Int)
    (target : Str) (request : Request) (response : Response) : Except Fault HandlerRun :=
  match dispatch apis apiVersion request.method target with
  | .error fault => .error fault
  | .ok (.introspection api) =>
      .ok ⟨request, handleAPIIntrospection dump api response, .returned⟩
  | .ok .notFound => .ok ⟨request, { response with result := Status.not_found }, .returned⟩
  | .ok (.call m properties) =>
      let run := m.handler request response properties
      match run.exit with
      | .returned => .ok run
      | .threw _ =>
          .ok ⟨run.request, { run.response with result := Status.internal_server_error },
            .returned⟩

end Restio.Source.RestHandler
