import Restio.Lib.Decimal
import Restio.Lib.FiniteMap
import Restio.Lib.OrderedForest
import Restio.Lib.Text
import Restio.Source.Http

/-!
# The API mapper

`api::API`, its methods, its parsed tree and its lookup: restio_api_mapper.hpp:43-160
and restio_api_mapper.cpp:31-130, with the bound values of restio_properties.hpp:36-60.
JSON examples and handlers are opaque, of types `J` and `H`; a reference to a
method is the method.

A failed assertion aborts, as does pushing through `roots.end()`; the model names
which of the two. `Properties` holds the two kinds of value that lookup binds.
-/

set_option autoImplicit false

namespace Restio.Source.ApiMapper
open Restio.Lib Restio.Source.Http

/-- `Properties::MappedType`, as far as the mapper fills it. -/
inductive MappedType where
  | int (value : Int)
  | string (value : Str)
  deriving DecidableEq, Repr

abbrev Properties := FiniteMap Str MappedType

structure Method (J H : Type) where
  method : Verb
  uri : Str
  comment : Str
  inputExample : J
  outputExample : J
  responseStatus : Str
  handler : H
  deriving DecidableEq

/-- `ParsedNode::Type`. -/
inductive NodeType where
  | ConstString
  | VarString
  | Integer
  deriving DecidableEq, Repr

/-- What `ParsedNode::operator==` compares. -/
structure NodeKey where
  type : NodeType
  id : Str
  deriving DecidableEq, Repr

variable {J H : Type}

/-- `API::ParsedNode`: its key, the methods ending at it, its children. -/
abbrev ParsedNode (J H : Type) := Branch NodeKey (Method J H)

structure LookupResult (J H : Type) where
  properties : Properties
  method : Method J H
  deriving DecidableEq

structure API (J H : Type) where
  version : Int := 1
  methods : List (Method J H) := []
  roots : List (ParsedNode J H) := []

section Builders

/-- `Method::sample`, with the two `docSample` values it converts to JSON. -/
def Method.sample (inputExample outputExample : J) (method : Verb) (uri desc responseStatus : Str)
    (handler : H) : Method J H :=
  ⟨method, uri, desc, inputExample, outputExample, responseStatus, handler⟩

/-- `Method::get`; a `Dummy` has the sample `null`. -/
def Method.get (null outputExample : J) : Str → Str → Str → H → Method J H :=
  Method.sample null outputExample .get

def Method.post (inputExample outputExample : J) : Str → Str → Str → H → Method J H :=
  Method.sample inputExample outputExample .post

def Method.put (inputExample outputExample : J) : Str → Str → Str → H → Method J H :=
  Method.sample inputExample outputExample .put

def Method.delete_ (null : J) : Str → Str → Str → H → Method J H :=
  Method.sample null null .delete_

/-- `API::get`, `post`, `put` and `delete_` push the method that the builder makes. -/
def API.push (api : API J H) (m : Method J H) : API J H :=
  { api with methods := api.methods ++ [m] }

def API.get (api : API J H) (null outputExample : J) (uri desc responseStatus : Str)
    (handler : H) : API J H :=
  api.push (Method.get null outputExample uri desc responseStatus handler)

def API.post (api : API J H) (inputExample outputExample : J) (uri desc responseStatus : Str)
    (handler : H) : API J H :=
  api.push (Method.post inputExample outputExample uri desc responseStatus handler)

def API.put (api : API J H) (inputExample outputExample : J) (uri desc responseStatus : Str)
    (handler : H) : API J H :=
  api.push (Method.put inputExample outputExample uri desc responseStatus handler)

def API.delete_ (api : API J H) (null : J) (uri desc responseStatus : Str) (handler : H) :
    API J H :=
  api.push (Method.delete_ null uri desc responseStatus handler)

end Builders

/-- How `buildParser` can go down. -/
inductive Fault where
  | assertion
  | endIterator
  deriving DecidableEq, Repr

/-- `boost::split` at `/`, with the last part popped when it is empty. -/
def splitUri (uri : Str) : List Str :=
  let strs := uri.splitOn '/'
  if strs.getLast? = some [] then strs.dropLast else strs

/-- The body of the loop over path parts, up to the complete `newNode`. The last
character of a part that starts with `<` is dropped unseen. -/
def newNode (s : Str) : Except Fault NodeKey :=
  if s.length = 0 then .error .assertion
  else if s.head? = some '<' then
    if s.length ≤ 2 then .error .assertion
    else
      match ((s.drop 1).take (s.length - 2)).splitOn ':' with
      | [type, name] =>
          if type.length = 0 ∨ name.length = 0 then .error .assertion
          else if type = "string".toList then .ok ⟨.VarString, name⟩
          else if type = "int".toList then .ok ⟨.Integer, name⟩
          else .error .assertion
      | _ => .error .assertion
  else .ok ⟨.ConstString, s⟩

/-- One round of the outer loop. A failed assertion leaves no tree behind, so the
parts can be parsed before any is put into it. Without parts `currentNode` is
still `roots.end()` when the method is pushed. -/
def addMethod (roots : List (ParsedNode J H)) (m : Method J H) :
    Except Fault (List (ParsedNode J H)) :=
  match (splitUri m.uri).mapM newNode with
  | .error fault => .error fault
  | .ok [] => .error .endIterator
  | .ok (key :: path) => .ok (Forest.push m (key :: path) roots)

def API.buildParser (api : API J H) : Except Fault (API J H) :=
  (api.methods.foldlM addMethod api.roots).map (fun roots => { api with roots := roots })

/-- `boost::lexical_cast<int>` of a text that starts with a digit. -/
def lexicalCastInt (text : Str) : Option Int :=
  if text.all Char.isDigit && Decimal.value text ≤ 2147483647 then
    some (Decimal.value text)
  else none

/-- `numericValue`, when `numeric` is still set behind the `try` block. -/
def numericValue (view : Str) : Option Int :=
  if view.head?.any Char.isDigit then lexicalCastInt view else none

/-- The `nodeMatch` lambda. -/
def nodeMatch (key : NodeKey) (view : Str) : Bool :=
  match key.type with
  | .VarString => true
  | .Integer => (numericValue view).isSome
  | .ConstString => key.id == view

/-- The inner loop at the last segment. Every matching sibling with a method of
the verb overwrites the result. -/
def lastSegment (method : Verb) (view : Str) (nodes : List (ParsedNode J H)) :
    Option (Method J H) :=
  nodes.foldl (fun result node =>
      if !nodeMatch node.key view then result
      else
        match node.values.find? (fun m => m.method == method) with
        | some m => some m
        | none => result)
    none

/-- `result->properties[node.id] = …` for a variable node. -/
def bindVariable (key : NodeKey) (view : Str) (properties : Properties) : Properties :=
  match key.type with
  | .Integer => properties.insert key.id (.int ((numericValue view).getD 0))
  | .VarString => properties.insert key.id (.string view)
  | .ConstString => properties

/-- Only called with segments left, so the empty span is never read. -/
def lookup_helper (method : Verb) : List Str → List (ParsedNode J H) → Option (LookupResult J H)
  | [], _ => none
  | view :: rest, nodes =>
      nodes.findSome? (fun node =>
        if (!rest.isEmpty && node.children.isEmpty) || !nodeMatch node.key view then none
        else
          let result :=
            if rest.isEmpty then
              (lastSegment method view nodes).map (fun m => ⟨[], m⟩)
            else lookup_helper method rest node.children
          result.map (fun found =>
            { found with properties := bindVariable node.key view found.properties }))

/-- Leading slashes are skipped, repeated ones merged (`token_compress_on`) and an
empty last part dropped. -/
def API.lookup (api : API J H) (method : Verb) (target : Str) : Option (LookupResult J H) :=
  let rest := target.dropWhile (fun c => decide (c = '/'))
  if rest.isEmpty then none
  else
    let strs := (Text.squeeze '/' rest).splitOn '/'
    let strs' := if strs.getLast? = some [] then strs.dropLast else strs
    if strs'.isEmpty then none else lookup_helper method strs' api.roots

end Restio.Source.ApiMapper
