import Restio.Lib.PrefixTrie
import Restio.Lib.Text
import Restio.Source.Http

/-!
# The handler store

`HttpHandlerStore` of handler_store.hpp:35-69 and handler_store.cpp:35-172. The
two hash maps of a node are key-sorted association lists: the store only finds,
inserts and erases by key, so their iteration order is never observed. Handlers
are opaque values of a type `H`.

`add` walks the parts of the trimmed path, `remove_helper` cuts its argument at
the first of `/?#` and recurses, and `lookup_node` scans the target by index;
each keeps the tokenizer the source has for it.
-/

set_option autoImplicit false

namespace Restio.Source.HandlerStore

open Restio.Lib Restio.Source.Http

variable {H : Type}

/-- `HttpHandlerStore::Node`: handlers by verb, children by path part. -/
abbrev Node (H : Type) := Trie Str Verb H
abbrev NodeMap (H : Type) := FiniteMap Str (Node H)

structure HttpHandlerStore (H : Type) where
  base_path : Str
  nodes : NodeMap H

namespace HttpHandlerStore

/-- The constructor trims the base path on the right only. -/
def new (base_path : Str) : HttpHandlerStore H := ⟨Text.trimRight '/' base_path, []⟩

/-- The loop of `add` over the path parts: each part is found or emplaced in the
current map, which the pointer `nodes` then leaves for the children. The last
node gets the handler. A split yields at least one part. -/
def addParts (verb : Verb) (handler : H) : List Str → NodeMap H → NodeMap H
  | [], nodes => nodes
  | [part], nodes =>
      let node := (FiniteMap.find nodes part).getD Trie.empty
      FiniteMap.insert part
        { node with handlers := FiniteMap.insert verb handler node.handlers } nodes
  | part :: next :: rest, nodes =>
      let node := (FiniteMap.find nodes part).getD Trie.empty
      FiniteMap.insert part
        { node with children := addParts verb handler (next :: rest) node.children } nodes

def add (store : HttpHandlerStore H) (verb : Verb) (path : Str) (handler : H) :
    HttpHandlerStore H :=
  { store with nodes := addParts verb handler ((Text.trim '/' path).splitOn '/') store.nodes }

/-- `boost::is_any_of("/?#")`. -/
def isDelim (c : Char) : Bool := c == '/' || c == '?' || c == '#'

theorem length_tail_lt {text : Str}
    (found : (text.dropWhile (fun c => !isDelim c)).head? = some '/') :
    (text.dropWhile (fun c => !isDelim c)).tail.length < text.length := by
  have bound := (List.dropWhile_suffix (fun c => !isDelim c) (l := text)).length_le
  cases after : text.dropWhile (fun c => !isDelim c) with
  | nil => simp [after] at found
  | cons c more =>
    rw [after, List.length_cons] at bound
    exact bound

/-- `remove_helper`: `pit` is the first delimiter, the part before it names the
child. Only a `/` continues below the child; the end, `?` and `#` make the part
final. A child left without handlers and children is erased on the way out. -/
def remove_helper (verb : Verb) (path_tail : Str) (nmap : NodeMap H) : NodeMap H :=
  let part := path_tail.takeWhile (fun c => !isDelim c)
  match FiniteMap.find nmap part with
  | none => nmap
  | some node =>
      let node' : Node H :=
        if _more : (path_tail.dropWhile (fun c => !isDelim c)).head? = some '/' then
          { node with
            children := remove_helper verb (path_tail.dropWhile (fun c => !isDelim c)).tail
              node.children }
        else { node with handlers := FiniteMap.erase node.handlers verb }
      if node'.handlers.isEmpty && node'.children.isEmpty then FiniteMap.erase nmap part
      else FiniteMap.insert part node' nmap
termination_by path_tail.length
decreasing_by exact length_tail_lt _more

def remove (store : HttpHandlerStore H) (verb : Verb) (path : Str) : HttpHandlerStore H :=
  { store with nodes := remove_helper verb path store.nodes }

def clear (store : HttpHandlerStore H) : HttpHandlerStore H := { store with nodes := [] }

/-- The `get_handler` lambda: the verb's own handler, else the one for any verb. -/
def get_handler (req_verb : Verb) (handlers : FiniteMap Verb H) : Option H :=
  match FiniteMap.find handlers req_verb with
  | some handler => some handler
  | none => if req_verb = .unknown then none else FiniteMap.find handlers .unknown

/-- `req_target.find_first_of("/?#", start)`, with the size for npos. -/
def findDelim (req_target : Str) (start : Nat) : Nat :=
  start + ((req_target.drop start).takeWhile (fun c => !isDelim c)).length

/-- The main loop of `lookup_node`. `last` is the triple of path_tail,
lastMatchingNode and lastMatchingHandler once a node has matched. -/
def lookupLoop (req_verb : Verb) (req_target : Str) (nodes : NodeMap H) (start : Nat)
    (last : Option (Str × Node H × H)) : Option (Str × Node H × H) :=
  let ppos := findDelim req_target start
  let part := (req_target.drop start).take (ppos - start)
  if part.isEmpty then last
  else
    match FiniteMap.find nodes part with
    | none => last
    | some node =>
        let last' :=
          match get_handler req_verb node.handlers with
          | some handler => some (req_target.drop ppos, node, handler)
          | none => last
        -- `delim_not_found` is the index at the size, where there is no character
        if _more : req_target[findDelim req_target start]? = some '/' then
          lookupLoop req_verb req_target node.children (findDelim req_target start + 1) last'
        else last'
termination_by req_target.length - start
decreasing_by
  have inside := (List.getElem?_eq_some_iff.mp _more).1
  have forward : start ≤ findDelim req_target start := Nat.le_add_right _ _
  omega

/-- `if (req_target.starts_with('/')) req_target = req_target.substr(1)`. -/
def dropSlash (req_target : Str) : Str :=
  if req_target.head? = some '/' then req_target.tail else req_target

def lookup_node (store : HttpHandlerStore H) (req_verb : Verb) (target : Str) :
    Option (Str × Node H × H) :=
  if store.nodes.isEmpty then none
  else if target.length < store.base_path.length then none
  else
    let req_target := dropSlash (target.drop store.base_path.length)
    match lookupLoop req_verb req_target store.nodes 0 none with
    | some found => some found
    | none =>
        -- nothing matched: the "" node is tried, unless the target is empty
        if req_target.isEmpty then none
        else
          match FiniteMap.find store.nodes [] with
          | none => none
          | some node =>
              (get_handler req_verb node.handlers).map (fun handler => (req_target, node, handler))

def lookup (store : HttpHandlerStore H) (req : Request) : Option (Str × H) :=
  (store.lookup_node req.method req.target).map (fun found => (found.1, found.2.2))

end HttpHandlerStore
end Restio.Source.HandlerStore
