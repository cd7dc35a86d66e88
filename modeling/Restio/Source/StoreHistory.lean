import Restio.Source.HandlerStoreTrie

/-!
# Histories of a handler store

A store is reached from a constructor call by any sequence of `add`, `remove`
and `clear` with arbitrary path strings. Every reachable store is canonical, so
two reachable stores with one base path and the same entries are equal
(`Canonical.ext`).

Lookup does not look into handlers: what is done to every handler of a history is
done to what lookup returns (`lookup_run_map`).

In a tagged history each handler is registered together with the route it is
stored under. Lookup does not look into handlers, so it answers alike, and the
tag of its answer is the route it succeeded on (`lookup_tagged`).
-/

set_option autoImplicit false

namespace Restio.Source.HandlerStore
open Restio.Lib Restio.Source.Http

variable {H : Type}

inductive Op (H : Type) where
  | add (verb : Verb) (path : Str) (handler : H)
  | remove (verb : Verb) (path : Str)
  | clear

/-- Register the handler together with the route it is stored under. -/
def Op.tagged : Op H → Op (List Str × H)
  | .add verb path handler => .add verb path (addRoute path, handler)
  | .remove verb path => .remove verb path
  | .clear => .clear

/-- The same registrations of other handlers. -/
def Op.map {K : Type} (f : H → K) : Op H → Op K
  | .add verb path handler => .add verb path (f handler)
  | .remove verb path => .remove verb path
  | .clear => .clear

namespace HttpHandlerStore

def apply (store : HttpHandlerStore H) : Op H → HttpHandlerStore H
  | .add verb path handler => store.add verb path handler
  | .remove verb path => store.remove verb path
  | .clear => store.clear

def run (base_path : Str) (ops : List (Op H)) : HttpHandlerStore H :=
  ops.foldl apply (new base_path)

/-- What holds of a new store and is kept by every operation holds of every
reachable store. -/
theorem run_induction (base_path : Str) (ops : List (Op H)) {motive : HttpHandlerStore H → Prop}
    (start : motive (new base_path)) (step : ∀ store op, motive store → motive (apply store op)) :
    motive (run base_path ops) :=
  List.foldlRecOn ops apply start (fun store kept op _ => step store op kept)

/-- The invariant of the trie below the virtual root. -/
def Canonical (store : HttpHandlerStore H) : Prop := store.root.Canonical

theorem Canonical.apply {store : HttpHandlerStore H} (canonical : store.Canonical) (op : Op H) :
    (store.apply op).Canonical := by
  cases op with
  | add verb path handler =>
    rw [Canonical, HttpHandlerStore.apply, root_add]
    exact Trie.Canonical.insert canonical _ _ _
  | remove verb path =>
    rw [Canonical, HttpHandlerStore.apply, root_remove]
    exact Trie.Canonical.erase canonical _ _
  | clear => exact Trie.Canonical.empty

theorem run_canonical (base_path : Str) (ops : List (Op H)) : (run base_path ops).Canonical :=
  run_induction base_path ops Trie.Canonical.empty (fun _ op canonical => canonical.apply op)

/-- Canonical stores with one base path and the same entries are equal. -/
theorem Canonical.ext {store other : HttpHandlerStore H} (canonical : store.Canonical)
    (canonical' : other.Canonical) (base : store.base_path = other.base_path)
    (same : ∀ route verb, store.entry route verb = other.entry route verb) : store = other := by
  have roots : store.root = other.root := Trie.Canonical.ext canonical canonical' same
  obtain ⟨path, nodes⟩ := store
  obtain ⟨path', nodes'⟩ := other
  have nodesEq : nodes = nodes' := congrArg Trie.children roots
  have pathEq : path = path' := base
  rw [nodesEq, pathEq]

def runTagged (base_path : Str) (ops : List (Op H)) : HttpHandlerStore (List Str × H) :=
  run base_path (ops.map Op.tagged)

theorem entry_apply_tagged {store : HttpHandlerStore H}
    {tagged : HttpHandlerStore (List Str × H)}
    (same : ∀ route verb, tagged.entry route verb =
      (store.entry route verb).map (fun handler => (route, handler))) (op : Op H)
    (route : List Str) (verb : Verb) :
    (tagged.apply op.tagged).entry route verb =
      ((store.apply op).entry route verb).map (fun handler => (route, handler)) := by
  cases op with
  | add tag path handler =>
    unfold apply Op.tagged
    rw [entry_add, entry_add]
    split
    · rename_i own
      rw [own.1]
      rfl
    · exact same route verb
  | remove tag path =>
    unfold apply Op.tagged
    rw [entry_remove, entry_remove]
    split
    · rfl
    · exact same route verb
  | clear =>
    unfold apply Op.tagged
    rw [entry_clear, entry_clear]
    rfl

/-- The entries of a tagged history carry their own route. -/
theorem entry_runTagged (base_path : Str) (ops : List (Op H)) (route : List Str) (verb : Verb) :
    (runTagged base_path ops).entry route verb =
      ((run base_path ops).entry route verb).map (fun handler => (route, handler)) := by
  unfold runTagged run
  induction ops using List.reverseRecOn generalizing route verb with
  | nil =>
    rw [List.map_nil, List.foldl_nil, List.foldl_nil, entry_new, entry_new]
    rfl
  | append_singleton ops op ih =>
    rw [List.map_append, List.foldl_append, List.foldl_append]
    exact entry_apply_tagged ih op route verb

theorem handlerFor_runTagged (base_path : Str) (ops : List (Op H)) (verb : Verb)
    (route : List Str) :
    (runTagged base_path ops).handlerFor verb route =
      ((run base_path ops).handlerFor verb route).map (fun handler => (route, handler)) := by
  rw [handlerFor, handlerFor, entry_runTagged, entry_runTagged, Option.map_or]

theorem run_base_path (base_path : Str) (ops : List (Op H)) :
    (run base_path ops).base_path = Text.trimRight '/' base_path := by
  refine run_induction (motive := fun store => store.base_path = Text.trimRight '/' base_path)
    base_path ops rfl ?_
  intro store op kept
  cases op <;> exact kept

theorem runTagged_base_path (base_path : Str) (ops : List (Op H)) :
    (runTagged base_path ops).base_path = (run base_path ops).base_path := by
  rw [runTagged, run_base_path, run_base_path]

/-- The tags are not seen by lookup. -/
theorem lookup_tagged (base_path : Str) (ops : List (Op H)) (req : Request) :
    (run base_path ops).lookup req =
      ((runTagged base_path ops).lookup req).map (fun found => (found.1, found.2.2)) := by
  have applies : (run base_path ops).handlerFor req.method =
      fun route => ((runTagged base_path ops).handlerFor req.method route).map Prod.snd := by
    funext route
    rw [handlerFor_runTagged, Option.map_map]
    exact Option.map_id'.symm
  have left : (runTagged base_path ops).remainder req = (run base_path ops).remainder req := by
    rw [remainder, remainder, runTagged_base_path]
  rw [lookup_eq, lookup_eq, runTagged_base_path, left, applies, longestMatch_map]
  split
  · rfl
  · rw [Option.map_or]
    split
    · rfl
    · rw [Option.map_map, Option.map_map]
      rfl

section Map
variable {K : Type} (f : H → K)

/-- The entries of a mapped history. -/
theorem entry_run_map (base_path : Str) (ops : List (Op H)) (route : List Str) (verb : Verb) :
    (run base_path (ops.map (Op.map f))).entry route verb =
      ((run base_path ops).entry route verb).map f := by
  unfold run
  induction ops using List.reverseRecOn generalizing route verb with
  | nil =>
    rw [List.map_nil, List.foldl_nil, List.foldl_nil, entry_new, entry_new]
    rfl
  | append_singleton ops op ih =>
    rw [List.map_append, List.foldl_append, List.foldl_append]
    cases op with
    | add tag path handler =>
      refine (entry_add _ _ _ _ _ _).trans ?_
      refine Eq.trans ?_ (congrArg (Option.map f) (entry_add _ _ _ _ _ _).symm)
      split
      · rfl
      · exact ih route verb
    | remove tag path =>
      refine (entry_remove _ _ _ _ _).trans ?_
      refine Eq.trans ?_ (congrArg (Option.map f) (entry_remove _ _ _ _ _).symm)
      split
      · rfl
      · exact ih route verb
    | clear => exact (entry_clear _ _ _).trans (congrArg (Option.map f) (entry_clear _ _ _).symm)

theorem handlerFor_run_map (base_path : Str) (ops : List (Op H)) (verb : Verb)
    (route : List Str) :
    (run base_path (ops.map (Op.map f))).handlerFor verb route =
      ((run base_path ops).handlerFor verb route).map f := by
  rw [handlerFor, handlerFor, entry_run_map, entry_run_map, Option.map_or]

/-- Lookup in a mapped history. -/
theorem lookup_run_map (base_path : Str) (ops : List (Op H)) (req : Request) :
    (run base_path (ops.map (Op.map f))).lookup req =
      ((run base_path ops).lookup req).map (Prod.map id f) := by
  have applies : (run base_path (ops.map (Op.map f))).handlerFor req.method =
      fun route => ((run base_path ops).handlerFor req.method route).map f :=
    funext (handlerFor_run_map f base_path ops req.method)
  have left : (run base_path (ops.map (Op.map f))).remainder req =
      (run base_path ops).remainder req := by
    rw [remainder, remainder, run_base_path, run_base_path]
  rw [lookup_eq, lookup_eq, run_base_path, run_base_path, left, applies, longestMatch_map]
  split
  · rfl
  · rw [Option.map_or]
    congr 1
    split
    · rfl
    · rw [Option.map_map, Option.map_map]
      rfl

/-- What holds of every registered handler holds of what lookup returns. -/
theorem lookup_run_registered {P : H → Prop} {base_path : Str} {ops : List (Op H)}
    (registered : ∀ verb path handler, Op.add verb path handler ∈ ops → P handler)
    {req : Request} {found : Str × H} (looked : (run base_path ops).lookup req = some found) :
    P found.2 := by
  have same : ops.map (Op.map P) = ops.map (Op.map (fun _ => True)) := by
    refine List.map_congr_left (fun op member => ?_)
    cases op with
    | add verb path handler =>
      exact congrArg (Op.add verb path) (eq_true (registered verb path handler member))
    | remove verb path => rfl
    | clear => rfl
  have answers := lookup_run_map P base_path ops req
  rw [same, lookup_run_map, looked] at answers
  exact of_eq_true (congrArg Prod.snd (Option.some.inj answers)).symm

end Map

end HttpHandlerStore
end Restio.Source.HandlerStore
