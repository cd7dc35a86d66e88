import Restio.Source.StoreHistory

/-!
# The handler trie is canonical

After any history of `add`, `remove` and `clear` with arbitrary path strings no
node of the store is dead, so the tree is nothing but its entries: histories that
end with the same entries end with the same tree, whatever was added and removed
in between (`trie_canonical`). `remove` prunes what it empties and no more, and
leaves the tree as it is when the entry it looks for is absent.
-/

set_option autoImplicit false

namespace Restio.Guarantees.CanonicalTrie
open Restio.Lib Restio.Source.Http Restio.Source.HandlerStore HttpHandlerStore

variable {H : Type}

structure CanonicalNodes (store : HttpHandlerStore H) : Prop where
  /-- Every node has a handler or a child. -/
  alive : ∀ path node, path ≠ [] → store.root.sub path = some node →
    node.handlers ≠ [] ∨ node.children ≠ []
  /-- The tree is determined by its entries. -/
  determined : ∀ (base_path : Str) (ops : List (Op H)),
    (∀ route verb, store.entry route verb = (run base_path ops).entry route verb) →
      store.nodes = (run base_path ops).nodes
  nodes_empty_iff : store.nodes = [] ↔ ∀ route verb, store.entry route verb = none
  /-- `remove` deletes the entry at the path's segments up to `?` or `#`. -/
  remove_entry : ∀ verb path route other, (store.remove verb path).entry route other =
    if route = (path.takeWhile (fun c => !isStop c)).splitOn '/' ∧ other = verb then none
    else store.entry route other
  remove_absent : ∀ verb path,
    store.entry ((path.takeWhile (fun c => !isStop c)).splitOn '/') verb = none →
      store.remove verb path = store

theorem root_eq_empty_iff (store : HttpHandlerStore H) :
    store.root = Trie.empty ↔ store.nodes = [] := by
  unfold root Trie.empty
  simp

/-- Canonical stores with the same entries have the same tree. -/
theorem nodes_ext {store other : HttpHandlerStore H} (canonical : store.Canonical)
    (canonical' : other.Canonical)
    (same : ∀ route verb, store.entry route verb = other.entry route verb) :
    store.nodes = other.nodes :=
  congrArg Trie.children (Trie.Canonical.ext canonical canonical' same)

/-- Every reachable store has a canonical trie. -/
theorem trie_canonical (base_path : Str) (ops : List (Op H)) :
    CanonicalNodes (run base_path ops) := by
  have canonical := run_canonical base_path ops
  generalize run base_path ops = store at canonical
  constructor
  · intro path node below reached
    have live := Trie.Canonical.sub_ne_empty canonical below reached
    by_contra dead
    rw [not_or, not_not, not_not] at dead
    refine live ?_
    rw [← Trie.eta node, dead.1, dead.2]
    rfl
  · intro base_path ops same
    exact nodes_ext canonical (run_canonical base_path ops) same
  · rw [← root_eq_empty_iff]
    exact Trie.Canonical.eq_empty_iff canonical
  · exact fun verb path route other => entry_remove store verb path route other
  · intro verb path absent
    have kept := Trie.Canonical.erase_absent canonical absent
    have nodes : (store.remove verb path).nodes = store.nodes := by
      have pruned := congrArg Trie.children (root_remove store verb path)
      exact pruned.trans (congrArg Trie.children kept)
    exact congrArg (HttpHandlerStore.mk store.base_path) nodes

end Restio.Guarantees.CanonicalTrie
