import Restio.Lib.FiniteMap
import Restio.Lib.LongestMatch

/-!
# Tries of handler tables

A node holds a table of handlers by tag and a map of children by path key. An
entry is a (path, tag) pair with a handler.

* `Trie.insert` and `Trie.erase` change exactly one entry (`get_insert`,
  `get_erase`), the latter pruning the nodes it empties;
* `Trie.walk`, the top-down walk that remembers the last node whose table
  applies, is longest-prefix dispatch over the entries (`walk_eq_longestMatch`).

`Trie.Canonical` says that no map is unsorted and no node below the root is
dead. It is kept by every operation, and a canonical trie is determined by its
entries (`Canonical.ext`).
-/

set_option autoImplicit false

namespace Restio.Lib

/-- A node of the trie: handlers by tag, children by path key. -/
structure Trie (κ ν η : Type) where
  handlers : FiniteMap ν η
  children : List (κ × Trie κ ν η)

namespace Trie
variable {κ ν η τ : Type}

def empty : Trie κ ν η := ⟨[], []⟩

/-- Structure eta, which is not definitional for a recursive structure. -/
theorem eta (node : Trie κ ν η) : (⟨node.handlers, node.children⟩ : Trie κ ν η) = node := by
  cases node
  rfl

/-- Neither a handler nor a child: nothing can be reached through this node. -/
def isDead (node : Trie κ ν η) : Bool := node.handlers.isEmpty && node.children.isEmpty

@[simp] theorem isDead_iff (node : Trie κ ν η) : node.isDead = true ↔ node = empty := by
  obtain ⟨handlers, children⟩ := node
  simp [isDead, empty]

section Entries
variable [LinearOrder κ]

/-- The node at the end of a path. -/
def sub (node : Trie κ ν η) : List κ → Option (Trie κ ν η)
  | [] => some node
  | key :: path => (FiniteMap.find node.children key).bind (fun child => child.sub path)

@[simp] theorem sub_nil (node : Trie κ ν η) : node.sub [] = some node := rfl

theorem sub_cons (node : Trie κ ν η) (key : κ) (path : List κ) :
    node.sub (key :: path) =
      (FiniteMap.find node.children key).bind (fun child => child.sub path) := rfl

theorem sub_append (node : Trie κ ν η) (path more : List κ) :
    node.sub (path ++ more) = (node.sub path).bind (fun found => found.sub more) := by
  induction path generalizing node with
  | nil => rfl
  | cons key path ih =>
    rw [List.cons_append, sub_cons, sub_cons, Option.bind_assoc]
    exact congrArg (Option.bind (FiniteMap.find node.children key)) (funext (fun child => ih child))

variable [LinearOrder ν]

def get (node : Trie κ ν η) (path : List κ) (tag : ν) : Option η :=
  (node.sub path).bind (fun found => FiniteMap.find found.handlers tag)

@[simp] theorem get_nil (node : Trie κ ν η) (tag : ν) :
    node.get [] tag = FiniteMap.find node.handlers tag := rfl

theorem get_cons (node : Trie κ ν η) (key : κ) (path : List κ) (tag : ν) :
    node.get (key :: path) tag =
      (FiniteMap.find node.children key).bind (fun child => child.get path tag) := by
  cases found : FiniteMap.find node.children key <;> simp [get, sub_cons, found]

@[simp] theorem get_empty (path : List κ) (tag : ν) :
    (empty : Trie κ ν η).get path tag = none := by
  cases path with
  | nil => rfl
  | cons key path => rfl

end Entries

section Update
variable [LinearOrder κ] [LinearOrder ν]

/-- Set one entry, creating the nodes on the way. -/
def insert (path : List κ) (tag : ν) (handler : η) (node : Trie κ ν η) : Trie κ ν η :=
  match path with
  | [] => { node with handlers := FiniteMap.insert tag handler node.handlers }
  | key :: rest =>
      let child := (FiniteMap.find node.children key).getD empty
      { node with children := FiniteMap.insert key (insert rest tag handler child) node.children }

/-- Delete one entry and unlink every node this leaves dead. -/
def erase (path : List κ) (tag : ν) (node : Trie κ ν η) : Trie κ ν η :=
  match path with
  | [] => { node with handlers := FiniteMap.erase node.handlers tag }
  | key :: rest =>
      match FiniteMap.find node.children key with
      | none => node
      | some child =>
          let child' := erase rest tag child
          if child'.isDead then { node with children := FiniteMap.erase node.children key }
          else { node with children := FiniteMap.insert key child' node.children }

theorem insert_ne_empty (path : List κ) (tag : ν) (handler : η) (node : Trie κ ν η) :
    insert path tag handler node ≠ empty := by
  cases path <;> simp [insert, empty]

/-- Insertion changes exactly one entry. -/
theorem get_insert (path : List κ) (tag : ν) (handler : η) (node : Trie κ ν η)
    (other : List κ) (otherTag : ν) :
    (insert path tag handler node).get other otherTag =
      if other = path ∧ otherTag = tag then some handler else node.get other otherTag := by
  induction path generalizing node other with
  | nil =>
    cases other with
    | nil => simp [insert, FiniteMap.find_insert]
    | cons key more => simp [insert, get_cons]
  | cons key rest ih =>
    cases other with
    | nil => simp [insert]
    | cons key' more =>
      rw [get_cons, get_cons]
      simp only [insert, FiniteMap.find_insert]
      by_cases same : key' = key
      · subst same
        rw [if_pos rfl, Option.bind_some, ih]
        cases found : FiniteMap.find node.children key' <;> simp
      · simp [same]

/-- Erasure changes exactly one entry: pruning loses none of the others. -/
theorem get_erase (path : List κ) (tag : ν) (node : Trie κ ν η)
    (other : List κ) (otherTag : ν) :
    (erase path tag node).get other otherTag =
      if other = path ∧ otherTag = tag then none else node.get other otherTag := by
  induction path generalizing node other with
  | nil =>
    cases other with
    | nil => simp [erase, FiniteMap.find_erase]
    | cons key more => simp [erase, get_cons]
  | cons key rest ih =>
    rw [erase]
    cases found : FiniteMap.find node.children key with
    | none =>
      simp only
      by_cases same : other = key :: rest
      · simp [same, get_cons, found]
      · simp [same]
    | some child =>
      simp only
      cases other with
      | nil => split <;> simp
      | cons key' more =>
        have entries := ih child more
        by_cases same : key' = key
        · subst same
          split
          · next dead =>
            rw [(isDead_iff _).mp dead, get_empty] at entries
            simpa [get_cons, FiniteMap.find_erase, found] using entries
          · simpa [get_cons, FiniteMap.find_insert, found] using entries
        · split <;> simp [get_cons, FiniteMap.find_erase, FiniteMap.find_insert, same]

/-- Every map is sorted and every node below the root is alive. -/
inductive Canonical : Trie κ ν η → Prop
  | mk (node : Trie κ ν η)
      (handlersSorted : FiniteMap.Sorted node.handlers)
      (childrenSorted : FiniteMap.Sorted node.children)
      (alive : ∀ key child, FiniteMap.find node.children key = some child → child ≠ empty)
      (below : ∀ key child, FiniteMap.find node.children key = some child → Canonical child) :
      Canonical node

theorem Canonical.empty : Canonical (Trie.empty : Trie κ ν η) :=
  .mk _ FiniteMap.sorted_nil FiniteMap.sorted_nil (fun _ _ found => by cases found)
    (fun _ _ found => by cases found)

theorem Canonical.child {node child : Trie κ ν η} (canonical : node.Canonical) {key : κ}
    (found : FiniteMap.find node.children key = some child) : child.Canonical := by
  cases canonical with
  | mk _ _ _ _ below => exact below key child found

theorem Canonical.insert {node : Trie κ ν η} (canonical : node.Canonical)
    (path : List κ) (tag : ν) (handler : η) : (insert path tag handler node).Canonical := by
  induction path generalizing node with
  | nil =>
    obtain ⟨_, handlersSorted, childrenSorted, alive, below⟩ := canonical
    exact .mk _ (handlersSorted.insert tag handler) childrenSorted alive below
  | cons key rest ih =>
    have childCanonical : ((FiniteMap.find node.children key).getD Trie.empty).Canonical := by
      cases found : FiniteMap.find node.children key with
      | none => exact .empty
      | some child => exact canonical.child found
    obtain ⟨_, handlersSorted, childrenSorted, alive, below⟩ := canonical
    refine .mk _ handlersSorted (childrenSorted.insert key _) ?_ ?_
    · intro other child found
      simp only [Trie.insert, FiniteMap.find_insert] at found
      split at found
      · cases found
        exact insert_ne_empty _ _ _ _
      · exact alive other child found
    · intro other child found
      simp only [Trie.insert, FiniteMap.find_insert] at found
      split at found
      · cases found
        exact ih childCanonical
      · exact below other child found

theorem Canonical.erase {node : Trie κ ν η} (canonical : node.Canonical)
    (path : List κ) (tag : ν) : (erase path tag node).Canonical := by
  induction path generalizing node with
  | nil =>
    obtain ⟨_, handlersSorted, childrenSorted, alive, below⟩ := canonical
    exact .mk _ (handlersSorted.erase tag) childrenSorted alive below
  | cons key rest ih =>
    rw [Trie.erase]
    cases found : FiniteMap.find node.children key with
    | none => exact canonical
    | some child =>
      have childCanonical := ih (canonical.child found)
      obtain ⟨_, handlersSorted, childrenSorted, alive, below⟩ := canonical
      simp only
      split
      · refine .mk _ handlersSorted (childrenSorted.erase key) ?_ ?_
        all_goals
          intro other kept member
          simp only [FiniteMap.find_erase] at member
          split at member
          · cases member
          · first
              | exact alive other kept member
              | exact below other kept member
      · next notDead =>
        refine .mk _ handlersSorted (childrenSorted.insert key _) ?_ ?_
        · intro other kept member
          simp only [FiniteMap.find_insert] at member
          split at member
          · cases member
            exact fun dead => notDead ((isDead_iff _).mpr dead)
          · exact alive other kept member
        · intro other kept member
          simp only [FiniteMap.find_insert] at member
          split at member
          · cases member
            exact childCanonical
          · exact below other kept member

/-- A canonical trie other than the empty one holds an entry. -/
theorem Canonical.exists_entry {node : Trie κ ν η} (canonical : node.Canonical)
    (nonempty : node ≠ Trie.empty) : ∃ path tag handler, node.get path tag = some handler := by
  induction canonical with
  | mk node _ _ alive _ ih =>
    obtain ⟨handlers, children⟩ := node
    cases handlers with
    | cons head rest => exact ⟨[], head.1, head.2, by rw [get_nil, FiniteMap.find_cons, if_pos rfl]⟩
    | nil =>
      cases children with
      | nil => exact absurd rfl nonempty
      | cons head rest =>
        obtain ⟨key, child⟩ := head
        have found : FiniteMap.find ((key, child) :: rest) key = some child := by
          simp [FiniteMap.find_cons]
        obtain ⟨path, tag, handler, entry⟩ := ih key child found (alive key child found)
        refine ⟨key :: path, tag, handler, ?_⟩
        rw [get_cons]
        simpa [found] using entry

/-- A canonical trie is determined by its entries. -/
theorem Canonical.ext {node other : Trie κ ν η} (canonical : node.Canonical)
    (canonical' : other.Canonical) (same : ∀ path tag, node.get path tag = other.get path tag) :
    node = other := by
  induction canonical generalizing other with
  | mk node handlersSorted childrenSorted alive below ih =>
    obtain ⟨_, handlersSorted', childrenSorted', alive', below'⟩ := canonical'
    have handlersEq : node.handlers = other.handlers :=
      handlersSorted.ext handlersSorted' (fun tag => same [] tag)
    have childrenEq : node.children = other.children := by
      refine childrenSorted.ext childrenSorted' (fun key => ?_)
      have entries : ∀ path tag,
          (FiniteMap.find node.children key).bind (fun child => child.get path tag) =
            (FiniteMap.find other.children key).bind (fun child => child.get path tag) := by
        intro path tag
        rw [← get_cons, ← get_cons]
        exact same (key :: path) tag
      cases left : FiniteMap.find node.children key with
      | none =>
        cases right : FiniteMap.find other.children key with
        | none => rfl
        | some child =>
          obtain ⟨path, tag, handler, entry⟩ :=
            (below' key child right).exists_entry (alive' key child right)
          have impossible := entries path tag
          simp [left, right, entry] at impossible
      | some child =>
        cases right : FiniteMap.find other.children key with
        | none =>
          obtain ⟨path, tag, handler, entry⟩ :=
            (below key child left).exists_entry (alive key child left)
          have impossible := entries path tag
          simp [left, right, entry] at impossible
        | some child' =>
          have equal := ih key child left (below' key child' right) (fun path tag => by
            simpa [left, right] using entries path tag)
          rw [equal]
    obtain ⟨handlers, children⟩ := node
    obtain ⟨handlers', children'⟩ := other
    simp only at handlersEq childrenEq
    rw [handlersEq, childrenEq]

theorem Canonical.sub {node found : Trie κ ν η} (canonical : node.Canonical) {path : List κ}
    (reached : node.sub path = some found) : found.Canonical := by
  induction path generalizing node with
  | nil =>
    cases reached
    exact canonical
  | cons key path ih =>
    obtain ⟨child, step, rest⟩ := Option.bind_eq_some_iff.mp reached
    exact ih (canonical.child step) rest

/-- No node below the root of a canonical trie is dead. -/
theorem Canonical.sub_ne_empty {node found : Trie κ ν η} (canonical : node.Canonical)
    {path : List κ} (below : path ≠ []) (reached : node.sub path = some found) :
    found ≠ Trie.empty := by
  obtain ⟨front, last, rfl⟩ := (List.eq_nil_or_concat' path).resolve_left below
  rw [sub_append] at reached
  obtain ⟨parent, upTo, step⟩ := Option.bind_eq_some_iff.mp reached
  obtain ⟨child, found', rest⟩ := Option.bind_eq_some_iff.mp step
  cases rest
  cases canonical.sub upTo with
  | mk _ _ _ alive _ => exact alive last found found'

theorem Canonical.eq_empty_iff {node : Trie κ ν η} (canonical : node.Canonical) :
    node = Trie.empty ↔ ∀ path tag, node.get path tag = none := by
  constructor
  · intro same path tag
    rw [same, get_empty]
  · intro absent
    exact canonical.ext .empty (fun path tag => by rw [absent, get_empty])

/-- Erasing an entry that a canonical trie does not hold changes nothing. -/
theorem Canonical.erase_absent {node : Trie κ ν η} (canonical : node.Canonical) {path : List κ}
    {tag : ν} (absent : node.get path tag = none) : Trie.erase path tag node = node := by
  refine (canonical.erase path tag).ext canonical (fun other otherTag => ?_)
  rw [get_erase]
  split
  · rename_i same
    rw [same.1, same.2, absent]
  · rfl

end Update

section Walk
variable [LinearOrder κ]

/-- Walk down along `steps` while there are children for them, remembering the
last node whose table has something to pick. -/
def walk (pick : FiniteMap ν η → Option η) (steps : List (κ × τ)) (node : Trie κ ν η)
    (last : Option (τ × Trie κ ν η × η)) : Option (τ × Trie κ ν η × η) :=
  match steps with
  | [] => last
  | (key, payload) :: rest =>
      match FiniteMap.find node.children key with
      | none => last
      | some child =>
          walk pick rest child
            (((pick child.handlers).map (fun handler => (payload, child, handler))).or last)

/-- What the walk dispatches on: the node at a path with its picked handler. -/
def pickAt (pick : FiniteMap ν η → Option η) (node : Trie κ ν η) (path : List κ) :
    Option (Trie κ ν η × η) :=
  (node.sub path).bind (fun found => (pick found.handlers).map (fun handler => (found, handler)))

/-- The remembering walk is longest-prefix dispatch, with the remembered match
as the answer when no prefix applies. -/
theorem walk_eq_longestMatch (pick : FiniteMap ν η → Option η) (steps : List (κ × τ))
    (node : Trie κ ν η) (last : Option (τ × Trie κ ν η × η)) :
    walk pick steps node last = (longestMatch (pickAt pick node) steps).or last := by
  induction steps generalizing node last with
  | nil => rfl
  | cons step rest ih =>
    obtain ⟨key, payload⟩ := step
    rw [walk, longestMatch]
    cases found : FiniteMap.find node.children key with
    | none =>
      have nothing : ∀ path, pickAt pick node (key :: path) = none := by
        intro path
        simp [pickAt, sub_cons, found]
      have deeper : longestMatch (fun path => pickAt pick node (key :: path)) rest = none :=
        (longestMatch_eq_none_iff _ _).mpr (fun path _ _ => nothing path)
      rw [deeper, nothing, Option.map_none, Option.or_none, Option.none_or]
    | some child =>
      have descend : (fun path => pickAt pick node (key :: path)) = pickAt pick child := by
        funext path
        simp [pickAt, sub_cons, found]
      have here : pickAt pick node [key] =
          (pick child.handlers).map (fun handler => (child, handler)) := by
        simp [pickAt, sub_cons, found]
      simp only
      rw [ih, descend, here, Option.or_assoc, Option.map_map]
      rfl

end Walk
end Trie
end Restio.Lib
