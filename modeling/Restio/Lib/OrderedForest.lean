import Mathlib.Data.List.Basic
import Mathlib.Data.List.Nodup

/-!
# Forests in insertion order

A forest is a list of branches, each with a key, the values stored at it and a
forest of children. `push` follows a path of keys from the roots, takes the first
sibling with the key or appends one, and stores its value at the last. So
siblings stand in the order of first insertion and values in insertion order.

`firstEnd` is depth-first search in sibling order for a text of symbols: each
branch admits some symbols, and the search ends in the first group of siblings of
which one admits the last symbol and stores an accepted value. Which branch of
that group is taken is left to the caller.
-/

set_option autoImplicit false

namespace Restio.Lib

structure Branch (κ μ : Type) where
  key : κ
  values : List μ
  children : List (Branch κ μ)

abbrev Forest (κ μ : Type) := List (Branch κ μ)

namespace Forest
variable {κ μ σ : Type}

/-- `value` is stored at the end of the path of keys. -/
def Stored : List κ → μ → Forest κ μ → Prop
  | [], _, _ => False
  | key :: path, value, nodes =>
      ∃ node ∈ nodes, node.key = key ∧
        (path = [] ∧ value ∈ node.values ∨ Stored path value node.children)

theorem stored_single_iff {key : κ} {value : μ} {nodes : Forest κ μ} :
    Stored [key] value nodes ↔ ∃ node ∈ nodes, node.key = key ∧ value ∈ node.values := by
  simp [Stored]

theorem stored_cons_cons_iff {key next : κ} {path : List κ} {value : μ} {nodes : Forest κ μ} :
    Stored (key :: next :: path) value nodes ↔
      ∃ node ∈ nodes, node.key = key ∧ Stored (next :: path) value node.children := by
  simp only [Stored, List.cons_ne_nil, false_and, false_or]

/-- The branches `inner` lead from the roots `nodes` down to the siblings `group`. -/
def Reaches : List (Branch κ μ) → Forest κ μ → Forest κ μ → Prop
  | [], nodes, group => group = nodes
  | node :: inner, nodes, group => node ∈ nodes ∧ Reaches inner node.children group

/-- Siblings have different keys and no branch is bare. -/
inductive Grown : Forest κ μ → Prop
  | intro {nodes : Forest κ μ} (distinct : (nodes.map Branch.key).Nodup)
      (live : ∀ node ∈ nodes, node.values ≠ [] ∨ node.children ≠ [])
      (below : ∀ node ∈ nodes, Grown node.children) : Grown nodes

theorem Grown.nil : Grown ([] : Forest κ μ) := .intro (by simp) (by simp) (by simp)

theorem Grown.distinct {nodes : Forest κ μ} (grown : Grown nodes) :
    (nodes.map Branch.key).Nodup := by
  cases grown
  assumption

theorem Grown.live {nodes : Forest κ μ} (grown : Grown nodes) {node : Branch κ μ}
    (member : node ∈ nodes) : node.values ≠ [] ∨ node.children ≠ [] := by
  cases grown with
  | intro _ live _ => exact live node member

theorem Grown.child {nodes : Forest κ μ} (grown : Grown nodes) {node : Branch κ μ}
    (member : node ∈ nodes) : Grown node.children := by
  cases grown with
  | intro _ _ below => exact below node member

theorem Grown.eq_of_key {nodes : Forest κ μ} (grown : Grown nodes) {node other : Branch κ μ}
    (member : node ∈ nodes) (member' : other ∈ nodes) (same : node.key = other.key) :
    node = other :=
  List.inj_on_of_nodup_map grown.distinct member member' same

/-- Below every branch of a grown forest some value is stored. -/
theorem Grown.exists_stored {nodes : Forest κ μ} (grown : Grown nodes) {node : Branch κ μ}
    (member : node ∈ nodes) : ∃ path value, Stored (node.key :: path) value nodes := by
  induction grown generalizing node with
  | @intro nodes distinct live below ih =>
    rcases live node member with stored | more
    · obtain ⟨value, held⟩ := List.exists_mem_of_ne_nil _ stored
      exact ⟨[], value, stored_single_iff.mpr ⟨node, member, rfl, held⟩⟩
    · obtain ⟨child, childMember⟩ := List.exists_mem_of_ne_nil _ more
      obtain ⟨path, value, stored⟩ := ih node member childMember
      exact ⟨child.key :: path, value, stored_cons_cons_iff.mpr ⟨node, member, rfl, stored⟩⟩

theorem Reaches.grown {inner : List (Branch κ μ)} {nodes group : Forest κ μ}
    (reaches : Reaches inner nodes group) (grown : Grown nodes) : Grown group := by
  induction inner generalizing nodes with
  | nil =>
    rw [Reaches] at reaches
    exact reaches ▸ grown
  | cons node inner ih => exact ih reaches.2 (grown.child reaches.1)

theorem Reaches.stored {inner : List (Branch κ μ)} {nodes group : Forest κ μ}
    (reaches : Reaches inner nodes group) {path : List κ} {value : μ}
    (stored : Stored path value group) :
    Stored (inner.map Branch.key ++ path) value nodes := by
  induction inner generalizing nodes with
  | nil =>
    rw [Reaches] at reaches
    exact reaches ▸ stored
  | cons node inner ih => exact ⟨node, reaches.1, rfl, Or.inr (ih reaches.2)⟩

/-- In a grown forest the keys determine the branches passed and the group reached. -/
theorem Reaches.unique {inner inner' : List (Branch κ μ)} {nodes group group' : Forest κ μ}
    (grown : Grown nodes) (reaches : Reaches inner nodes group)
    (reaches' : Reaches inner' nodes group')
    (same : inner.map Branch.key = inner'.map Branch.key) : inner = inner' ∧ group = group' := by
  induction inner generalizing nodes inner' with
  | nil =>
    have none : inner' = [] := by simpa using same.symm
    subst none
    rw [Reaches] at reaches reaches'
    exact ⟨rfl, reaches.trans reaches'.symm⟩
  | cons node inner ih =>
    obtain ⟨node', inner', rfl⟩ : ∃ node' rest, inner' = node' :: rest :=
      List.exists_cons_of_ne_nil (by rintro rfl; simp at same)
    rw [List.map_cons, List.map_cons, List.cons.injEq] at same
    have sameNode : node = node' := grown.eq_of_key reaches.1 reaches'.1 same.1
    subst sameNode
    obtain ⟨innerEq, groupEq⟩ := ih (grown.child reaches.1) reaches.2 reaches'.2 same.2
    exact ⟨by rw [innerEq], groupEq⟩

section Insertion
variable [DecidableEq κ]

/-- The first sibling with the key, or a bare one. -/
def branchAt (key : κ) (nodes : Forest κ μ) : Branch κ μ :=
  (nodes.find? (fun node => node.key = key)).getD ⟨key, [], []⟩

/-- The values at the end of a path, in the order they are kept there. -/
def valuesAt : List κ → Forest κ μ → List μ
  | [], _ => []
  | [key], nodes => (branchAt key nodes).values
  | key :: next :: rest, nodes => valuesAt (next :: rest) (branchAt key nodes).children

@[simp] theorem valuesAt_nil (path : List κ) : valuesAt path ([] : Forest κ μ) = [] := by
  induction path with
  | nil => rfl
  | cons key rest ih =>
    cases rest with
    | nil => rfl
    | cons next rest => exact ih

theorem Grown.branchAt_key {nodes : Forest κ μ} (grown : Grown nodes) {node : Branch κ μ}
    (member : node ∈ nodes) : branchAt node.key nodes = node := by
  unfold branchAt
  cases found : nodes.find? (fun other => other.key = node.key) with
  | none => exact absurd (List.find?_eq_none.mp found node member) (by simp)
  | some other =>
    have same : other.key = node.key := by simpa using List.find?_some found
    exact grown.eq_of_key (List.mem_of_find?_eq_some found) member same

/-- At the keys of a branch that is reached stand its own values. -/
theorem Reaches.valuesAt {inner : List (Branch κ μ)} {nodes group : Forest κ μ}
    (reaches : Reaches inner nodes group) (grown : Grown nodes) {node : Branch κ μ}
    (member : node ∈ group) :
    Forest.valuesAt ((inner ++ [node]).map Branch.key) nodes = node.values := by
  induction inner generalizing nodes with
  | nil =>
    rw [Reaches] at reaches
    subst reaches
    rw [List.nil_append, List.map_singleton, Forest.valuesAt, grown.branchAt_key member]
  | cons first inner ih =>
    have further := ih reaches.2 (grown.child reaches.1)
    obtain ⟨key, rest, keys⟩ : ∃ key rest, (inner ++ [node]).map Branch.key = key :: rest :=
      List.exists_cons_of_ne_nil (by simp)
    rw [List.cons_append, List.map_cons, keys, Forest.valuesAt, grown.branchAt_key reaches.1,
      ← keys, further]

/-- Act on the first sibling with the key, appended bare when there is none. -/
def onBranch (key : κ) (act : Branch κ μ → Branch κ μ) : Forest κ μ → Forest κ μ
  | [] => [act ⟨key, [], []⟩]
  | node :: rest => if node.key = key then act node :: rest else node :: onBranch key act rest

/-- Store a value at the end of a path. -/
def push (value : μ) : List κ → Forest κ μ → Forest κ μ
  | [], nodes => nodes
  | [key], nodes =>
      onBranch key (fun node => { node with values := node.values ++ [value] }) nodes
  | key :: next :: rest, nodes =>
      onBranch key
        (fun node => { node with children := push value (next :: rest) node.children }) nodes

theorem onBranch_ne_nil (key : κ) (act : Branch κ μ → Branch κ μ) (nodes : Forest κ μ) :
    onBranch key act nodes ≠ [] := by
  cases nodes with
  | nil => simp [onBranch]
  | cons node rest =>
    unfold onBranch
    split <;> simp

theorem push_ne_nil (value : μ) (key : κ) (path : List κ) (nodes : Forest κ μ) :
    push value (key :: path) nodes ≠ [] := by
  cases path <;> exact onBranch_ne_nil _ _ _

/-- What the action adds to a branch's property is added to the siblings'. -/
theorem exists_onBranch_iff {key : κ} {act : Branch κ μ → Branch κ μ} {P : Branch κ μ → Prop}
    {new : Prop} (bare : ¬ P ⟨key, [], []⟩)
    (acted : ∀ node, node.key = key → (P (act node) ↔ P node ∨ new)) (nodes : Forest κ μ) :
    (∃ node ∈ onBranch key act nodes, P node) ↔ (∃ node ∈ nodes, P node) ∨ new := by
  induction nodes with
  | nil => simp [onBranch, acted ⟨key, [], []⟩ rfl, bare]
  | cons node rest ih =>
    unfold onBranch
    split
    · rename_i same
      simp only [List.exists_mem_cons_iff, acted node same, or_assoc]
      exact or_congr_right or_comm
    · simp only [List.exists_mem_cons_iff, ih, or_assoc]

theorem forall_onBranch {key : κ} {act : Branch κ μ → Branch κ μ} {P : Branch κ μ → Prop}
    {nodes : Forest κ μ} (kept : ∀ node ∈ nodes, P node) (bare : P (act ⟨key, [], []⟩))
    (acted : ∀ node, P node → P (act node)) : ∀ node ∈ onBranch key act nodes, P node := by
  induction nodes with
  | nil => simpa [onBranch] using bare
  | cons node rest ih =>
    obtain ⟨first, others⟩ := List.forall_mem_cons.mp kept
    unfold onBranch
    split
    · exact List.forall_mem_cons.mpr ⟨acted node first, others⟩
    · exact List.forall_mem_cons.mpr ⟨first, ih others⟩

/-- A new key comes behind those of the siblings. -/
theorem keys_onBranch {key : κ} {act : Branch κ μ → Branch κ μ}
    (keeps : ∀ node, (act node).key = node.key) (nodes : Forest κ μ) :
    (onBranch key act nodes).map Branch.key =
      nodes.map Branch.key ++ (if key ∈ nodes.map Branch.key then [] else [key]) := by
  induction nodes with
  | nil => simp [onBranch, keeps]
  | cons node rest ih =>
    unfold onBranch
    split
    · rename_i same
      simp [keeps, same]
    · rename_i other
      rw [List.map_cons, ih]
      simp [Ne.symm other]

theorem nodup_onBranch {key : κ} {act : Branch κ μ → Branch κ μ}
    (keeps : ∀ node, (act node).key = node.key) {nodes : Forest κ μ}
    (distinct : (nodes.map Branch.key).Nodup) :
    ((onBranch key act nodes).map Branch.key).Nodup := by
  rw [keys_onBranch keeps]
  split
  · simpa using distinct
  · rename_i absent
    exact List.Nodup.append distinct (List.nodup_singleton key) (by simpa using absent)

theorem branchAt_onBranch {key : κ} {act : Branch κ μ → Branch κ μ}
    (keeps : ∀ node, (act node).key = node.key) (nodes : Forest κ μ) (place : κ) :
    branchAt place (onBranch key act nodes) =
      if place = key then act (branchAt key nodes) else branchAt place nodes := by
  unfold branchAt
  induction nodes with
  | nil =>
    by_cases same : place = key
    · simp [onBranch, keeps, same]
    · simp [onBranch, keeps, same, Ne.symm same]
  | cons node rest ih =>
    unfold onBranch
    split
    · rename_i here
      by_cases same : place = key
      · simp [keeps, here, same]
      · simp [keeps, here, same, Ne.symm same]
    · rename_i other
      rw [List.find?_cons, List.find?_cons, List.find?_cons]
      by_cases found : node.key = place
      · have apart : place ≠ key := fun same => other (found.trans same)
        simp [found, apart]
      · simpa [found, other] using ih

/-- `push` appends its value to those at its path and leaves all others alone. -/
theorem valuesAt_push (value : μ) {path : List κ} (nonempty : path ≠ []) (place : List κ)
    (nodes : Forest κ μ) :
    valuesAt place (push value path nodes) =
      valuesAt place nodes ++ (if place = path then [value] else []) := by
  induction path generalizing nodes place with
  | nil => exact absurd rfl nonempty
  | cons key rest ih =>
    match place with
    | [] => simp [valuesAt]
    | [first] =>
      cases rest <;> unfold push valuesAt <;> rw [branchAt_onBranch (by simp)] <;>
        by_cases same : first = key <;> simp [same]
    | first :: second :: more =>
      cases rest with
      | nil =>
        unfold push valuesAt
        rw [branchAt_onBranch (by simp)]
        by_cases same : first = key <;> simp [same]
      | cons next rest =>
        unfold push valuesAt
        rw [branchAt_onBranch (by simp)]
        by_cases same : first = key
        · simp [same, ih (List.cons_ne_nil next rest)]
        · simp [same]

/-- `push` stores its value at its path and nothing else. -/
theorem stored_push_iff (value : μ) {path : List κ} (nonempty : path ≠ []) (nodes : Forest κ μ)
    (place : List κ) (stored : μ) :
    Stored place stored (push value path nodes) ↔
      Stored place stored nodes ∨ (place = path ∧ stored = value) := by
  induction path generalizing nodes place with
  | nil => exact absurd rfl nonempty
  | cons key rest ih =>
    cases place with
    | nil => simp [Stored]
    | cons first more =>
      cases rest with
      | nil =>
        unfold push Stored
        refine exists_onBranch_iff ?_ (fun node same => ?_) nodes
        · cases more <;> simp [Stored]
        · subst same
          cases more with
          | nil =>
            simp only [List.mem_append, List.mem_singleton, List.cons.injEq, true_and, and_true]
            rw [or_right_comm, and_or_left, eq_comm (a := first)]
          | cons second more => simp
      | cons next rest =>
        unfold push Stored
        refine exists_onBranch_iff ?_ (fun node same => ?_) nodes
        · cases more <;> simp [Stored]
        · subst same
          have deeper := ih (List.cons_ne_nil next rest) node.children more
          simp only [deeper, List.cons.injEq]
          rw [← or_assoc, and_or_left, eq_comm (a := first), and_assoc]

/-- `push` keeps siblings apart and leaves no branch bare. -/
theorem Grown.push {nodes : Forest κ μ} (grown : Grown nodes) (value : μ) (path : List κ) :
    Grown (Forest.push value path nodes) := by
  induction path generalizing nodes with
  | nil => exact grown
  | cons key rest ih =>
    cases grown with
    | intro distinct live below =>
      cases rest with
      | nil =>
        unfold Forest.push
        refine .intro (nodup_onBranch (by simp) distinct) ?_ ?_
        · exact forall_onBranch live (by simp) (by simp)
        · exact forall_onBranch below Grown.nil (fun node kept => kept)
      | cons next rest =>
        unfold Forest.push
        refine .intro (nodup_onBranch (by simp) distinct) ?_ ?_
        · exact forall_onBranch live (Or.inr (push_ne_nil value next rest []))
            (fun node _ => Or.inr (push_ne_nil value next rest node.children))
        · exact forall_onBranch below (ih Grown.nil) (fun node kept => ih kept)

end Insertion

section FirstOption

/-- A search may be completed behind its end when every end can be completed. -/
theorem findSome?_bind {α β γ : Type} (f : α → Option β) (k : β → Option γ) (xs : List α)
    (complete : ∀ x ∈ xs, ∀ y, f x = some y → (k y).isSome) :
    (xs.findSome? f).bind k = xs.findSome? (fun x => (f x).bind k) := by
  induction xs with
  | nil => rfl
  | cons x xs ih =>
    obtain ⟨first, others⟩ := List.forall_mem_cons.mp complete
    rw [List.findSome?_cons, List.findSome?_cons]
    cases found : f x with
    | none => exact ih others
    | some y =>
      obtain ⟨z, done⟩ := Option.isSome_iff_exists.mp (first y found)
      simp [done]

theorem findSome?_guard {α β : Type} (p : α → Bool) (g : α → β) (xs : List α) :
    xs.findSome? (fun x => if p x then some (g x) else none) = (xs.find? p).map g := by
  induction xs with
  | nil => rfl
  | cons x xs ih => cases holds : p x <;> simp [holds, ih]

end FirstOption

section Search
variable (admits : κ → σ → Bool) (accepts : μ → Bool)

/-- The branch admits the symbol and stores an accepted value. -/
def hit (symbol : σ) (node : Branch κ μ) : Bool :=
  admits node.key symbol && node.values.any accepts

/-- The first group of siblings in depth-first order in which the search for a
text can end, with the branches passed on the way. -/
def firstEnd : List σ → Forest κ μ → Option (List (Branch κ μ) × Forest κ μ)
  | [], _ => none
  | [symbol], nodes => if nodes.any (hit admits accepts symbol) then some ([], nodes) else none
  | symbol :: next :: rest, nodes =>
      nodes.findSome? (fun node =>
        if admits node.key symbol then
          (firstEnd (next :: rest) node.children).map (fun found => (node :: found.1, found.2))
        else none)

@[simp] theorem firstEnd_nil (text : List σ) :
    firstEnd admits accepts text ([] : Forest κ μ) = none := by
  match text with
  | [] | [_] | _ :: _ :: _ => rfl

theorem firstEnd_single_eq_some_iff (symbol : σ) (nodes group : Forest κ μ)
    (inner : List (Branch κ μ)) :
    firstEnd admits accepts [symbol] nodes = some (inner, group) ↔
      inner = [] ∧ group = nodes ∧ ∃ node ∈ nodes, hit admits accepts symbol node = true := by
  unfold firstEnd
  rw [← List.any_eq_true]
  split
  · rename_i struck
    simp [struck, eq_comm]
  · rename_i missed
    simp [missed]

/-- Before the last symbol the search goes on below the first sibling under which it
ends. -/
theorem firstEnd_cons_eq_some_iff (symbol next : σ) (rest : List σ) (nodes group : Forest κ μ)
    (inner : List (Branch κ μ)) :
    firstEnd admits accepts (symbol :: next :: rest) nodes = some (inner, group) ↔
      ∃ before node after below, nodes = before ++ node :: after ∧ inner = node :: below ∧
        admits node.key symbol = true ∧
        firstEnd admits accepts (next :: rest) node.children = some (below, group) ∧
        ∀ other ∈ before, admits other.key symbol = true →
          firstEnd admits accepts (next :: rest) other.children = none := by
  rw [firstEnd, List.findSome?_eq_some_iff]
  constructor
  · intro ⟨before, node, after, split_at, step, missed⟩
    split at step
    · rename_i admitted
      obtain ⟨⟨below, last⟩, found, same⟩ := Option.map_eq_some_iff.mp step
      obtain ⟨rfl, rfl⟩ := Prod.mk.inj same
      refine ⟨before, node, after, below, split_at, rfl, admitted, found, ?_⟩
      intro other member admits'
      simpa [admits'] using missed other member
    · cases step
  · intro ⟨before, node, after, below, split_at, same, admitted, found, missed⟩
    refine ⟨before, node, after, split_at, by rw [if_pos admitted, found, same]; rfl, ?_⟩
    intro other member
    split
    · rename_i admits'
      rw [missed other member admits', Option.map_none]
    · rfl

/-- Where the search ends, the branches passed admit all symbols but the last,
and a branch of the group is hit by the last. -/
theorem firstEnd_sound {text : List σ} {nodes group : Forest κ μ} {inner : List (Branch κ μ)}
    (found : firstEnd admits accepts text nodes = some (inner, group)) :
    Reaches inner nodes group ∧ ∃ front last, text = front ++ [last] ∧
      List.Forall₂ (fun node symbol => admits node.key symbol = true) inner front ∧
      ∃ node ∈ group, hit admits accepts last node = true := by
  induction text generalizing nodes inner with
  | nil => cases found
  | cons symbol rest ih =>
    cases rest with
    | nil =>
      obtain ⟨rfl, rfl, struck⟩ := (firstEnd_single_eq_some_iff ..).mp found
      exact ⟨rfl, [], symbol, rfl, .nil, struck⟩
    | cons next rest =>
      obtain ⟨before, node, after, below, rfl, rfl, admitted, sub, -⟩ :=
        (firstEnd_cons_eq_some_iff ..).mp found
      obtain ⟨reaches, front, last, cut, along, ends⟩ := ih sub
      have member : node ∈ before ++ node :: after := by simp
      exact ⟨⟨member, reaches⟩, symbol :: front, last, by rw [cut]; rfl,
        .cons admitted along, ends⟩

/-- A branch is hit when it admits the symbol and stores an accepted value. -/
theorem hit_iff (symbol : σ) (node : Branch κ μ) :
    hit admits accepts symbol node = true ↔
      admits node.key symbol = true ∧ ∃ value ∈ node.values, accepts value = true := by
  rw [hit, Bool.and_eq_true_iff, List.any_eq_true]

theorem firstEnd_last_isSome_iff (symbol : σ) (nodes : Forest κ μ) :
    (firstEnd admits accepts [symbol] nodes).isSome ↔
      ∃ node ∈ nodes, hit admits accepts symbol node = true := by
  rw [Option.isSome_iff_exists]
  constructor
  · intro ⟨⟨inner, group⟩, found⟩
    exact ((firstEnd_single_eq_some_iff ..).mp found).2.2
  · intro struck
    exact ⟨([], nodes), (firstEnd_single_eq_some_iff ..).mpr ⟨rfl, rfl, struck⟩⟩

theorem firstEnd_cons_isSome_iff (symbol next : σ) (rest : List σ) (nodes : Forest κ μ) :
    (firstEnd admits accepts (symbol :: next :: rest) nodes).isSome ↔
      ∃ node ∈ nodes, admits node.key symbol = true ∧
        (firstEnd admits accepts (next :: rest) node.children).isSome := by
  rw [firstEnd, List.findSome?_isSome_iff]
  refine exists_congr (fun node => and_congr_right (fun _ => ?_))
  split
  · rename_i admitted
    rw [Option.isSome_map, admitted]
    exact (and_iff_right rfl).symm
  · rename_i refused
    simp [refused]

/-- The search ends somewhere exactly when an accepted value is stored at a path
that admits the text. -/
theorem firstEnd_isSome_iff (text : List σ) (nodes : Forest κ μ) :
    (firstEnd admits accepts text nodes).isSome ↔
      ∃ path value, Stored path value nodes ∧ accepts value = true ∧
        List.Forall₂ (fun key symbol => admits key symbol = true) path text := by
  induction text generalizing nodes with
  | nil =>
    constructor
    · intro found
      cases found
    · intro ⟨path, value, stored, _, along⟩
      cases along
      exact stored.elim
  | cons symbol rest ih =>
    cases rest with
    | nil =>
      rw [firstEnd_last_isSome_iff]
      constructor
      · intro ⟨node, member, struck⟩
        obtain ⟨admitted, value, stored, accepted⟩ := (hit_iff _ _ _ _).mp struck
        exact ⟨[node.key], value, stored_single_iff.mpr ⟨node, member, rfl, stored⟩, accepted,
          .cons admitted .nil⟩
      · intro ⟨path, value, stored, accepted, along⟩
        cases along with
        | cons admitted rest =>
          cases rest
          obtain ⟨node, member, rfl, held⟩ := stored_single_iff.mp stored
          exact ⟨node, member, (hit_iff _ _ _ _).mpr ⟨admitted, value, held, accepted⟩⟩
    | cons next rest =>
      rw [firstEnd_cons_isSome_iff]
      constructor
      · intro ⟨node, member, admitted, found⟩
        obtain ⟨path, value, stored, accepted, along⟩ := (ih node.children).mp found
        exact ⟨node.key :: path, value, ⟨node, member, rfl, Or.inr stored⟩, accepted,
          .cons admitted along⟩
      · intro ⟨path, value, stored, accepted, along⟩
        cases along with
        | @cons key _ path _ admitted along =>
          obtain ⟨node, member, rfl, ⟨rfl, -⟩ | deeper⟩ := stored
          · cases along
          · have found := (ih node.children).mpr ⟨path, value, deeper, accepted, along⟩
            exact ⟨node, member, admitted, found⟩

end Search
end Forest
end Restio.Lib
