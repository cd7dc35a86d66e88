import Restio.Lib.OrderedForest

/-!
# What is seen of the values in a forest

`mapValues` replaces the values of every branch by a view of them and keeps keys and
siblings; `shape` keeps nothing else. A value that is pushed once more at a path it
is stored at is put behind itself, which a view may ignore (`IgnoresRepeats`): then
it does not see the push at all (`mapValues_push`). `Repeats` carries this through
any number of such pushes. Where every value is replaced on its own, a push stays a
push (`mapValues_map_push`).
-/

set_option autoImplicit false

namespace Restio.Lib
variable {κ μ ν : Type}

mutual

/-- The branch with views of the values in it. -/
def Branch.mapValues (view : List μ → List ν) : Branch κ μ → Branch κ ν
  | ⟨key, values, children⟩ => ⟨key, view values, Forest.mapValues view children⟩

def Forest.mapValues (view : List μ → List ν) : List (Branch κ μ) → List (Branch κ ν)
  | [] => []
  | node :: rest => node.mapValues view :: Forest.mapValues view rest

end

theorem Branch.mapValues_eq (view : List μ → List ν) (node : Branch κ μ) :
    node.mapValues view =
      ⟨node.key, view node.values, Forest.mapValues view node.children⟩ := by
  cases node
  rfl

namespace Forest

theorem mapValues_eq_map (view : List μ → List ν) (nodes : Forest κ μ) :
    mapValues view nodes = nodes.map (Branch.mapValues view) := by
  induction nodes with
  | nil => rfl
  | cons node rest ih => rw [mapValues, ih, List.map_cons]

/-- The keys of all branches, without any values. -/
def shape (nodes : Forest κ μ) : Forest κ Empty := mapValues (fun _ => []) nodes

/-- The view does not change when a value that is held is put behind the others. -/
def IgnoresRepeats (view : List μ → List ν) : Prop :=
  ∀ held value, value ∈ held → view (held ++ [value]) = view held

theorem ignoresRepeats_find (p : μ → Bool) :
    IgnoresRepeats (fun held => (held.find? p).toList) := by
  intro held value member
  dsimp only
  rw [List.find?_append]
  cases first : held.find? p with
  | some other => rfl
  | none =>
    have refused := List.find?_eq_none.mp first value member
    simp [refused]

/-- The second forest comes from the first by pushes of values where they are stored. -/
structure Repeats (nodes nodes' : Forest κ μ) : Prop where
  grown : Grown nodes'
  stored : ∀ path value, Stored path value nodes → Stored path value nodes'
  seen : ∀ {ν : Type} {view : List μ → List ν}, IgnoresRepeats view →
    mapValues view nodes' = mapValues view nodes

theorem Repeats.refl {nodes : Forest κ μ} (grown : Grown nodes) : Repeats nodes nodes where
  grown := grown
  stored := fun _ _ stored => stored
  seen := fun _ => rfl

theorem Repeats.shape_eq {nodes nodes' : Forest κ μ} (repeats : Repeats nodes nodes') :
    shape nodes' = shape nodes := by
  apply repeats.seen
  intro held value member
  rfl

section Insertion
variable [DecidableEq κ]

/-- An action on a branch that is there is seen at that branch only. -/
theorem map_onBranch {β : Type} {key : κ} {act : Branch κ μ → Branch κ μ}
    {see : Branch κ μ → β} {nodes : Forest κ μ} (present : ∃ node ∈ nodes, node.key = key)
    (unseen : ∀ node ∈ nodes, node.key = key → see (act node) = see node) :
    (onBranch key act nodes).map see = nodes.map see := by
  induction nodes with
  | nil =>
    obtain ⟨node, member, -⟩ := present
    cases member
  | cons node rest ih =>
    obtain ⟨first, others⟩ := List.forall_mem_cons.mp unseen
    unfold onBranch
    split
    · rename_i here
      rw [List.map_cons, List.map_cons, first here]
    · rename_i other
      obtain ⟨found, member, same⟩ := present
      rcases List.mem_cons.mp member with rfl | deeper
      · exact absurd same other
      · rw [List.map_cons, List.map_cons, ih ⟨found, deeper, same⟩ others]

/-- In a grown forest a value that is pushed where it is stored is not seen. -/
theorem mapValues_push {view : List μ → List ν} (ignores : IgnoresRepeats view)
    {nodes : Forest κ μ} (grown : Grown nodes) {path : List κ} {value : μ}
    (stored : Stored path value nodes) :
    mapValues view (push value path nodes) = mapValues view nodes := by
  induction path generalizing nodes with
  | nil => exact stored.elim
  | cons key path ih =>
    rw [mapValues_eq_map, mapValues_eq_map]
    cases path with
    | nil =>
      obtain ⟨node, member, same, held⟩ := stored_single_iff.mp stored
      unfold push
      apply map_onBranch ⟨node, member, same⟩
      intro other member' same'
      obtain rfl := grown.eq_of_key member' member (same'.trans same.symm)
      rw [Branch.mapValues_eq, Branch.mapValues_eq, ignores _ _ held]
    | cons next rest =>
      obtain ⟨node, member, same, deeper⟩ := stored_cons_cons_iff.mp stored
      unfold push
      apply map_onBranch ⟨node, member, same⟩
      intro other member' same'
      obtain rfl := grown.eq_of_key member' member (same'.trans same.symm)
      rw [Branch.mapValues_eq, Branch.mapValues_eq, ih (grown.child member) deeper]

/-- An action is carried through a change of all branches. -/
theorem onBranch_map {view : Branch κ μ → Branch κ ν} {key : κ} {act : Branch κ μ → Branch κ μ}
    {act' : Branch κ ν → Branch κ ν} (keys : ∀ node, (view node).key = node.key)
    (fresh : view ⟨key, [], []⟩ = ⟨key, [], []⟩)
    (carried : ∀ node, view (act node) = act' (view node)) (nodes : Forest κ μ) :
    (onBranch key act nodes).map view = onBranch key act' (nodes.map view) := by
  induction nodes with
  | nil => rw [onBranch, List.map_singleton, List.map_nil, onBranch, carried, fresh]
  | cons node rest ih =>
    rw [List.map_cons, onBranch, onBranch, keys]
    split
    · rw [List.map_cons, carried]
    · rw [List.map_cons, ih]

/-- A push where every value is replaced on its own. -/
theorem mapValues_map_push (f : μ → ν) (value : μ) (path : List κ) (nodes : Forest κ μ) :
    mapValues (List.map f) (push value path nodes) =
      push (f value) path (mapValues (List.map f) nodes) := by
  have keys : ∀ node : Branch κ μ, (node.mapValues (List.map f)).key = node.key := by
    intro node
    rw [Branch.mapValues_eq]
  induction path generalizing nodes with
  | nil => rfl
  | cons key path ih =>
    rw [mapValues_eq_map, mapValues_eq_map]
    cases path with
    | nil =>
      refine onBranch_map keys rfl (fun node => ?_) nodes
      rw [Branch.mapValues_eq, Branch.mapValues_eq, List.map_append]
      rfl
    | cons next rest =>
      refine onBranch_map keys rfl (fun node => ?_) nodes
      rw [Branch.mapValues_eq, Branch.mapValues_eq, ih]

theorem Repeats.push {nodes nodes' : Forest κ μ} (repeats : Repeats nodes nodes') {path : List κ}
    {value : μ} (stored : Stored path value nodes) : Repeats nodes (push value path nodes') where
  grown := repeats.grown.push value path
  stored := by
    intro place other held
    have nonempty : path ≠ [] := by
      rintro rfl
      exact stored
    rw [stored_push_iff value nonempty]
    exact Or.inl (repeats.stored place other held)
  seen := by
    intro ν view ignores
    rw [mapValues_push ignores repeats.grown (repeats.stored path value stored),
      repeats.seen ignores]

end Insertion
end Forest
end Restio.Lib
