import Mathlib.Data.List.Lex
import Restio.Lib.OrderedForest

/-!
# The order of paths in a forest

A path through a forest is a list of positions among siblings, and depth-first
search meets the paths in the lexicographic order of their positions
(`firstEnd_first`).

The same order is fixed by the paths of keys that were pushed and their order:
among siblings the one comes first that was passed first (`RankedBy`,
`InOrder.push`). So it can be followed from one list of paths to another, here to
the same paths all continued by one more key (`precedes_continued`): the one
change is that a path that ended among the siblings now passes one of them.
-/

set_option autoImplicit false

namespace Restio.Lib.Forest
variable {κ μ σ : Type}

section Positions

/-- The branches at a list of positions, from the roots down. -/
def follow : List Nat → Forest κ μ → Option (List (Branch κ μ))
  | [], _ => some []
  | position :: positions, nodes =>
      nodes[position]?.bind (fun node =>
        (follow positions node.children).map (fun branches => node :: branches))

theorem follow_cons_eq_some_iff (position : Nat) (positions : List Nat) (nodes : Forest κ μ)
    (branches : List (Branch κ μ)) :
    follow (position :: positions) nodes = some branches ↔
      ∃ node below, nodes[position]? = some node ∧ follow positions node.children = some below ∧
        branches = node :: below := by
  rw [follow, Option.bind_eq_some_iff]
  constructor
  · intro ⟨node, found, rest⟩
    obtain ⟨below, deeper, same⟩ := Option.map_eq_some_iff.mp rest
    exact ⟨node, below, found, deeper, same.symm⟩
  · intro ⟨node, below, found, deeper, same⟩
    exact ⟨node, found, by rw [deeper, same]; rfl⟩

theorem length_of_follow {positions : List Nat} {nodes : Forest κ μ}
    {branches : List (Branch κ μ)} (followed : follow positions nodes = some branches) :
    branches.length = positions.length := by
  induction positions generalizing nodes branches with
  | nil =>
    cases followed
    rfl
  | cons position positions ih =>
    obtain ⟨node, below, -, deeper, rfl⟩ := (follow_cons_eq_some_iff _ _ _ _).mp followed
    rw [List.length_cons, List.length_cons, ih deeper]

/-- One more position below a group that was reached. -/
theorem follow_concat {positions : List Nat} {nodes group : Forest κ μ}
    {inner : List (Branch κ μ)} (followed : follow positions nodes = some inner)
    (reaches : Reaches inner nodes group) {position : Nat} {node : Branch κ μ}
    (found : group[position]? = some node) :
    follow (positions ++ [position]) nodes = some (inner ++ [node]) := by
  induction positions generalizing nodes inner with
  | nil =>
    cases followed
    rw [Reaches] at reaches
    subst reaches
    exact (follow_cons_eq_some_iff _ _ _ _).mpr ⟨node, [], found, rfl, rfl⟩
  | cons first positions ih =>
    obtain ⟨branch, below, foundBranch, deeper, rfl⟩ :=
      (follow_cons_eq_some_iff _ _ _ _).mp followed
    exact (follow_cons_eq_some_iff _ _ _ _).mpr
      ⟨branch, below ++ [node], foundBranch, ih deeper reaches.2, rfl⟩

/-- The last of the branches is a root, or lies below the first. -/
theorem follow_concat_cases {position : Nat} {positions : List Nat} {nodes : Forest κ μ}
    {inner : List (Branch κ μ)} {node : Branch κ μ}
    (followed : follow (position :: positions) nodes = some (inner ++ [node])) :
    (positions = [] ∧ inner = [] ∧ nodes[position]? = some node) ∨
      ∃ first below, positions ≠ [] ∧ inner = first :: below ∧ nodes[position]? = some first ∧
        follow positions first.children = some (below ++ [node]) := by
  obtain ⟨branch, below, found, deeper, same⟩ := (follow_cons_eq_some_iff _ _ _ _).mp followed
  have size := length_of_follow deeper
  cases inner with
  | nil =>
    obtain ⟨rfl, rfl⟩ := List.cons.inj same
    exact Or.inl ⟨List.length_eq_zero_iff.mp size.symm, rfl, found⟩
  | cons first inner =>
    obtain ⟨rfl, rfl⟩ := List.cons.inj same
    have more : positions ≠ [] := by
      rw [← List.length_pos_iff, ← size]
      simp
    exact Or.inr ⟨first, inner, more, rfl, found, deeper⟩

theorem follow_nil_ne_concat (nodes : Forest κ μ) (inner : List (Branch κ μ))
    (node : Branch κ μ) : follow [] nodes ≠ some (inner ++ [node]) := by
  rw [follow]
  simp

/-- The branches at positions reach the group of the last of them. -/
theorem reaches_of_follow {positions : List Nat} {nodes : Forest κ μ} {inner : List (Branch κ μ)}
    {node : Branch κ μ} (followed : follow positions nodes = some (inner ++ [node])) :
    ∃ group, Reaches inner nodes group ∧ node ∈ group := by
  induction positions generalizing nodes inner with
  | nil => exact absurd followed (follow_nil_ne_concat _ _ _)
  | cons position positions ih =>
    rcases follow_concat_cases followed with
      ⟨rfl, rfl, found⟩ | ⟨first, below, -, rfl, found, deeper⟩
    · exact ⟨nodes, rfl, List.mem_of_getElem? found⟩
    · obtain ⟨group, reaches, member⟩ := ih deeper
      exact ⟨group, ⟨List.mem_of_getElem? found, reaches⟩, member⟩

theorem stored_of_follow {positions : List Nat} {nodes : Forest κ μ} {inner : List (Branch κ μ)}
    {node : Branch κ μ} (followed : follow positions nodes = some (inner ++ [node])) {value : μ}
    (held : value ∈ node.values) : Stored ((inner ++ [node]).map Branch.key) value nodes := by
  obtain ⟨group, reaches, member⟩ := reaches_of_follow followed
  rw [List.map_append]
  exact reaches.stored (stored_single_iff.mpr ⟨node, member, rfl, held⟩)

theorem follow_of_stored {path : List κ} {value : μ} {nodes : Forest κ μ}
    (stored : Stored path value nodes) :
    ∃ positions inner node, follow positions nodes = some (inner ++ [node]) ∧
      (inner ++ [node]).map Branch.key = path ∧ value ∈ node.values := by
  induction path generalizing nodes with
  | nil => exact stored.elim
  | cons key path ih =>
    obtain ⟨branch, member, rfl, ⟨rfl, held⟩ | deeper⟩ := stored
    · obtain ⟨position, there⟩ := List.mem_iff_getElem?.mp member
      exact ⟨[position], [], branch,
        (follow_cons_eq_some_iff _ _ _ _).mpr ⟨branch, [], there, rfl, rfl⟩, rfl, held⟩
    · obtain ⟨position, there⟩ := List.mem_iff_getElem?.mp member
      obtain ⟨positions, inner, node, followed, rfl, held⟩ := ih deeper
      exact ⟨position :: positions, branch :: inner, node,
        (follow_cons_eq_some_iff _ _ _ _).mpr ⟨branch, _, there, followed, rfl⟩, rfl, held⟩

/-- What is stored at a path is held by a branch that is reached along it. -/
theorem reaches_of_stored {path : List κ} {value : μ} {nodes : Forest κ μ}
    (stored : Stored path value nodes) :
    ∃ inner group node, Reaches inner nodes group ∧ node ∈ group ∧
      (inner ++ [node]).map Branch.key = path ∧ value ∈ node.values := by
  obtain ⟨positions, inner, node, followed, keys, held⟩ := follow_of_stored stored
  obtain ⟨group, reaches, member⟩ := reaches_of_follow followed
  exact ⟨inner, group, node, reaches, member, keys, held⟩

/-- Lists of one length keep their lexicographic order in front of any others. -/
theorem lex_append {positions others : List Nat} (less : List.Lex (· < ·) positions others)
    (size : positions.length = others.length) (more more' : List Nat) :
    List.Lex (· < ·) (positions ++ more) (others ++ more') := by
  induction less with
  | nil => cases size
  | cons less ih => exact .cons (ih (Nat.succ.inj size))
  | rel less => exact .rel less

/-- In a grown forest different positions have different keys. -/
theorem positions_of_keys {positions others : List Nat} {nodes : Forest κ μ} (grown : Grown nodes)
    {branches branches' : List (Branch κ μ)} (followed : follow positions nodes = some branches)
    (followed' : follow others nodes = some branches')
    (same : branches.map Branch.key = branches'.map Branch.key) : positions = others := by
  induction positions generalizing nodes others branches branches' with
  | nil =>
    cases followed
    have nothing : branches' = [] := by simpa using same.symm
    have size := length_of_follow followed'
    rw [nothing] at size
    exact (List.length_eq_zero_iff.mp size.symm).symm
  | cons position positions ih =>
    obtain ⟨node, below, found, deeper, rfl⟩ := (follow_cons_eq_some_iff _ _ _ _).mp followed
    cases others with
    | nil =>
      cases followed'
      cases same
    | cons other others =>
      obtain ⟨node', below', found', deeper', rfl⟩ := (follow_cons_eq_some_iff _ _ _ _).mp followed'
      rw [List.map_cons, List.map_cons, List.cons.injEq] at same
      have sameNode := grown.eq_of_key (List.mem_of_getElem? found) (List.mem_of_getElem? found')
        same.1
      subst sameNode
      have distinct : nodes.Nodup := List.Nodup.of_map _ grown.distinct
      obtain ⟨bound, -⟩ := List.getElem?_eq_some_iff.mp found
      have samePosition : position = other :=
        (List.getElem?_inj bound distinct).mp (found.trans found'.symm)
      rw [samePosition, ih (grown.child (List.mem_of_getElem? found)) deeper deeper' same.2]

theorem follow_dropLast {positions : List Nat} {nodes : Forest κ μ} {inner : List (Branch κ μ)}
    {node : Branch κ μ} (followed : follow positions nodes = some (inner ++ [node])) :
    follow positions.dropLast nodes = some inner := by
  induction positions generalizing nodes inner with
  | nil => exact absurd followed (follow_nil_ne_concat _ _ _)
  | cons position positions ih =>
    rcases follow_concat_cases followed with
      ⟨rfl, rfl, -⟩ | ⟨first, below, more, rfl, found, deeper⟩
    · rfl
    · rw [List.dropLast_cons_of_ne_nil more]
      exact (follow_cons_eq_some_iff _ _ _ _).mpr ⟨first, below, found, ih deeper, rfl⟩

end Positions

section Search
variable {admits : κ → σ → Bool} {accepts : μ → Bool}

/-- The positions lead to the node along branches that admit the text, and the node
stores an accepted value. -/
structure Leads (admits : κ → σ → Bool) (accepts : μ → Bool) (text : List σ) (nodes : Forest κ μ)
    (positions : List Nat) (inner : List (Branch κ μ)) (node : Branch κ μ) : Prop where
  followed : follow positions nodes = some (inner ++ [node])
  along : List.Forall₂ (fun branch symbol => admits branch.key symbol = true) (inner ++ [node]) text
  accepted : ∃ value ∈ node.values, accepts value = true

theorem Leads.length_eq {text : List σ} {nodes : Forest κ μ} {positions : List Nat}
    {inner : List (Branch κ μ)} {node : Branch κ μ}
    (leads : Leads admits accepts text nodes positions inner node) :
    positions.length = text.length :=
  (length_of_follow leads.followed).symm.trans leads.along.length_eq

theorem Leads.nonempty {text : List σ} {nodes : Forest κ μ} {positions : List Nat}
    {inner : List (Branch κ μ)} {node : Branch κ μ}
    (leads : Leads admits accepts text nodes positions inner node) : positions ≠ [] := by
  have same := length_of_follow leads.followed
  rw [← List.length_pos_iff, ← same]
  simp

theorem Leads.stored {text : List σ} {nodes : Forest κ μ} {positions : List Nat}
    {inner : List (Branch κ μ)} {node : Branch κ μ}
    (leads : Leads admits accepts text nodes positions inner node) :
    ∃ value, Stored ((inner ++ [node]).map Branch.key) value nodes ∧ accepts value = true := by
  obtain ⟨value, held, accepted⟩ := leads.accepted
  exact ⟨value, stored_of_follow leads.followed held, accepted⟩

/-- The search for a text succeeds where some positions lead along it. -/
theorem Leads.isSome {text : List σ} {nodes : Forest κ μ} {positions : List Nat}
    {inner : List (Branch κ μ)} {node : Branch κ μ}
    (leads : Leads admits accepts text nodes positions inner node) :
    (firstEnd admits accepts text nodes).isSome := by
  obtain ⟨value, stored, accepted⟩ := leads.stored
  rw [firstEnd_isSome_iff]
  exact ⟨_, value, stored, accepted, List.forall₂_map_left_iff.mpr leads.along⟩

/-- Behind the first branch the positions lead along the rest of the text. -/
theorem Leads.below {symbol next : σ} {rest : List σ} {nodes : Forest κ μ} {positions : List Nat}
    {inner : List (Branch κ μ)} {node : Branch κ μ}
    (leads : Leads admits accepts (symbol :: next :: rest) nodes positions inner node) :
    ∃ position more branch below, positions = position :: more ∧
      nodes[position]? = some branch ∧ admits branch.key symbol = true ∧
      Leads admits accepts (next :: rest) branch.children more below node := by
  obtain ⟨followed, along, accepted⟩ := leads
  cases positions with
  | nil => exact absurd followed (follow_nil_ne_concat _ _ _)
  | cons position more =>
    rcases follow_concat_cases followed with
      ⟨-, rfl, -⟩ | ⟨branch, below, -, rfl, there, deeper⟩
    · cases along with
      | cons first others => cases others
    · cases along with
      | cons first others =>
        exact ⟨position, more, branch, below, rfl, there, first, deeper, others, accepted⟩

/-- The group where the search ends is the first that the positions of any match
lead to, in lexicographic order. -/
theorem firstEnd_first {text : List σ} {nodes group : Forest κ μ} {inner : List (Branch κ μ)}
    (found : firstEnd admits accepts text nodes = some (inner, group)) :
    ∃ positions, follow positions nodes = some inner ∧ ∀ others passed node,
      Leads admits accepts text nodes others passed node →
        others.dropLast = positions ∨ List.Lex (· < ·) positions others.dropLast := by
  induction text generalizing nodes inner with
  | nil => cases found
  | cons symbol rest ih =>
    cases rest with
    | nil =>
      obtain ⟨rfl, rfl, -⟩ := (firstEnd_single_eq_some_iff ..).mp found
      refine ⟨[], rfl, ?_⟩
      intro others passed node leads
      have size := leads.length_eq
      rw [List.length_singleton] at size
      left
      rw [← List.length_eq_zero_iff, List.length_dropLast, size]
    | cons next rest =>
      obtain ⟨before, branch, after, below, rfl, rfl, admitted, sub, missed⟩ :=
        (firstEnd_cons_eq_some_iff ..).mp found
      obtain ⟨positions, followed, least⟩ := ih sub
      refine ⟨before.length :: positions, ?_, ?_⟩
      · exact (follow_cons_eq_some_iff _ _ _ _).mpr ⟨branch, below, by simp, followed, rfl⟩
      · intro others passed node leads
        obtain ⟨position, more, other, inside, rfl, there, admits', deeper⟩ := leads.below
        rw [List.dropLast_cons_of_ne_nil deeper.nonempty]
        rcases Nat.lt_trichotomy position before.length with earlier | here | later
        · -- a branch before the first success would have been one
          rw [List.getElem?_append_left earlier] at there
          have none := missed other (List.mem_of_getElem? there) admits'
          exact absurd none (Option.isSome_iff_ne_none.mp deeper.isSome)
        · subst here
          obtain rfl : branch = other := by simpa using there
          rcases least more inside node deeper with same | less
          · exact Or.inl (by rw [same])
          · exact Or.inr (List.Lex.cons less)
        · exact Or.inr (List.Lex.rel later)

end Search

section InsertionOrder

/-- A path goes on from a place in one way. -/
theorem next_key_unique {path place : List κ} {key further : κ} (on : (place ++ [key]) <+: path)
    (on' : (place ++ [further]) <+: path) : key = further := by
  have equal := (List.prefix_of_prefix_length_le on on' (by simp)).eq_of_length (by simp)
  exact List.singleton_inj.mp (List.append_cancel_left equal)

variable [DecidableEq κ]

/-- The siblings at the end of a path. -/
def groupAt : List κ → Forest κ μ → Forest κ μ
  | [], nodes => nodes
  | key :: path, nodes => groupAt path (branchAt key nodes).children

def keysAt (path : List κ) (nodes : Forest κ μ) : List κ := (groupAt path nodes).map Branch.key

@[simp] theorem groupAt_nil (path : List κ) : groupAt path ([] : Forest κ μ) = [] := by
  induction path with
  | nil => rfl
  | cons key path ih => exact ih

/-- A pushed path leaves the keys of groups alone that it does not pass. -/
theorem keysAt_push_off (value : μ) {path place : List κ} (nodes : Forest κ μ)
    (off : ∀ key, ¬ (place ++ [key]) <+: path) :
    keysAt place (push value path nodes) = keysAt place nodes := by
  unfold keysAt
  induction path generalizing nodes place with
  | nil => rfl
  | cons key rest ih =>
    cases place with
    | nil => exact absurd (List.prefix_append [key] rest) (off key)
    | cons first place =>
      cases rest with
      | nil =>
        unfold push groupAt
        rw [branchAt_onBranch (by simp)]
        by_cases same : first = key <;> simp [same]
      | cons next rest =>
        unfold push groupAt
        rw [branchAt_onBranch (by simp)]
        by_cases same : first = key
        · subst same
          rw [if_pos rfl]
          refine ih _ (fun further passes => off further ?_)
          exact List.cons_prefix_cons.mpr ⟨rfl, passes⟩
        · rw [if_neg same]

/-- In the groups it passes, its key is put behind the others if it is new. -/
theorem keysAt_push_on (value : μ) {path place : List κ} {key : κ} (nodes : Forest κ μ)
    (on : (place ++ [key]) <+: path) :
    keysAt place (push value path nodes) =
      keysAt place nodes ++ (if key ∈ keysAt place nodes then [] else [key]) := by
  unfold keysAt
  induction path generalizing nodes place with
  | nil => simp at on
  | cons first rest ih =>
    cases place with
    | nil =>
      obtain rfl : key = first := (List.cons_prefix_cons.mp on).1
      cases rest <;> exact keys_onBranch (by simp) nodes
    | cons start place =>
      obtain ⟨rfl, deeper⟩ := List.cons_prefix_cons.mp on
      cases rest with
      | nil => simp at deeper
      | cons next rest =>
        unfold push groupAt
        rw [branchAt_onBranch (by simp), if_pos rfl]
        exact ih _ deeper

/-- Siblings stand in the order of a ranking of the keys behind each path. -/
def RankedBy (rank : List κ → κ → Nat) (nodes : Forest κ μ) : Prop :=
  ∀ place, (keysAt place nodes).Pairwise (fun key other => rank place key < rank place other)

/-- The number of paths pushed before the first that passes the key. -/
def rankOf (paths : List (List κ)) (place : List κ) (key : κ) : Nat :=
  paths.findIdx (fun path => (place ++ [key]).isPrefixOf path)

/-- The siblings are those passed by some path, in the order in which they were first
passed. -/
structure InOrder (paths : List (List κ)) (nodes : Forest κ μ) : Prop where
  ranked : RankedBy (rankOf paths) nodes
  passed : ∀ place key, key ∈ keysAt place nodes ↔ ∃ path ∈ paths, (place ++ [key]) <+: path

theorem InOrder.nil : InOrder ([] : List (List κ)) ([] : Forest κ μ) where
  ranked := by
    intro place
    simp [keysAt]
  passed := by
    intro place key
    simp [keysAt]

theorem rankOf_lt_length_iff (paths : List (List κ)) (place : List κ) (key : κ) :
    rankOf paths place key < paths.length ↔ ∃ path ∈ paths, (place ++ [key]) <+: path := by
  rw [rankOf, List.findIdx_lt_length]
  simp only [List.isPrefixOf_iff_prefix]

/-- A path pushed last does not change the ranks of keys passed before. -/
theorem rankOf_concat (paths : List (List κ)) (path place : List κ) (key : κ)
    (passed : ∃ path ∈ paths, (place ++ [key]) <+: path) :
    rankOf (paths ++ [path]) place key = rankOf paths place key := by
  have short := (rankOf_lt_length_iff paths place key).mpr passed
  unfold rankOf at short ⊢
  rw [List.findIdx_append, if_pos short]

theorem rankOf_concat_new (paths : List (List κ)) {path place : List κ} {key : κ}
    (new : ¬ ∃ path ∈ paths, (place ++ [key]) <+: path) :
    paths.length ≤ rankOf (paths ++ [path]) place key := by
  have late : ¬ rankOf paths place key < paths.length := by
    rwa [rankOf_lt_length_iff]
  unfold rankOf at late ⊢
  rw [List.findIdx_append, if_neg late]
  omega

theorem mem_keysAt_push_iff (value : μ) (path place : List κ) (key : κ) (nodes : Forest κ μ) :
    key ∈ keysAt place (push value path nodes) ↔
      key ∈ keysAt place nodes ∨ (place ++ [key]) <+: path := by
  by_cases on : ∃ further, (place ++ [further]) <+: path
  · obtain ⟨further, on⟩ := on
    have same : (place ++ [key]) <+: path ↔ key = further := by
      constructor
      · intro on'
        exact next_key_unique on' on
      · rintro rfl
        exact on
    rw [keysAt_push_on value nodes on, same]
    split
    · rename_i old
      rw [List.append_nil]
      exact ⟨Or.inl, fun member => member.elim id (fun same => same ▸ old)⟩
    · rw [List.mem_append, List.mem_singleton]
  · rw [keysAt_push_off value nodes (not_exists.mp on)]
    exact ⟨Or.inl, fun member => member.elim id (fun passes => absurd ⟨key, passes⟩ on)⟩

/-- Siblings keep their order when a path is pushed last. -/
theorem InOrder.kept {paths : List (List κ)} {nodes : Forest κ μ} (ordered : InOrder paths nodes)
    (path place : List κ) :
    (keysAt place nodes).Pairwise (fun key other =>
      rankOf (paths ++ [path]) place key < rankOf (paths ++ [path]) place other) := by
  apply (ordered.ranked place).imp_of_mem
  intro key other member member' less
  rwa [rankOf_concat paths path place key ((ordered.passed place key).mp member),
    rankOf_concat paths path place other ((ordered.passed place other).mp member')]

/-- A key that is new to a group ranks behind its siblings. -/
theorem InOrder.behind {paths : List (List κ)} {nodes : Forest κ μ} (ordered : InOrder paths nodes)
    (path : List κ) {place : List κ} {key other : κ} (member : other ∈ keysAt place nodes)
    (new : key ∉ keysAt place nodes) :
    rankOf (paths ++ [path]) place other < rankOf (paths ++ [path]) place key := by
  have passed := (ordered.passed place other).mp member
  rw [ordered.passed] at new
  have early := (rankOf_lt_length_iff paths place other).mpr passed
  have late : paths.length ≤ rankOf (paths ++ [path]) place key := rankOf_concat_new paths new
  rw [rankOf_concat paths path place other passed]
  omega

theorem InOrder.push {paths : List (List κ)} {nodes : Forest κ μ} (ordered : InOrder paths nodes)
    (value : μ) (path : List κ) :
    InOrder (paths ++ [path]) (Forest.push value path nodes) where
  ranked := by
    intro place
    by_cases on : ∃ key, (place ++ [key]) <+: path
    · obtain ⟨key, on⟩ := on
      rw [keysAt_push_on value nodes on]
      split
      · rw [List.append_nil]
        exact ordered.kept path place
      · rename_i new
        rw [List.pairwise_append]
        refine ⟨ordered.kept path place, List.pairwise_singleton _ _, ?_⟩
        intro other member last same
        rw [List.mem_singleton.mp same]
        exact ordered.behind path member new
    · rw [keysAt_push_off value nodes (not_exists.mp on)]
      exact ordered.kept path place
  passed := by
    intro place key
    rw [mem_keysAt_push_iff, ordered.passed]
    simp [or_and_right, exists_or]

/-- At the first key where two paths part, the one path's comes first. -/
def Precedes (rank : List κ → κ → Nat) (path other : List κ) : Prop :=
  ∃ place key key' rest rest', path = place ++ key :: rest ∧ other = place ++ key' :: rest' ∧
    rank place key < rank place key'

theorem RankedBy.child {rank : List κ → κ → Nat} {nodes : Forest κ μ} (ranked : RankedBy rank nodes)
    (grown : Grown nodes) {node : Branch κ μ} (member : node ∈ nodes) :
    RankedBy (fun place => rank (node.key :: place)) node.children := by
  intro place
  have order := ranked (node.key :: place)
  unfold keysAt groupAt at order
  rwa [grown.branchAt_key member] at order

theorem valuesAt_of_follow {positions : List Nat} {nodes : Forest κ μ} (grown : Grown nodes)
    {inner : List (Branch κ μ)} {node : Branch κ μ}
    (followed : follow positions nodes = some (inner ++ [node])) :
    valuesAt ((inner ++ [node]).map Branch.key) nodes = node.values := by
  obtain ⟨group, reaches, member⟩ := reaches_of_follow followed
  exact reaches.valuesAt grown member

/-- The lexicographic order of positions is the order of the keys' ranks. -/
theorem precedes_of_lex {rank : List κ → κ → Nat} {positions others : List Nat}
    {nodes : Forest κ μ} (grown : Grown nodes) (ranked : RankedBy rank nodes)
    {branches branches' : List (Branch κ μ)} (followed : follow positions nodes = some branches)
    (followed' : follow others nodes = some branches') (less : List.Lex (· < ·) positions others)
    (size : positions.length = others.length) :
    Precedes rank (branches.map Branch.key) (branches'.map Branch.key) := by
  induction less generalizing rank nodes branches branches' with
  | nil => cases size
  | @cons position positions others less ih =>
    obtain ⟨node, below, found, deeper, rfl⟩ := (follow_cons_eq_some_iff _ _ _ _).mp followed
    obtain ⟨node', below', found', deeper', rfl⟩ := (follow_cons_eq_some_iff _ _ _ _).mp followed'
    obtain rfl : node = node' := Option.some.inj (found.symm.trans found')
    have member := List.mem_of_getElem? found
    obtain ⟨place, key, key', rest, rest', keys, keys', first⟩ :=
      ih (grown.child member) (ranked.child grown member) deeper deeper' (Nat.succ.inj size)
    exact ⟨node.key :: place, key, key', rest, rest', by rw [List.map_cons, keys]; rfl,
      by rw [List.map_cons, keys']; rfl, first⟩
  | @rel position positions other others less =>
    obtain ⟨node, below, found, deeper, rfl⟩ := (follow_cons_eq_some_iff _ _ _ _).mp followed
    obtain ⟨node', below', found', deeper', rfl⟩ := (follow_cons_eq_some_iff _ _ _ _).mp followed'
    refine ⟨[], node.key, node'.key, _, _, rfl, rfl, ?_⟩
    have order := List.pairwise_iff_getElem.mp (ranked [])
    obtain ⟨bound, rfl⟩ := List.getElem?_eq_some_iff.mp found
    obtain ⟨bound', rfl⟩ := List.getElem?_eq_some_iff.mp found'
    have keys : keysAt [] nodes = nodes.map Branch.key := rfl
    simp only [keys, List.length_map, List.getElem_map] at order
    exact order position other bound bound' less

end InsertionOrder

section Continued

/-- Two paths part at one place only. -/
theorem parting_unique {place place' : List κ} {key key' other other' : κ}
    {rest rest' more more' : List κ} (same : place ++ key :: rest = place' ++ other :: more)
    (same' : place ++ key' :: rest' = place' ++ other' :: more') (apart : key ≠ key')
    (apart' : other ≠ other') : place = place' ∧ key = other ∧ key' = other' := by
  induction place generalizing place' with
  | nil =>
    cases place' with
    | nil => exact ⟨rfl, (List.cons.inj same).1, (List.cons.inj same').1⟩
    | cons first place' =>
      exact absurd ((List.cons.inj same).1.trans (List.cons.inj same').1.symm) apart
  | cons first place ih =>
    cases place' with
    | nil => exact absurd ((List.cons.inj same).1.symm.trans (List.cons.inj same').1) apart'
    | cons first' place' =>
      obtain ⟨rfl, below⟩ := List.cons.inj same
      obtain ⟨-, below'⟩ := List.cons.inj same'
      obtain ⟨rfl, keys⟩ := ih below below'
      exact ⟨rfl, keys⟩

/-- Paths that part keep their order in front of any others. -/
theorem Precedes.append {rank : List κ → κ → Nat} {path other : List κ}
    (before : Precedes rank path other) (more more' : List κ) :
    Precedes rank (path ++ more) (other ++ more') := by
  obtain ⟨place, key, key', rest, rest', rfl, rfl, less⟩ := before
  exact ⟨place, key, key', rest ++ more, rest' ++ more', by simp, by simp, less⟩

theorem Precedes.asymm {rank : List κ → κ → Nat} {path other : List κ}
    (before : Precedes rank path other) : ¬ Precedes rank other path := by
  intro after
  obtain ⟨place, key, key', rest, rest', rfl, rfl, less⟩ := before
  obtain ⟨place', further, further', more, more', same', same, less'⟩ := after
  have apart : key ≠ key' := by
    rintro rfl
    exact Nat.lt_irrefl _ less
  have apart' : further' ≠ further := by
    rintro rfl
    exact Nat.lt_irrefl _ less'
  obtain ⟨rfl, rfl, rfl⟩ := parting_unique same same' apart apart'
  exact Nat.lt_asymm less less'

variable [DecidableEq κ]

theorem findIdx_or {α : Type} (p q : α → Bool) (xs : List α) :
    xs.findIdx (fun x => p x || q x) = min (xs.findIdx p) (xs.findIdx q) := by
  induction xs with
  | nil => rfl
  | cons x xs ih =>
    rw [List.findIdx_cons, List.findIdx_cons, List.findIdx_cons, ih]
    cases p x <;> cases q x <;> simp

theorem findIdx_ne_of_disjoint {α : Type} {p q : α → Bool} {xs : List α}
    (disjoint : ∀ x, p x = true → ¬ q x = true) (found : xs.findIdx q < xs.length) :
    xs.findIdx p ≠ xs.findIdx q := by
  intro same
  exact disjoint _ ((List.findIdx_eq found).mp same).1 List.findIdx_getElem

/-- The ranks once every path goes on by one more key: only that key's rank can
change, by the paths that ended before it. -/
theorem rankOf_continued (paths : List (List κ)) (last : κ) (place : List κ) (key : κ) :
    rankOf (paths.map (fun path => path ++ [last])) place key =
      if key = last then min (rankOf paths place key) (paths.findIdx (fun path => path = place))
      else rankOf paths place key := by
  have passes : ∀ path : List κ, (place ++ [key]).isPrefixOf (path ++ [last]) =
      ((place ++ [key]).isPrefixOf path || decide (path = place ∧ key = last)) := by
    intro path
    rw [Bool.eq_iff_iff, Bool.or_eq_true, List.isPrefixOf_iff_prefix, List.isPrefixOf_iff_prefix,
      List.prefix_concat_iff, decide_eq_true_iff, or_comm]
    refine or_congr_right ⟨?_, ?_⟩
    · intro same
      obtain ⟨rfl, keys⟩ := List.append_inj' same rfl
      exact ⟨rfl, List.singleton_inj.mp keys⟩
    · rintro ⟨rfl, rfl⟩
      rfl
  unfold rankOf
  rw [List.findIdx_map]
  simp only [Function.comp_def, passes]
  split
  · rename_i same
    simp only [same, and_true]
    exact findIdx_or _ _ _
  · rename_i other
    simp only [other, and_false, decide_false, Bool.or_false]

/-- Where the paths part, the other goes on by `last`, and some path that ends right
there was pushed before all that go on as the first does. -/
def Overtakes (paths : List (List κ)) (last : κ) (path other : List κ) : Prop :=
  ∃ place key rest rest', path = place ++ key :: rest ∧ other = place ++ last :: rest' ∧
    key ≠ last ∧ paths.findIdx (fun path => path = place) < rankOf paths place key

/-- A path that ends at a place does not go on there. -/
theorem rankOf_ne_end (paths : List (List κ)) (place : List κ) (key : κ)
    (passed : rankOf paths place key < paths.length) :
    paths.findIdx (fun path => path = place) ≠ rankOf paths place key := by
  apply findIdx_ne_of_disjoint ?_ passed
  intro path ends goesOn
  rw [decide_eq_true_iff] at ends
  have longer := (List.isPrefixOf_iff_prefix.mp goesOn).length_le
  rw [ends, List.length_append, List.length_singleton] at longer
  omega

theorem precedes_continued {paths : List (List κ)} {last : κ} {path other : List κ}
    (before : Precedes (rankOf paths) path other) (kept : ¬ Overtakes paths last path other) :
    Precedes (rankOf (paths.map (fun path => path ++ [last]))) path other := by
  obtain ⟨place, key, key', rest, rest', rfl, rfl, less⟩ := before
  refine ⟨place, key, key', rest, rest', rfl, rfl, ?_⟩
  rw [rankOf_continued, rankOf_continued]
  by_cases isLast : key' = last
  · subst isLast
    have apart : key ≠ key' := by
      rintro rfl
      omega
    have bound : rankOf paths place key' ≤ paths.length := List.findIdx_le_length
    have different := rankOf_ne_end paths place key (by omega)
    -- otherwise a path that ended at the place would have come first
    have earlier : rankOf paths place key < paths.findIdx (fun path => path = place) := by
      by_contra reached
      exact kept ⟨place, key, rest, rest', rfl, rfl, apart, by omega⟩
    rw [if_neg apart, if_pos rfl]
    omega
  · rw [if_neg isLast]
    split <;> omega

theorem precedes_of_overtakes {paths : List (List κ)} {last : κ} {path other : List κ}
    (overtakes : Overtakes paths last path other) :
    Precedes (rankOf (paths.map (fun path => path ++ [last]))) other path := by
  obtain ⟨place, key, rest, rest', rfl, rfl, apart, earlier⟩ := overtakes
  refine ⟨place, last, key, rest', rest, rfl, rfl, ?_⟩
  rw [rankOf_continued, rankOf_continued, if_pos rfl, if_neg apart]
  omega

end Continued
end Restio.Lib.Forest
