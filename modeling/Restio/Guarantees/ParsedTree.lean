import Restio.Lib.ForestValues
import Restio.Source.ApiOrder

/-!
# The representation invariant of an API's tree

On well-formed URIs `buildParser` makes a tree whose siblings differ in type or id,
whose leaves carry methods, and whose nodes hold the methods with their path in
registration order (`Represents`).

A second run finds every node it looks for. It stores each method once more, behind
itself at its own node, where `find_if` never gets to: the lookup reads of a node's
methods only the first of a verb (`lookup_helper_mapValues`). So neither the nodes
nor any lookup changes (`parsed_tree_kept`).
-/

set_option autoImplicit false

namespace Restio.Guarantees.ParsedTree
open Restio.Lib Restio.Source.Http Restio.Source.ApiMapper Restio.Spec

variable {J H : Type}

/-- The tree of a list of methods. The nodes `inner` lead from the roots down to the
siblings `group`. -/
structure Represents (methods : List (Method J H)) (roots : List (ParsedNode J H)) : Prop where
  /-- No two siblings have the same type and id. -/
  apart : ∀ inner group, Forest.Reaches inner roots group → (group.map Branch.key).Nodup
  /-- Every leaf carries a method. -/
  leaves : ∀ inner group node, Forest.Reaches inner roots group → node ∈ group →
    node.children = [] → node.values ≠ []
  /-- The methods of a node are those whose URI is parsed to its path, in registration
  order. -/
  values : ∀ inner group node, Forest.Reaches inner roots group → node ∈ group →
    node.values = methods.filter
      (fun m => decide (parsedPath m.uri = .ok ((inner ++ [node]).map Branch.key)))
  /-- And every method has its node. -/
  stored : ∀ m ∈ methods, ∃ inner group node, Forest.Reaches inner roots group ∧ node ∈ group ∧
    parsedPath m.uri = .ok ((inner ++ [node]).map Branch.key)

theorem represents_of_ordered {methods : List (Method J H)} {roots : List (ParsedNode J H)}
    (wellFormed : ∀ m ∈ methods, WellFormedUri m.uri) (tree : Ordered methods roots) :
    Represents methods roots where
  apart := by
    intro inner group reaches
    exact (reaches.grown tree.built.grown).distinct
  leaves := by
    intro inner group node reaches member leaf bare
    rcases (reaches.grown tree.built.grown).live member with held | more
    · exact held bare
    · exact more leaf
  values := by
    intro inner group node reaches member
    rw [← reaches.valuesAt tree.built.grown member, tree.stored.values]
  stored := by
    intro m member
    obtain ⟨template, writes⟩ := wellFormed m member
    have stored := (tree.built.stored template.path m).mpr ⟨member, template, writes, rfl⟩
    obtain ⟨inner, group, node, reaches, inGroup, keys, -⟩ := Forest.reaches_of_stored stored
    exact ⟨inner, group, node, reaches, inGroup, by rw [keys]; exact writes.parsed⟩

section Views
variable {verb : Verb} {view : List (Method J H) → List (Method J H)}

/-- The last segment's loop reads of a node's methods the first of the verb. -/
theorem lastSegment_mapValues
    (kept : ∀ held, (view held).find? (hasVerb verb) = held.find? (hasVerb verb)) (segment : Str)
    (nodes : List (ParsedNode J H)) :
    lastSegment verb segment (Forest.mapValues view nodes) = lastSegment verb segment nodes := by
  unfold lastSegment
  rw [Forest.mapValues_eq_map, List.foldl_map]
  congr 1
  funext result node
  rw [Branch.mapValues_eq]
  have first := kept node.values
  unfold hasVerb at first
  rw [first]

/-- So does the whole lookup. -/
theorem lookup_helper_mapValues
    (kept : ∀ held, (view held).find? (hasVerb verb) = held.find? (hasVerb verb))
    (segments : List Str) (nodes : List (ParsedNode J H)) :
    lookup_helper verb segments (Forest.mapValues view nodes) =
      lookup_helper verb segments nodes := by
  induction segments generalizing nodes with
  | nil => rfl
  | cons segment rest ih =>
    have leaf : ∀ children : List (ParsedNode J H),
        (Forest.mapValues view children).isEmpty = children.isEmpty := by
      intro children
      rw [Forest.mapValues_eq_map, List.isEmpty_map]
    unfold lookup_helper
    rw [lastSegment_mapValues kept, Forest.mapValues_eq_map, List.findSome?_map]
    congr 1
    funext node
    simp only [Function.comp_apply, Branch.mapValues_eq, leaf, ih]

end Views

section SecondRun
variable {methods : List (Method J H)} {roots : List (ParsedNode J H)}

/-- A second run of the outer loop only repeats methods where they are stored. -/
theorem foldlM_addMethod_repeats (wellFormed : ∀ m ∈ methods, WellFormedUri m.uri)
    (built : Built methods roots) :
    ∃ again, methods.foldlM addMethod roots = .ok again ∧ Forest.Repeats roots again := by
  have registered : ∀ m ∈ methods, m ∈ methods ∧ WellFormedUri m.uri :=
    fun m member => ⟨member, wellFormed m member⟩
  refine Checked.foldlM_total (motive := fun _ again => Forest.Repeats roots again)
    (Forest.Repeats.refl built.grown) ?_ registered
  intro done again m repeats ⟨member, template, writes⟩
  have stored := (built.stored template.path m).mpr ⟨member, template, writes, rfl⟩
  exact ⟨_, addMethod_eq again writes, repeats.push stored⟩

/-- A lookup does not see repeated methods. -/
theorem lookup_helper_repeats {again : List (ParsedNode J H)} (repeats : Forest.Repeats roots again)
    (verb : Verb) (segments : List Str) :
    lookup_helper verb segments again = lookup_helper verb segments roots := by
  have first : ∀ held : List (Method J H),
      ((held.find? (hasVerb verb)).toList).find? (hasVerb verb) = held.find? (hasVerb verb) := by
    intro held
    cases found : held.find? (hasVerb verb) with
    | none => rfl
    | some m =>
      have ofVerb := List.find?_some found
      exact List.find?_cons_of_pos ofVerb
  have seen := repeats.seen (Forest.ignoresRepeats_find (hasVerb verb))
  rw [← lookup_helper_mapValues first segments again, seen, lookup_helper_mapValues first]

end SecondRun

/-- For every list of methods with well-formed URIs: on empty roots the tree represents
the methods, and a second run succeeds, keeps the nodes and changes no lookup. -/
theorem parsed_tree_kept (api : API J H) (fresh : api.roots = [])
    (wellFormed : ∀ m ∈ api.methods, WellFormedUri m.uri) :
    ∃ roots again, api.buildParser = .ok { api with roots := roots } ∧
      Represents api.methods roots ∧
      ({ api with roots := roots } : API J H).buildParser = .ok { api with roots := again } ∧
      Forest.shape again = Forest.shape roots ∧
      ∀ verb target, ({ api with roots := again } : API J H).lookup verb target =
        ({ api with roots := roots } : API J H).lookup verb target := by
  obtain ⟨roots, run, tree⟩ := api.buildParser_tree fresh wellFormed
  obtain ⟨again, rerun, repeats⟩ := foldlM_addMethod_repeats wellFormed tree.built
  refine ⟨roots, again, run, represents_of_ordered wellFormed tree, ?_, repeats.shape_eq, ?_⟩
  · unfold API.buildParser
    rw [rerun]
    rfl
  · intro verb target
    rw [API.lookup_eq, API.lookup_eq]
    exact lookup_helper_repeats repeats verb _

/-- Two siblings below one node, which three methods share. -/
def docsTree : API Unit Nat where
  methods :=
    [⟨.get, "docs".toList, [], (), (), [], 1⟩,
      ⟨.get, "docs/<int:page>".toList, [], (), (), [], 2⟩,
      ⟨.put, "docs/".toList, [], (), (), [], 3⟩,
      ⟨.get, "docs/<string:name>".toList, [], (), (), [], 4⟩,
      ⟨.get, "docs".toList, [], (), (), [], 5⟩]

theorem docsTree_wellFormed : ∀ m ∈ docsTree.methods, WellFormedUri m.uri := by
  intro m member
  simp only [docsTree, List.mem_cons, List.not_mem_nil, or_false] at member
  rcases member with rfl | rfl | rfl | rfl | rfl
  · exact ⟨⟨[.literal "docs".toList], by decide, by decide⟩, Or.inl (by decide)⟩
  · exact ⟨⟨[.literal "docs".toList, .intVar "page".toList], by decide, by decide⟩,
      Or.inl (by decide)⟩
  · exact ⟨⟨[.literal "docs".toList], by decide, by decide⟩, Or.inr (by decide)⟩
  · exact ⟨⟨[.literal "docs".toList, .stringVar "name".toList], by decide, by decide⟩,
      Or.inl (by decide)⟩
  · exact ⟨⟨[.literal "docs".toList], by decide, by decide⟩, Or.inl (by decide)⟩

theorem docsTree_kept :
    ∃ roots again, docsTree.buildParser = .ok { docsTree with roots := roots } ∧
      Represents docsTree.methods roots ∧
      ({ docsTree with roots := roots } : API Unit Nat).buildParser =
        .ok { docsTree with roots := again } ∧
      Forest.shape again = Forest.shape roots ∧
      ∀ verb target, ({ docsTree with roots := again } : API Unit Nat).lookup verb target =
        ({ docsTree with roots := roots } : API Unit Nat).lookup verb target :=
  parsed_tree_kept docsTree rfl docsTree_wellFormed

end Restio.Guarantees.ParsedTree
