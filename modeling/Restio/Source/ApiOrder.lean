import Restio.Lib.ForestOrder
import Restio.Source.ApiTree
import Restio.Source.UriParser

/-!
# The order of an API's tree

The siblings of the tree stand in the order in which the methods' URIs first passed
them (`buildParser_tree`). Up to its last segment the lookup takes the first path
that leads to a match, in the lexicographic order of positions, and at the node it
chooses the first method of the verb (`lookup_helper_selects`).
-/

set_option autoImplicit false

namespace Restio.Source.ApiMapper
open Restio.Lib Restio.Source.Http Restio.Spec

variable {J H : Type}

/-- The node path of a method whose URI passes the assertions. -/
def Method.path (m : Method J H) : List NodeKey := (parsedPath m.uri).toOption.getD []

theorem path_of_parsed {m : Method J H} {path : List NodeKey}
    (parsed : parsedPath m.uri = .ok path) : m.path = path := by
  rw [Method.path, parsed]
  rfl

theorem path_of_writes {m : Method J H} {template : UriTemplate} (writes : template.Writes m.uri) :
    m.path = template.path := path_of_parsed writes.parsed

section Building

/-- A round that succeeds pushes the method at its path. -/
theorem addMethod_ok {roots roots' : List (ParsedNode J H)} {m : Method J H}
    (added : addMethod roots m = .ok roots') : roots' = Forest.push m m.path roots := by
  rcases addMethod_cases roots m with ⟨-, ended⟩ | ⟨-, -, aborted⟩ | ⟨path, parsed, -, -, pushed⟩
  · cases ended.symm.trans added
  · cases aborted.symm.trans added
  · rw [path_of_parsed parsed]
    exact Except.ok.inj (added.symm.trans pushed)

theorem foldlM_addMethod_ordered {methods : List (Method J H)} {roots : List (ParsedNode J H)}
    (run : methods.foldlM addMethod [] = .ok roots) :
    Forest.InOrder (methods.map Method.path) roots := by
  refine Checked.foldlM_ok (motive := fun done roots => Forest.InOrder (done.map Method.path) roots)
    Forest.InOrder.nil ?_ run
  intro done roots m next ordered added
  rw [addMethod_ok added, List.map_append]
  exact ordered.push m m.path

/-- What is known of the tree of well-formed URIs. -/
structure Ordered (methods : List (Method J H)) (roots : List (ParsedNode J H)) : Prop where
  built : Built methods roots
  stored : StoredInOrder methods roots
  ordered : Forest.InOrder (methods.map Method.path) roots

theorem API.buildParser_tree (api : API J H) (fresh : api.roots = [])
    (wellFormed : ∀ m ∈ api.methods, WellFormedUri m.uri) :
    ∃ roots, api.buildParser = .ok { api with roots := roots } ∧ Ordered api.methods roots := by
  obtain ⟨roots, run, built⟩ := foldlM_addMethod wellFormed
  have ordered := foldlM_addMethod_ordered run
  refine ⟨roots, API.buildParser_of_run (by rwa [fresh]), built, ?_, ordered⟩
  rcases foldlM_addMethod_cases api.methods StoredInOrder.nil with ⟨ended, -⟩ |
    ⟨-, failed | ⟨roots', run', stored⟩⟩
  · cases run.symm.trans ended
  · cases run.symm.trans failed
  · obtain rfl := Except.ok.inj (run.symm.trans run')
    exact stored

end Building

section Selection
variable {verb : Verb} {segments : List Str} {roots : List (ParsedNode J H)}

/-- The positions lead to the node along branches that match the segments, and a
method of the verb is stored there. -/
abbrev LeadsTo (verb : Verb) (segments : List Str) (roots : List (ParsedNode J H)) :
    List Nat → List (ParsedNode J H) → ParsedNode J H → Prop :=
  Forest.Leads nodeMatch (hasVerb verb) segments roots

/-- The method is the first of the verb at the node, and up to the last one the
positions are the first that lead to a match. -/
structure Selects (verb : Verb) (segments : List Str) (roots : List (ParsedNode J H))
    (m : Method J H) (positions : List Nat) (inner : List (ParsedNode J H))
    (node : ParsedNode J H) : Prop where
  leads : LeadsTo verb segments roots positions inner node
  firstOfVerb : node.values.find? (hasVerb verb) = some m
  firstGroup : ∀ others passed other, LeadsTo verb segments roots others passed other →
    others.dropLast = positions.dropLast ∨ List.Lex (· < ·) positions.dropLast others.dropLast

theorem lookup_helper_selects {result : LookupResult J H}
    (found : lookup_helper verb segments roots = some result) :
    ∃ positions inner node, Selects verb segments roots result.method positions inner node := by
  obtain ⟨ending, rfl⟩ := (lookup_helper_eq_some_iff _ _ _ _).mp found
  obtain ⟨positions, followed, least⟩ := Forest.firstEnd_first ending.ended
  obtain ⟨position, there⟩ := List.mem_iff_getElem?.mp ending.final_mem
  refine ⟨positions ++ [position], ending.inner, ending.final, ⟨?_, ?_, ?_⟩, ending.method_eq, ?_⟩
  · exact Forest.follow_concat followed ending.reaches there
  · have keys : ending.path = (ending.inner ++ [ending.final]).map Branch.key := by
      rw [List.map_append, List.map_singleton]
      rfl
    have along := ending.path_matches
    rw [keys] at along
    exact List.forall₂_map_left_iff.mp along
  · exact ⟨ending.method, List.mem_of_find?_eq_some ending.method_eq,
      List.find?_some ending.method_eq⟩
  · rw [List.dropLast_concat]
    exact least

/-- No other positions that lead to a match differ from these in the last only. -/
def Unrivalled (verb : Verb) (segments : List Str) (roots : List (ParsedNode J H))
    (positions : List Nat) : Prop :=
  ∀ others passed other, LeadsTo verb segments roots others passed other →
    others.dropLast = positions.dropLast → others = positions

/-- The positions are the first that lead to a match. -/
def FirstPath (verb : Verb) (segments : List Str) (roots : List (ParsedNode J H))
    (positions : List Nat) : Prop :=
  ∀ others passed other, LeadsTo verb segments roots others passed other →
    others = positions ∨ List.Lex (· < ·) positions others

theorem length_eq_of_leads {others positions : List Nat} {passed inner : List (ParsedNode J H)}
    {other node : ParsedNode J H} (leads : LeadsTo verb segments roots positions inner node)
    (leads' : LeadsTo verb segments roots others passed other) :
    positions.length = others.length :=
  leads.length_eq.trans leads'.length_eq.symm

theorem Selects.firstPath {m : Method J H} {positions : List Nat} {inner : List (ParsedNode J H)}
    {node : ParsedNode J H} (selects : Selects verb segments roots m positions inner node)
    (unrivalled : Unrivalled verb segments roots positions) :
    FirstPath verb segments roots positions := by
  intro others passed other leads
  rcases selects.firstGroup others passed other leads with same | less
  · exact Or.inl (unrivalled others passed other leads same)
  · have size := length_eq_of_leads selects.leads leads
    have extended := Forest.lex_append less
      (by rw [List.length_dropLast, List.length_dropLast, size])
      [positions.getLast selects.leads.nonempty] [others.getLast leads.nonempty]
    rw [List.dropLast_concat_getLast, List.dropLast_concat_getLast] at extended
    exact Or.inr extended

end Selection

section OverOrdered
variable {methods : List (Method J H)} {roots : List (ParsedNode J H)} {verb : Verb}
  {segments : List Str}

/-- A method answers when it has the verb and its path matches the segments. -/
theorem answers_iff {m : Method J H} (wellFormed : WellFormedUri m.uri) :
    Answers m verb segments ↔ m.method = verb ∧
      List.Forall₂ (fun key view => nodeMatch key view = true) m.path segments := by
  obtain ⟨template, writes⟩ := wellFormed
  rw [path_of_writes writes, ← template.matches_iff]
  constructor
  · intro ⟨ofVerb, other, writes', along⟩
    unfold UriTemplate.Matches at along
    rw [writes'.unique writes] at along
    exact ⟨ofVerb, along⟩
  · intro ⟨ofVerb, along⟩
    exact ⟨ofVerb, template, writes, along⟩

/-- Positions that lead to a match lead along the path of a method that answers. -/
theorem Ordered.answers (tree : Ordered methods roots) {positions : List Nat}
    {inner : List (ParsedNode J H)} {node : ParsedNode J H}
    (leads : LeadsTo verb segments roots positions inner node) :
    ∃ m ∈ methods, Answers m verb segments ∧ m.path = (inner ++ [node]).map Branch.key := by
  obtain ⟨m, stored, ofVerb⟩ := leads.stored
  obtain ⟨member, template, writes, path⟩ := (tree.built.stored _ _).mp stored
  refine ⟨m, member, ⟨by simpa [hasVerb] using ofVerb, template, writes, ?_⟩,
    (path_of_writes writes).trans path.symm⟩
  rw [template.matches_iff, ← path]
  exact List.forall₂_map_left_iff.mpr leads.along

/-- To the path of every method that answers some positions lead. -/
theorem Ordered.leads (tree : Ordered methods roots) {m : Method J H} (member : m ∈ methods)
    (answers : Answers m verb segments) :
    ∃ positions inner node, LeadsTo verb segments roots positions inner node ∧
      (inner ++ [node]).map Branch.key = m.path := by
  obtain ⟨ofVerb, template, writes, along⟩ := answers
  have stored := (tree.built.stored template.path m).mpr ⟨member, template, writes, rfl⟩
  obtain ⟨positions, inner, node, followed, keys, held⟩ := Forest.follow_of_stored stored
  refine ⟨positions, inner, node, ⟨followed, ?_, m, held, by simpa [hasVerb] using ofVerb⟩,
    keys.trans (path_of_writes writes).symm⟩
  rw [template.matches_iff, ← keys] at along
  exact List.forall₂_map_left_iff.mp along

/-- The methods of a node are the registered ones with its path, in their order. -/
theorem Ordered.values (tree : Ordered methods roots) {positions : List Nat}
    {inner : List (ParsedNode J H)} {node : ParsedNode J H}
    (leads : LeadsTo verb segments roots positions inner node) :
    node.values = methods.filter (fun m => decide (m.path = (inner ++ [node]).map Branch.key)) := by
  rw [← Forest.valuesAt_of_follow tree.built.grown leads.followed, tree.stored.values]
  refine List.filter_congr (fun m member => ?_)
  obtain ⟨path, parsed, -⟩ := tree.stored.parsed m member
  rw [path_of_parsed parsed, parsed]
  simp

/-- The method selected is the first of the verb registered with its path. -/
theorem Ordered.firstRegistered (tree : Ordered methods roots) {m : Method J H}
    {positions : List Nat} {inner : List (ParsedNode J H)} {node : ParsedNode J H}
    (selects : Selects verb segments roots m positions inner node) :
    m.path = (inner ++ [node]).map Branch.key ∧
      (methods.filter (fun other => decide (other.path = m.path))).find? (hasVerb verb) =
        some m := by
  have first := selects.firstOfVerb
  rw [tree.values selects.leads] at first
  have own : m.path = (inner ++ [node]).map Branch.key := by
    simpa using List.of_mem_filter (List.mem_of_find?_eq_some first)
  exact ⟨own, own ▸ first⟩

theorem Ordered.selected_answers (tree : Ordered methods roots) {m : Method J H}
    {positions : List Nat} {inner : List (ParsedNode J H)} {node : ParsedNode J H}
    (selects : Selects verb segments roots m positions inner node) :
    m ∈ methods ∧ Answers m verb segments := by
  have held := List.mem_of_find?_eq_some selects.firstOfVerb
  have ofVerb := List.find?_some selects.firstOfVerb
  obtain ⟨member, template, writes, path⟩ :=
    (tree.built.stored _ _).mp (Forest.stored_of_follow selects.leads.followed held)
  refine ⟨member, by simpa [hasVerb] using ofVerb, template, writes, ?_⟩
  rw [template.matches_iff, ← path]
  exact List.forall₂_map_left_iff.mpr selects.leads.along

/-- No method that answers has a path before the method's. -/
def Foremost (methods : List (Method J H)) (verb : Verb) (segments : List Str) (m : Method J H) :
    Prop :=
  ∀ other ∈ methods, Answers other verb segments → other.path = m.path ∨
    Forest.Precedes (Forest.rankOf (methods.map Method.path)) m.path other.path

/-- A method selected at the first positions is foremost. -/
theorem Ordered.foremost (tree : Ordered methods roots) {m : Method J H} {positions : List Nat}
    {inner : List (ParsedNode J H)} {node : ParsedNode J H}
    (selects : Selects verb segments roots m positions inner node)
    (first : FirstPath verb segments roots positions) : Foremost methods verb segments m := by
  intro other member answers
  obtain ⟨others, passed, there, leads, keys⟩ := tree.leads member answers
  rw [(tree.firstRegistered selects).1, ← keys]
  rcases first others passed there leads with rfl | less
  · obtain same := Option.some.inj (selects.leads.followed.symm.trans leads.followed)
    exact Or.inl (by rw [same])
  · exact Or.inr (Forest.precedes_of_lex tree.built.grown tree.ordered.ranked
      selects.leads.followed leads.followed less (length_eq_of_leads selects.leads leads))

end OverOrdered
end Restio.Source.ApiMapper
