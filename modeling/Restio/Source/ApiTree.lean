import Restio.Source.ApiBinding
import Restio.Source.UriParser

/-!
# The parsed tree of an API

`buildParser` on well-formed URIs never fails, and its tree stores each method at
the path of its own template and nothing else (`Built`). `lookup_helper` is the
forest's depth-first search followed by two choices in the group of siblings
where the search ends: the method comes from the last sibling that matches and
has one of the verb, the binding of the last segment from the first sibling that
matches (`lookup_helper_eq`). The two need not be the same sibling.
-/

set_option autoImplicit false

namespace Restio.Source.ApiMapper
open Restio.Lib Restio.Source.Http Restio.Spec

variable {J H : Type}

section Building

/-- The tree made of a list of methods: grown, and with exactly the methods
stored, each at the path of a template that writes its URI. -/
structure Built (methods : List (Method J H)) (roots : List (ParsedNode J H)) : Prop where
  grown : Forest.Grown roots
  stored : ∀ path m, Forest.Stored path m roots ↔
    m ∈ methods ∧ ∃ template : UriTemplate, template.Writes m.uri ∧ path = template.path

theorem addMethod_eq (roots : List (ParsedNode J H)) {m : Method J H} {template : UriTemplate}
    (writes : template.Writes m.uri) :
    addMethod roots m = .ok (Forest.push m template.path roots) :=
  addMethod_parsed roots writes.parsed template.path_ne_nil

/-- The path of a well-formed URI is its template's. -/
theorem Placed.built {methods : List (Method J H)} {roots : List (ParsedNode J H)}
    (placed : Placed methods roots) (wellFormed : ∀ m ∈ methods, WellFormedUri m.uri) :
    Built methods roots where
  grown := placed.grown
  stored := by
    intro path m
    rw [placed.stored, and_congr_right_iff]
    intro member
    constructor
    · intro parsed
      obtain ⟨template, writes⟩ := wellFormed m member
      exact ⟨template, writes, Except.ok.inj (parsed.symm.trans writes.parsed)⟩
    · rintro ⟨template, writes, rfl⟩
      exact writes.parsed

/-- The outer loop on well-formed URIs. -/
theorem foldlM_addMethod {methods : List (Method J H)}
    (wellFormed : ∀ m ∈ methods, WellFormedUri m.uri) :
    ∃ roots, methods.foldlM addMethod [] = .ok roots ∧ Built methods roots := by
  obtain ⟨roots, run⟩ : ∃ roots, methods.foldlM addMethod [] = .ok roots :=
    Checked.foldlM_succeeds (fun roots _ ⟨_, writes⟩ => ⟨_, addMethod_eq roots writes⟩) wellFormed
  exact ⟨roots, run, (MadeOf.none.run_placed run).built wellFormed⟩

theorem API.buildParser_of_run {api : API J H} {roots : List (ParsedNode J H)}
    (run : api.methods.foldlM addMethod api.roots = .ok roots) :
    api.buildParser = .ok { api with roots := roots } := by
  unfold API.buildParser
  rw [run]
  rfl

/-- On empty roots and well-formed URIs no assertion fails. -/
theorem API.buildParser_built (api : API J H) (fresh : api.roots = [])
    (wellFormed : ∀ m ∈ api.methods, WellFormedUri m.uri) :
    ∃ roots, api.buildParser = .ok { api with roots := roots } ∧ Built api.methods roots := by
  obtain ⟨roots, run, built⟩ := foldlM_addMethod wellFormed
  exact ⟨roots, API.buildParser_of_run (by rwa [fresh]), built⟩

end Building

section Lookup
variable (verb : Verb)

def hasVerb (m : Method J H) : Bool := m.method == verb

/-- Where the search for a verb and a sequence of segments ends: the nodes passed
and the group of siblings. -/
def searchEnd (segments : List Str) (roots : List (ParsedNode J H)) :
    Option (List (ParsedNode J H) × List (ParsedNode J H)) :=
  Forest.firstEnd nodeMatch (hasVerb verb) segments roots

/-- The first sibling that matches a segment. -/
def firstMatch (view : Str) (group : List (ParsedNode J H)) : Option (ParsedNode J H) :=
  group.find? (fun node => nodeMatch node.key view)

/-- The last sibling that matches a segment and has a method of the verb. -/
def lastMatch (view : Str) (group : List (ParsedNode J H)) : Option (ParsedNode J H) :=
  group.reverse.find? (Forest.hit nodeMatch (hasVerb verb) view)

theorem lastSegment_eq (view : Str) (nodes : List (ParsedNode J H)) :
    lastSegment verb view nodes =
      (lastMatch verb view nodes).bind (fun node => node.values.find? (hasVerb verb)) := by
  induction nodes using List.reverseRecOn with
  | nil => rfl
  | append_singleton front node ih =>
    have step : lastSegment verb view (front ++ [node]) =
        if !nodeMatch node.key view then lastSegment verb view front
        else (node.values.find? (hasVerb verb)).or (lastSegment verb view front) := by
      unfold hasVerb
      simp only [lastSegment, List.foldl_append, List.foldl_cons, List.foldl_nil]
      cases node.values.find? (fun m => m.method == verb) <;> rfl
    rw [step, ih, lastMatch, lastMatch, List.reverse_append, List.reverse_singleton,
      List.singleton_append, List.find?_cons, Forest.hit]
    cases matched : nodeMatch node.key view with
    | false => simp
    | true =>
      cases found : node.values.find? (hasVerb verb) with
      | none =>
        have absent : node.values.any (hasVerb verb) = false := by
          rw [List.any_eq_false]
          exact List.find?_eq_none.mp found
        simp [absent]
      | some m =>
        have present : node.values.any (hasVerb verb) = true :=
          List.any_eq_true.mpr ⟨m, List.mem_of_find?_eq_some found, List.find?_some found⟩
        simp [present, found]

theorem lastMatch_spec {view : Str} {group : List (ParsedNode J H)} {node : ParsedNode J H}
    (last : lastMatch verb view group = some node) :
    node ∈ group ∧ nodeMatch node.key view = true ∧
      (node.values.find? (hasVerb verb)).isSome := by
  obtain ⟨matched, held⟩ := (Forest.hit_iff _ _ _ _).mp (List.find?_some last)
  refine ⟨?_, matched, List.find?_isSome.mpr held⟩
  simpa using List.mem_of_find?_eq_some last

/-- The method chosen at the last segment matches it and has the verb. -/
theorem lastSegment_sound {view : Str} {nodes : List (ParsedNode J H)} {m : Method J H}
    (chosen : lastSegment verb view nodes = some m) :
    ∃ node ∈ nodes, lastMatch verb view nodes = some node ∧ nodeMatch node.key view = true ∧
      m ∈ node.values ∧ m.method = verb := by
  rw [lastSegment_eq] at chosen
  obtain ⟨node, last, first⟩ := Option.bind_eq_some_iff.mp chosen
  obtain ⟨member, matched, -⟩ := lastMatch_spec verb last
  have ofVerb := List.find?_some first
  exact ⟨node, member, last, matched, List.mem_of_find?_eq_some first,
    by simpa [hasVerb] using ofVerb⟩

theorem lastSegment_isSome_iff (view : Str) (nodes : List (ParsedNode J H)) :
    (lastSegment verb view nodes).isSome ↔
      ∃ node ∈ nodes, Forest.hit nodeMatch (hasVerb verb) view node = true := by
  constructor
  · intro chosen
    obtain ⟨m, found⟩ := Option.isSome_iff_exists.mp chosen
    obtain ⟨node, member, last, -⟩ := lastSegment_sound verb found
    exact ⟨node, member, List.find?_some last⟩
  · intro ⟨node, member, struck⟩
    have present : (lastMatch verb view nodes).isSome := by
      rw [lastMatch, List.find?_isSome]
      exact ⟨node, by simpa using member, struck⟩
    obtain ⟨last, found⟩ := Option.isSome_iff_exists.mp present
    rw [lastSegment_eq, found, Option.bind_some]
    exact (lastMatch_spec verb found).2.2

/-- What is returned when the search ends in a group: the last match's method,
the first match's binding under those of the nodes passed. -/
def resultAt (front : List Str) (last : Str)
    (found : List (ParsedNode J H) × List (ParsedNode J H)) : Option (LookupResult J H) :=
  (lastSegment verb last found.2).bind (fun m =>
    (firstMatch last found.2).map (fun first =>
      ⟨bindAll (found.1.map Branch.key) front (bindVariable first.key last []), m⟩))

/-- A hit in the group yields a result. -/
theorem resultAt_isSome {front : List Str} {last : Str}
    {found : List (ParsedNode J H) × List (ParsedNode J H)}
    (struck : ∃ node ∈ found.2, Forest.hit nodeMatch (hasVerb verb) last node = true) :
    (resultAt verb front last found).isSome := by
  obtain ⟨m, chosen⟩ := Option.isSome_iff_exists.mp ((lastSegment_isSome_iff verb _ _).mpr struck)
  obtain ⟨node, member, -, matched, -⟩ := lastSegment_sound verb chosen
  have present : (firstMatch last found.2).isSome := by
    rw [firstMatch, List.find?_isSome]
    exact ⟨node, member, matched⟩
  simp [resultAt, chosen, present]

theorem resultAt_cons (view : Str) (front : List Str) (last : Str) (node : ParsedNode J H)
    (inner group : List (ParsedNode J H)) :
    resultAt verb (view :: front) last (node :: inner, group) =
      (resultAt verb front last (inner, group)).map (fun found =>
        { found with properties := bindVariable node.key view found.properties }) := by
  unfold resultAt
  cases lastSegment verb last group with
  | none => rfl
  | some m => cases firstMatch last group <;> rfl

theorem lookup_helper_last (last : Str) (nodes : List (ParsedNode J H)) :
    lookup_helper verb [last] nodes =
      (searchEnd verb [last] nodes).bind (resultAt verb [] last) := by
  have perNode : lookup_helper verb [last] nodes = nodes.findSome? (fun node =>
      if nodeMatch node.key last then
        (lastSegment verb last nodes).map (fun m => ⟨bindVariable node.key last [], m⟩)
      else none) := by
    rw [lookup_helper]
    congr 1
    funext node
    cases nodeMatch node.key last <;> simp [Function.comp_def]
  have struck := lastSegment_isSome_iff verb last nodes
  rw [perNode, searchEnd, Forest.firstEnd, ← List.any_eq_true] at *
  cases chosen : lastSegment verb last nodes with
  | none =>
    rw [chosen] at struck
    rw [if_neg (by simp [← struck])]
    simp
  | some m =>
    rw [chosen] at struck
    rw [if_pos (struck.mp rfl)]
    simp only [Option.map_some, Forest.findSome?_guard, Option.bind_some, resultAt, chosen]
    rfl

/-- The lookup is a search for the group where it ends, and two choices there. -/
theorem lookup_helper_eq (front : List Str) (last : Str) (nodes : List (ParsedNode J H)) :
    lookup_helper verb (front ++ [last]) nodes =
      (searchEnd verb (front ++ [last]) nodes).bind (resultAt verb front last) := by
  induction front generalizing nodes with
  | nil => exact lookup_helper_last verb last nodes
  | cons view front ih =>
    obtain ⟨next, rest, more⟩ : ∃ next rest, front ++ [last] = next :: rest :=
      List.exists_cons_of_ne_nil (by simp)
    have ends : searchEnd verb (view :: next :: rest) nodes =
        nodes.findSome? (fun node =>
          if nodeMatch node.key view then
            (searchEnd verb (next :: rest) node.children).map
              (fun found => (node :: found.1, found.2))
          else none) := rfl
    rw [List.cons_append, lookup_helper, more, ends, Forest.findSome?_bind]
    · congr 1
      funext node
      rw [← more, ih]
      cases matched : nodeMatch node.key view with
      | false => simp
      | true =>
        cases found : searchEnd verb (front ++ [last]) node.children with
        | none => simp
        | some found =>
          have present : node.children.isEmpty = false := by
            by_contra empty
            rw [Bool.not_eq_false, List.isEmpty_iff] at empty
            rw [empty, searchEnd, more] at found
            rw [Forest.firstEnd_nil] at found
            cases found
          simp [present, resultAt_cons]
    · intro node member found below
      split at below
      · obtain ⟨sub, deeper, rfl⟩ := Option.map_eq_some_iff.mp below
        rw [← more] at deeper
        obtain ⟨-, front', last', split, -, hit⟩ := Forest.firstEnd_sound _ _ deeper
        obtain ⟨rfl, same⟩ := List.append_inj' split rfl
        obtain rfl := List.singleton_inj.mp same
        exact resultAt_isSome verb hit
      · cases below

/-- `API::lookup` searches for the non-empty parts between slashes. -/
theorem API.lookup_eq (api : API J H) (target : Str) :
    api.lookup verb target = lookup_helper verb (Text.pieces '/' target) api.roots := by
  rw [← Text.pieces_dropWhile]
  unfold API.lookup
  cases rest : target.dropWhile (fun c => decide (c = '/')) with
  | nil => rfl
  | cons c more =>
    have other : c ≠ '/' := by
      have stopped := List.head?_dropWhile_not (fun c => decide (c = '/')) target
      rw [rest] at stopped
      simpa using stopped
    have parts := Text.squeezed_parts '/' (List.head?_cons (a := c) (l := more)) other
    simp only [parts, List.isEmpty_cons, Bool.false_eq_true, if_false]
    split
    · rename_i empty
      rw [List.isEmpty_iff.mp empty]
      rfl
    · rfl

/-- A successful search: the nodes passed, the group it ends in, the sibling that
binds the last segment and the one whose method is returned. -/
structure Ending (segments : List Str) (roots : List (ParsedNode J H)) where
  front : List Str
  last : Str
  inner : List (ParsedNode J H)
  group : List (ParsedNode J H)
  first : ParsedNode J H
  final : ParsedNode J H
  method : Method J H
  segments_eq : segments = front ++ [last]
  ended : searchEnd verb segments roots = some (inner, group)
  first_eq : firstMatch last group = some first
  final_eq : lastMatch verb last group = some final
  method_eq : final.values.find? (hasVerb verb) = some method

namespace Ending
variable {verb : Verb} {segments : List Str} {roots : List (ParsedNode J H)}

def properties (ending : Ending verb segments roots) : Properties :=
  bindAll (ending.inner.map Branch.key) ending.front
    (bindVariable ending.first.key ending.last [])

/-- The path at whose end the returned method is stored. -/
def path (ending : Ending verb segments roots) : List NodeKey :=
  ending.inner.map Branch.key ++ [ending.final.key]

theorem reaches (ending : Ending verb segments roots) :
    Forest.Reaches ending.inner roots ending.group :=
  (Forest.firstEnd_sound _ _ ending.ended).1

theorem along (ending : Ending verb segments roots) :
    List.Forall₂ (fun node view => nodeMatch node.key view = true) ending.inner ending.front := by
  obtain ⟨-, front, last, split, along, -⟩ := Forest.firstEnd_sound _ _ ending.ended
  obtain ⟨same, -⟩ := List.append_inj' (ending.segments_eq.symm.trans split) rfl
  rwa [same]

theorem first_mem (ending : Ending verb segments roots) : ending.first ∈ ending.group :=
  List.mem_of_find?_eq_some ending.first_eq

theorem first_matches (ending : Ending verb segments roots) :
    nodeMatch ending.first.key ending.last = true := by
  simpa using List.find?_some ending.first_eq

theorem final_mem (ending : Ending verb segments roots) : ending.final ∈ ending.group :=
  (lastMatch_spec verb ending.final_eq).1

theorem final_matches (ending : Ending verb segments roots) :
    nodeMatch ending.final.key ending.last = true :=
  (lastMatch_spec verb ending.final_eq).2.1

theorem method_verb (ending : Ending verb segments roots) : ending.method.method = verb := by
  simpa [hasVerb] using List.find?_some ending.method_eq

theorem method_stored (ending : Ending verb segments roots) :
    Forest.Stored ending.path ending.method roots :=
  ending.reaches.stored (Forest.stored_single_iff.mpr
    ⟨ending.final, ending.final_mem, rfl, List.mem_of_find?_eq_some ending.method_eq⟩)

theorem path_matches (ending : Ending verb segments roots) :
    List.Forall₂ (fun key view => nodeMatch key view = true) ending.path segments := by
  have inner : List.Forall₂ (fun key view => nodeMatch key view = true)
      (ending.inner.map Branch.key) ending.front := List.forall₂_map_left_iff.mpr ending.along
  have whole : List.Forall₂ (fun key view => nodeMatch key view = true)
      ending.path (ending.front ++ [ending.last]) :=
    List.rel_append inner (.cons ending.final_matches .nil)
  rwa [← ending.segments_eq] at whole

theorem find_properties (ending : Ending verb segments roots) (name : Str) :
    ending.properties.find name =
      (boundAlong (ending.inner.map Branch.key) ending.front name).or
        (boundBy ending.first.key ending.last name) := by
  rw [properties, find_bindAll, find_bindVariable, FiniteMap.find_nil, Option.or_none]

/-- What is bound along the path of the returned method, by comparison. -/
theorem boundAlong_path (ending : Ending verb segments roots) (name : Str) :
    boundAlong ending.path segments name =
      (boundAlong (ending.inner.map Branch.key) ending.front name).or
        (boundBy ending.final.key ending.last name) := by
  have same : (ending.inner.map Branch.key).length = ending.front.length := by
    rw [List.length_map]
    exact ending.along.length_eq
  have split := boundAlong_concat same ending.final.key ending.last name
  rwa [← ending.segments_eq] at split

end Ending

theorem lookup_helper_eq_some_iff (segments : List Str) (roots : List (ParsedNode J H))
    (result : LookupResult J H) :
    lookup_helper verb segments roots = some result ↔
      ∃ ending : Ending verb segments roots, result = ⟨ending.properties, ending.method⟩ := by
  constructor
  · intro found
    rcases List.eq_nil_or_concat' segments with rfl | ⟨front, last, rfl⟩
    · cases found
    · rw [lookup_helper_eq] at found
      obtain ⟨⟨inner, group⟩, ended, completed⟩ := Option.bind_eq_some_iff.mp found
      obtain ⟨m, chosen, bound⟩ := Option.bind_eq_some_iff.mp completed
      obtain ⟨first, firstEq, rfl⟩ := Option.map_eq_some_iff.mp bound
      rw [lastSegment_eq] at chosen
      obtain ⟨final, finalEq, methodEq⟩ := Option.bind_eq_some_iff.mp chosen
      exact ⟨⟨front, last, inner, group, first, final, m, rfl, ended, firstEq, finalEq, methodEq⟩,
        rfl⟩
  · intro ⟨ending, same⟩
    obtain ⟨front, last, inner, group, first, final, m, rfl, ended, firstEq, finalEq, methodEq⟩ :=
      ending
    rw [lookup_helper_eq, ended, same, Option.bind_some, resultAt, lastSegment_eq, finalEq,
      Option.bind_some, methodEq, Option.bind_some, firstEq]
    rfl

theorem lookup_helper_isSome_iff (segments : List Str) (roots : List (ParsedNode J H)) :
    (lookup_helper verb segments roots).isSome ↔ (searchEnd verb segments roots).isSome := by
  rcases List.eq_nil_or_concat' segments with rfl | ⟨front, last, rfl⟩
  · rfl
  · rw [lookup_helper_eq]
    cases ended : searchEnd verb (front ++ [last]) roots with
    | none => rfl
    | some found =>
      obtain ⟨-, front', last', split, -, struck⟩ := Forest.firstEnd_sound _ _ ended
      obtain ⟨-, same⟩ := List.append_inj' split rfl
      obtain rfl := List.singleton_inj.mp same
      simpa using resultAt_isSome verb struck

end Lookup

section OverBuilt
variable {methods : List (Method J H)} {roots : List (ParsedNode J H)}

/-- The search succeeds exactly when a stored method of the verb has a path that
matches. -/
theorem lookup_helper_isSome_iff_stored (verb : Verb) (segments : List Str)
    (roots : List (ParsedNode J H)) :
    (lookup_helper verb segments roots).isSome ↔
      ∃ path m, Forest.Stored path m roots ∧ m.method = verb ∧
        List.Forall₂ (fun key view => nodeMatch key view = true) path segments := by
  rw [lookup_helper_isSome_iff, searchEnd, Forest.firstEnd_isSome_iff]
  simp only [hasVerb, beq_iff_eq]

/-- Whatever their URIs are, when a registered method fits. -/
theorem Placed.lookup_helper_isSome_iff (placed : Placed methods roots) (verb : Verb)
    (segments : List Str) :
    (lookup_helper verb segments roots).isSome ↔ ∃ m ∈ methods, Fits m verb segments := by
  rw [lookup_helper_isSome_iff_stored]
  constructor
  · intro ⟨path, m, stored, ofVerb, along⟩
    obtain ⟨member, parsed⟩ := (placed.stored path m).mp stored
    exact ⟨m, member, ofVerb, path, parsed, along⟩
  · intro ⟨m, member, ofVerb, path, parsed, along⟩
    exact ⟨path, m, (placed.stored path m).mpr ⟨member, parsed⟩, ofVerb, along⟩

/-- With well-formed URIs, when a registered method answers. -/
theorem Built.lookup_helper_isSome_iff (built : Built methods roots) (verb : Verb)
    (segments : List Str) :
    (lookup_helper verb segments roots).isSome ↔ ∃ m ∈ methods, Answers m verb segments := by
  rw [lookup_helper_isSome_iff_stored]
  constructor
  · intro ⟨path, m, stored, ofVerb, along⟩
    obtain ⟨member, template, writes, rfl⟩ := (built.stored path m).mp stored
    exact ⟨m, member, ofVerb, template, writes, template.matches_iff.mpr along⟩
  · intro ⟨m, member, ofVerb, template, writes, along⟩
    exact ⟨template.path, m, (built.stored _ m).mpr ⟨member, template, writes, rfl⟩, ofVerb,
      template.matches_iff.mp along⟩

namespace Ending
variable {verb : Verb} {segments : List Str}

theorem method_answers (built : Built methods roots) (ending : Ending verb segments roots) :
    ending.method ∈ methods ∧ Answers ending.method verb segments := by
  obtain ⟨member, template, writes, path⟩ := (built.stored _ _).mp ending.method_stored
  refine ⟨member, ending.method_verb, template, writes, template.matches_iff.mpr ?_⟩
  rw [← path]
  exact ending.path_matches

/-- The binding sibling lies on the path of some registered method. -/
theorem first_registered (built : Built methods roots) (ending : Ending verb segments roots) :
    ∃ m ∈ methods, ∃ template : UriTemplate, template.Writes m.uri ∧
      ∃ rest, template.path = ending.inner.map Branch.key ++ ending.first.key :: rest := by
  obtain ⟨rest, m, stored⟩ := (ending.reaches.grown built.grown).exists_stored ending.first_mem
  obtain ⟨member, template, writes, path⟩ :=
    (built.stored _ _).mp (ending.reaches.stored stored)
  exact ⟨m, member, template, writes, rest, path.symm⟩

end Ending
end OverBuilt
end Restio.Source.ApiMapper
