import Restio.Source.ApiOrder

/-!
# Precedence among overlapping templates

Of all paths that lead to a match, the lookup takes the first in registration order
up to the last segment, and at its node the first method of the verb. Where no
other sibling competes for the last segment, this is the first path as a whole. The
choice between such siblings is left open here; it belongs to the shadowed `node` of
`lookup_helper`.

One more literal segment behind every URI and behind the target leaves no such
siblings. It keeps the method selected, unless the literal reorders siblings: a URI
that ended in a group now passes it by the literal, which may put the literal's node
before that of the selected path. `template_precedence` has both results, and
`precedence_fails` both ways in which the order or the choice can be another.
-/

set_option autoImplicit false

namespace Restio.Guarantees.TemplatePrecedence
open Restio.Lib Restio.Source.Http Restio.Source.ApiMapper Restio.Spec

variable {J H : Type}

/-- A URI with one more segment. -/
def appendSegment (text uri : Str) : Str :=
  if uri.getLast? = some '/' then uri ++ text else uri ++ '/' :: text

def appendMethod (text : Str) (m : Method J H) : Method J H :=
  { m with uri := appendSegment text m.uri }

/-- The API with the segment behind every URI. -/
def appendApi (text : Str) (api : API J H) : API J H :=
  { api with methods := api.methods.map (appendMethod text) }

/-- The node key of a literal. -/
def literalKey (text : Str) : NodeKey := ⟨.ConstString, text⟩

/-- The method is the first of the verb on the first path that leads to a match. -/
def FirstWins (verb : Verb) (segments : List Str) (roots : List (ParsedNode J H))
    (m : Method J H) : Prop :=
  ∃ positions inner node, Selects verb segments roots m positions inner node ∧
    FirstPath verb segments roots positions

/-- Some other path that matches goes on by the literal where it parts from the
method's path, and a URI that ends right there was registered before all that go on
as the method's does. -/
def Overtaken (text : Str) (methods : List (Method J H)) (verb : Verb) (segments : List Str)
    (m : Method J H) : Prop :=
  ∃ other ∈ methods, Answers other verb segments ∧
    Forest.Overtakes (methods.map Method.path) (literalKey text) m.path other.path

/-- What is selected for a target, and for the target with one more segment by the
API with that segment behind every URI. -/
structure Precedence (api built : API J H) (verb : Verb) (target : Str)
    (result : LookupResult J H) (positions : List Nat) (inner : List (ParsedNode J H))
    (node : ParsedNode J H) : Prop where
  found : built.lookup verb target = some result
  selects : Selects verb (Text.pieces '/' target) built.roots result.method positions inner node
  firstRegistered :
    (api.methods.filter (fun m => decide (m.path = result.method.path))).find? (hasVerb verb) =
      some result.method
  first : Unrivalled verb (Text.pieces '/' target) built.roots positions →
    FirstPath verb (Text.pieces '/' target) built.roots positions
  appended : ∀ text, (Segment.literal text).WellFormed →
    ∃ built' result', (appendApi text api).buildParser = .ok built' ∧
      built'.lookup verb (target ++ '/' :: text) = some result' ∧
      FirstWins verb (Text.pieces '/' (target ++ '/' :: text)) built'.roots result'.method ∧
      (Unrivalled verb (Text.pieces '/' target) built.roots positions →
        (result'.method = appendMethod text result.method ↔
          ¬ Overtaken text api.methods verb (Text.pieces '/' target) result.method))

/-- A template's text does not end with a slash. -/
theorem render_getLast_ne (template : UriTemplate) : template.render.getLast? ≠ some '/' := by
  obtain ⟨segments, nonempty, wellFormed⟩ := template
  obtain ⟨front, segment, rfl⟩ := (List.eq_nil_or_concat' segments).resolve_left nonempty
  have own := wellFormed segment (List.mem_append_right _ List.mem_cons_self)
  have last : (['/'].intercalate ((front ++ [segment]).map Segment.render)).getLast? =
      segment.render.getLast? := by
    rw [List.map_append, List.map_singleton]
    by_cases alone : front = []
    · simp [alone]
    · rw [Text.intercalate_concat '/' (by simpa using alone), List.getLast?_append_of_ne_nil _
        (List.cons_ne_nil _ _), List.getLast?_cons_of_ne_nil own.render_ne_nil]
  intro slash
  exact own.slash_free (List.mem_of_getLast? (last.symm.trans slash))

section Appending
variable {text : Str} (plain : (Segment.literal text).WellFormed)

/-- The template with one more literal. -/
def appendTemplate (template : UriTemplate) : UriTemplate where
  segments := template.segments ++ [.literal text]
  nonempty := by simp
  wellFormed := by
    intro segment member
    rcases List.mem_append.mp member with inside | last
    · exact template.wellFormed segment inside
    · rw [List.mem_singleton.mp last]
      exact plain

theorem appendTemplate_writes {template : UriTemplate} {uri : Str}
    (writes : template.Writes uri) :
    (appendTemplate plain template).Writes (appendSegment text uri) := by
  have joined : (appendTemplate plain template).render = template.render ++ '/' :: text := by
    unfold UriTemplate.render appendTemplate
    rw [List.map_append, List.map_singleton,
      Text.intercalate_concat '/' (by simpa using template.nonempty)]
    rfl
  left
  rw [joined]
  rcases writes with rfl | rfl
  · exact if_neg (render_getLast_ne template)
  · rw [appendSegment, if_pos List.getLast?_concat, List.append_assoc]
    rfl

include plain in
theorem appendMethod_path {m : Method J H} (wellFormed : WellFormedUri m.uri) :
    (appendMethod text m).path = m.path ++ [literalKey text] := by
  obtain ⟨template, writes⟩ := wellFormed
  rw [path_of_writes writes, path_of_writes (appendTemplate_writes plain writes)]
  exact List.map_append

include plain in
theorem appendApi_wellFormed {api : API J H} (wellFormed : ∀ m ∈ api.methods, WellFormedUri m.uri) :
    ∀ m ∈ (appendApi text api).methods, WellFormedUri m.uri := by
  intro m member
  obtain ⟨origin, held, rfl⟩ := List.mem_map.mp member
  obtain ⟨template, writes⟩ := wellFormed origin held
  exact ⟨appendTemplate plain template, appendTemplate_writes plain writes⟩

include plain in
theorem answers_append_iff {m : Method J H} (wellFormed : WellFormedUri m.uri) (verb : Verb)
    (segments : List Str) :
    Answers (appendMethod text m) verb (segments ++ [text]) ↔ Answers m verb segments := by
  have wellFormed' : WellFormedUri (appendMethod text m).uri := by
    obtain ⟨template, writes⟩ := wellFormed
    exact ⟨appendTemplate plain template, appendTemplate_writes plain writes⟩
  have literal : nodeMatch (literalKey text) text = true := beq_self_eq_true text
  rw [answers_iff wellFormed', answers_iff wellFormed, appendMethod_path plain wellFormed,
    ← List.forall₂_reverse_iff, List.reverse_append, List.reverse_append]
  simp [appendMethod, literal, List.forall₂_reverse_iff]

include plain in
/-- The API with the literal has no siblings that compete for it. -/
theorem appended_unrivalled {api : API J H} {roots : List (ParsedNode J H)} {verb : Verb}
    {segments : List Str} (wellFormed : ∀ m ∈ api.methods, WellFormedUri m.uri)
    (tree : Ordered (appendApi text api).methods roots) (positions : List Nat)
    {inner : List (ParsedNode J H)} {node : ParsedNode J H}
    (leads : LeadsTo verb segments roots positions inner node) :
    Unrivalled verb segments roots positions := by
  have last : ∀ {others passed other}, LeadsTo verb segments roots others passed other →
      other.key = literalKey text := by
    intro others passed other leads'
    obtain ⟨m, member, -, path⟩ := tree.answers leads'
    obtain ⟨origin, held, rfl⟩ := List.mem_map.mp member
    rw [appendMethod_path plain (wellFormed origin held), List.map_append, List.map_singleton]
      at path
    exact (List.singleton_inj.mp (List.append_inj' path rfl).2).symm
  intro others passed other leads' same
  have inside := Forest.follow_dropLast leads.followed
  have inside' := Forest.follow_dropLast leads'.followed
  have passedEq : passed = inner := by
    rw [same, inside] at inside'
    exact (Option.some.inj inside').symm
  refine Forest.positions_of_keys tree.built.grown leads'.followed leads.followed ?_
  rw [List.map_append, List.map_append, passedEq, List.map_singleton, List.map_singleton,
    last leads, last leads']

include plain in
/-- A method is the first of the verb registered with its path also behind the
literal. -/
theorem firstRegistered_append {methods : List (Method J H)}
    (wellFormed : ∀ m ∈ methods, WellFormedUri m.uri) {verb : Verb} {m : Method J H}
    (member : m ∈ methods)
    (first : (methods.filter (fun other => decide (other.path = m.path))).find? (hasVerb verb) =
      some m) :
    ((methods.map (appendMethod text)).filter
        (fun other => decide (other.path = (appendMethod text m).path))).find? (hasVerb verb) =
      some (appendMethod text m) := by
  have kept : ∀ other ∈ methods,
      decide ((appendMethod text other).path = (appendMethod text m).path) =
        decide (other.path = m.path) := by
    intro other held
    rw [decide_eq_decide, appendMethod_path plain (wellFormed other held),
      appendMethod_path plain (wellFormed m member), List.append_left_inj]
  have sameVerb : hasVerb verb ∘ appendMethod text = hasVerb (J := J) (H := H) verb := rfl
  rw [List.filter_map, List.filter_congr (q := fun other => decide (other.path = m.path)) kept,
    List.find?_map, sameVerb, first]
  rfl

end Appending

section Choice
variable {methods : List (Method J H)} {text : Str} {verb : Verb} {segments : List Str}

/-- Of the methods first before and behind the literal, the second has the path of
the first unless that is overtaken. -/
theorem same_path_iff (plain : (Segment.literal text).WellFormed)
    (wellFormed : ∀ m ∈ methods, WellFormedUri m.uri) {m m' : Method J H} (member : m ∈ methods)
    (member' : m' ∈ methods) (answers : Answers m verb segments)
    (answers' : Answers m' verb segments) (first : Foremost methods verb segments m)
    (first' : Foremost (methods.map (appendMethod text)) verb (segments ++ [text])
      (appendMethod text m')) :
    m'.path = m.path ↔ ¬ Overtaken text methods verb segments m := by
  have paths : (methods.map (appendMethod text)).map Method.path =
      (methods.map Method.path).map (fun path => path ++ [literalKey text]) := by
    rw [List.map_map, List.map_map]
    exact List.map_congr_left (fun other held => appendMethod_path plain (wellFormed other held))
  -- behind the literal nothing that answers comes before the second method
  have least : ∀ other ∈ methods, Answers other verb segments → ¬ Forest.Precedes
      (Forest.rankOf ((methods.map Method.path).map (fun path => path ++ [literalKey text])))
        other.path m'.path := by
    intro other held answered before
    have behind := first' (appendMethod text other) (List.mem_map_of_mem held)
      ((answers_append_iff plain (wellFormed other held) verb segments).mpr answered)
    rw [paths, appendMethod_path plain (wellFormed other held),
      appendMethod_path plain (wellFormed m' member')] at behind
    have before' := before.append [literalKey text] [literalKey text]
    rcases behind with same | after
    · rw [same] at before'
      exact before'.asymm before'
    · exact before'.asymm after
  constructor
  · intro same ⟨other, held, answered, overtakes⟩
    refine least other held answered ?_
    rw [same]
    exact Forest.precedes_of_overtakes overtakes
  · intro kept
    rcases first m' member' answers' with same | before
    · exact same
    · refine absurd (Forest.precedes_continued before ?_) (least m member answers)
      exact fun overtakes => kept ⟨m', member', answers', overtakes⟩

/-- Of the methods selected before and behind the literal, the second comes from the
first when it has its path. -/
theorem same_method_iff (plain : (Segment.literal text).WellFormed)
    (wellFormed : ∀ m ∈ methods, WellFormedUri m.uri) {m m' : Method J H} (member : m ∈ methods)
    (member' : m' ∈ methods)
    (first : (methods.filter (fun other => decide (other.path = m.path))).find? (hasVerb verb) =
      some m)
    (first' : ((methods.map (appendMethod text)).filter
        (fun other => decide (other.path = (appendMethod text m').path))).find? (hasVerb verb) =
      some (appendMethod text m')) :
    appendMethod text m' = appendMethod text m ↔ m'.path = m.path := by
  constructor
  · intro equal
    have paths := congrArg Method.path equal
    rw [appendMethod_path plain (wellFormed m' member'),
      appendMethod_path plain (wellFormed m member)] at paths
    exact List.append_cancel_right paths
  · intro paths
    have again := firstRegistered_append plain wellFormed member first
    rw [appendMethod_path plain (wellFormed m' member'), paths,
      ← appendMethod_path plain (wellFormed m member)] at first'
    exact Option.some.inj (first'.symm.trans again)

/-- The selection behind the literal: the first path as a whole, and the method
selected before unless that is overtaken. -/
theorem appended_selects {api : API J H} {roots : List (ParsedNode J H)}
    (tree : Ordered api.methods roots) (fresh : api.roots = [])
    (wellFormed : ∀ m ∈ api.methods, WellFormedUri m.uri)
    (plain : (Segment.literal text).WellFormed) {m : Method J H} {positions : List Nat}
    {inner : List (ParsedNode J H)} {node : ParsedNode J H}
    (selects : Selects verb segments roots m positions inner node) :
    ∃ built' result', (appendApi text api).buildParser = .ok built' ∧
      lookup_helper verb (segments ++ [text]) built'.roots = some result' ∧
      FirstWins verb (segments ++ [text]) built'.roots result'.method ∧
      (Unrivalled verb segments roots positions →
        (result'.method = appendMethod text m ↔ ¬ Overtaken text api.methods verb segments m)) := by
  obtain ⟨member, answers⟩ := tree.selected_answers selects
  obtain ⟨path, firstOwn⟩ := tree.firstRegistered selects
  obtain ⟨roots', run', tree'⟩ :=
    API.buildParser_tree (appendApi text api) fresh (appendApi_wellFormed plain wellFormed)
  have found : (lookup_helper verb (segments ++ [text]) roots').isSome := by
    rw [tree'.built.lookup_helper_isSome_iff]
    exact ⟨appendMethod text m, List.mem_map_of_mem member,
      (answers_append_iff plain (wellFormed m member) verb segments).mpr answers⟩
  obtain ⟨result', found⟩ := Option.isSome_iff_exists.mp found
  obtain ⟨positions', inner', node', selects'⟩ := lookup_helper_selects found
  have first' := selects'.firstPath
    (appended_unrivalled plain wellFormed tree' positions' selects'.leads)
  refine ⟨{ appendApi text api with roots := roots' }, result', run', found,
    ⟨positions', inner', node', selects', first'⟩, ?_⟩
  intro unrivalled
  obtain ⟨member', answers'⟩ := tree'.selected_answers selects'
  obtain ⟨m', held, same⟩ := List.mem_map.mp member'
  rw [← same, answers_append_iff plain (wellFormed m' held)] at answers'
  have foremost' := tree'.foremost selects' first'
  have firstOwn' := (tree'.firstRegistered selects').2
  rw [← same] at foremost' firstOwn' ⊢
  rw [same_method_iff plain wellFormed member held firstOwn firstOwn',
    same_path_iff plain wellFormed member held answers answers'
      (tree.foremost selects (selects.firstPath unrivalled)) foremost']

end Choice

/-- For every API with well-formed URIs, every verb and every target that some method
answers: up to its last segment the lookup takes the first path that leads to a
match, and the first as a whole where no sibling competes for the last segment; and
one more literal keeps the method selected then if and only if that is not
overtaken. -/
theorem template_precedence (api : API J H) (fresh : api.roots = [])
    (wellFormed : ∀ m ∈ api.methods, WellFormedUri m.uri) :
    ∃ built, api.buildParser = .ok built ∧ ∀ verb target m, m ∈ api.methods →
      Answers m verb (Text.pieces '/' target) →
        ∃ result positions inner node,
          Precedence api built verb target result positions inner node := by
  obtain ⟨roots, run, tree⟩ := api.buildParser_tree fresh wellFormed
  refine ⟨{ api with roots := roots }, run, ?_⟩
  intro verb target m member answers
  have found := (tree.built.lookup_helper_isSome_iff verb _).mpr ⟨m, member, answers⟩
  obtain ⟨result, found⟩ := Option.isSome_iff_exists.mp found
  obtain ⟨positions, inner, node, selects⟩ := lookup_helper_selects found
  refine ⟨result, positions, inner, node, by rw [API.lookup_eq, found], selects,
    (tree.firstRegistered selects).2, selects.firstPath, ?_⟩
  intro text plain
  have longer : Text.pieces '/' (target ++ '/' :: text) = Text.pieces '/' target ++ [text] := by
    rw [Text.pieces_append_sep, Text.pieces_part '/' plain.1 plain.2.1]
  simp only [API.lookup_eq, longer]
  exact appended_selects tree fresh wellFormed plain selects

/-- A page, and below it a variable before a literal. -/
def docsPages : API Unit Nat where
  methods :=
    [⟨.get, "docs".toList, [], (), (), [], 1⟩,
      ⟨.get, "docs/<string:name>/index".toList, [], (), (), [], 2⟩,
      ⟨.get, "docs/all/index".toList, [], (), (), [], 3⟩]

theorem docsPages_wellFormed : ∀ m ∈ docsPages.methods, WellFormedUri m.uri := by
  intro m member
  simp only [docsPages, List.mem_cons, List.not_mem_nil, or_false] at member
  rcases member with rfl | rfl | rfl
  · exact ⟨⟨[.literal "docs".toList], by decide, by decide⟩, Or.inl (by decide)⟩
  · exact ⟨⟨[.literal "docs".toList, .stringVar "name".toList, .literal "index".toList],
      by decide, by decide⟩, Or.inl (by decide)⟩
  · exact ⟨⟨[.literal "docs".toList, .literal "all".toList, .literal "index".toList],
      by decide, by decide⟩, Or.inl (by decide)⟩

theorem docsPages_answer :
    Answers (⟨.get, "docs/all/index".toList, [], (), (), [], 3⟩ : Method Unit Nat) .get
      (Text.pieces '/' "/docs/all/index".toList) :=
  ⟨rfl, ⟨[.literal "docs".toList, .literal "all".toList, .literal "index".toList],
    by decide, by decide⟩, Or.inl (by decide), .cons rfl (.cons rfl (.cons rfl .nil))⟩

theorem docsPages_precedence :
    ∃ built, docsPages.buildParser = .ok built ∧ ∃ result positions inner node,
      Precedence docsPages built .get "/docs/all/index".toList result positions inner node := by
  obtain ⟨built, run, law⟩ := template_precedence docsPages rfl docsPages_wellFormed
  exact ⟨built, run, law .get "/docs/all/index".toList _
    (List.mem_cons_of_mem _ (List.mem_cons_of_mem _ List.mem_cons_self)) docsPages_answer⟩

/-- A variable before a literal at the last segment. -/
def listOrItem : API Unit Nat where
  methods :=
    [⟨.get, "<string:name>".toList, [], (), (), [], 1⟩, ⟨.get, "list".toList, [], (), (), [], 2⟩]

def listOrItemRoots : List (ParsedNode Unit Nat) :=
  [⟨⟨.VarString, "name".toList⟩, [⟨.get, "<string:name>".toList, [], (), (), [], 1⟩], []⟩,
    ⟨⟨.ConstString, "list".toList⟩, [⟨.get, "list".toList, [], (), (), [], 2⟩], []⟩]

theorem listOrItem_wellFormed : ∀ m ∈ listOrItem.methods, WellFormedUri m.uri := by
  intro m member
  simp only [listOrItem, List.mem_cons, List.not_mem_nil, or_false] at member
  rcases member with rfl | rfl
  · exact ⟨⟨[.stringVar "name".toList], by decide, by decide⟩, Or.inl (by decide)⟩
  · exact ⟨⟨[.literal "list".toList], by decide, by decide⟩, Or.inl (by decide)⟩

/-- The first path for `list` is that of the variable. -/
theorem listOrItem_first {m : Method Unit Nat}
    (wins : FirstWins .get ["list".toList] listOrItemRoots m) :
    m.uri = "<string:name>".toList := by
  obtain ⟨positions, inner, node, selects, first⟩ := wins
  have leads : LeadsTo .get ["list".toList] listOrItemRoots [0] []
      ⟨⟨.VarString, "name".toList⟩, [⟨.get, "<string:name>".toList, [], (), (), [], 1⟩], []⟩ :=
    ⟨rfl, .cons rfl .nil, _, List.mem_cons_self, rfl⟩
  rcases first [0] [] _ leads with same | less
  · have followed := selects.leads.followed
    rw [← same, leads.followed, Option.some.injEq] at followed
    obtain ⟨-, nodes⟩ := List.append_inj' followed rfl
    have chosen := selects.firstOfVerb
    rw [← List.singleton_inj.mp nodes] at chosen
    exact Option.some.inj chosen ▸ rfl
  · have size := length_eq_of_leads selects.leads leads
    cases less with
    | nil => cases size
    | cons less => cases less
    | rel less => exact absurd less (Nat.not_lt_zero _)

def docsPagesRoots : List (ParsedNode Unit Nat) :=
  [⟨⟨.ConstString, "docs".toList⟩, [⟨.get, "docs".toList, [], (), (), [], 1⟩],
    [⟨⟨.VarString, "name".toList⟩, [],
        [⟨⟨.ConstString, "index".toList⟩,
          [⟨.get, "docs/<string:name>/index".toList, [], (), (), [], 2⟩], []⟩]⟩,
      ⟨⟨.ConstString, "all".toList⟩, [],
        [⟨⟨.ConstString, "index".toList⟩, [⟨.get, "docs/all/index".toList, [], (), (), [], 3⟩],
          []⟩]⟩]⟩]

/-- Nothing comes before the first sibling at every depth. -/
theorem zeros_first (others : List Nat) :
    others = List.replicate others.length 0 ∨
      List.Lex (· < ·) (List.replicate others.length 0) others := by
  induction others with
  | nil => exact Or.inl rfl
  | cons position others ih =>
    rw [List.length_cons, List.replicate_succ]
    cases position with
    | succ position => exact Or.inr (.rel (Nat.succ_pos position))
    | zero =>
      rcases ih with same | less
      · exact Or.inl (congrArg (List.cons 0) same)
      · exact Or.inr (.cons less)

/-- The first path for `docs/all/index` is that of the variable. -/
theorem docsPages_first :
    FirstWins .get ["docs".toList, "all".toList, "index".toList] docsPagesRoots
      ⟨.get, "docs/<string:name>/index".toList, [], (), (), [], 2⟩ := by
  have leads : LeadsTo .get ["docs".toList, "all".toList, "index".toList] docsPagesRoots [0, 0, 0]
      [docsPagesRoots[0], docsPagesRoots[0].children[0]]
      ⟨⟨.ConstString, "index".toList⟩,
        [⟨.get, "docs/<string:name>/index".toList, [], (), (), [], 2⟩], []⟩ :=
    ⟨rfl, .cons rfl (.cons rfl (.cons rfl .nil)), _, List.mem_cons_self, rfl⟩
  refine ⟨[0, 0, 0], _, _, ⟨leads, rfl, ?_⟩, ?_⟩
  · intro others passed other leads'
    have size := length_eq_of_leads leads leads'
    have first := zeros_first others.dropLast
    rwa [List.length_dropLast, ← size] at first
  · intro others passed other leads'
    have first := zeros_first others
    rwa [← length_eq_of_leads leads leads'] at first

/-- For `list` the lookup takes the literal behind the variable, against the order of
the other segments; for `docs/all/index` it takes the first path, and with `all` behind
every URI and the target another method. -/
theorem precedence_fails :
    ((∀ m ∈ listOrItem.methods, WellFormedUri m.uri) ∧
      ∀ m ∈ docsPages.methods, WellFormedUri m.uri) ∧
    (∃ built result, listOrItem.buildParser = .ok built ∧
      built.lookup .get "/list".toList = some result ∧
      ¬ FirstWins .get (Text.pieces '/' "/list".toList) built.roots result.method) ∧
    ∃ built built' result result', docsPages.buildParser = .ok built ∧
      (appendApi "all".toList docsPages).buildParser = .ok built' ∧
      built.lookup .get "/docs/all/index".toList = some result ∧
      FirstWins .get (Text.pieces '/' "/docs/all/index".toList) built.roots result.method ∧
      built'.lookup .get "/docs/all/index/all".toList = some result' ∧
      result'.method ≠ appendMethod "all".toList result.method := by
  refine ⟨⟨listOrItem_wellFormed, docsPages_wellFormed⟩, ?_, ?_⟩
  · refine ⟨{ listOrItem with roots := listOrItemRoots },
      ⟨_, ⟨.get, "list".toList, [], (), (), [], 2⟩⟩, rfl, rfl, ?_⟩
    intro wins
    exact absurd (listOrItem_first wins) (by decide)
  · exact ⟨_, _, _, _, rfl, rfl, rfl, docsPages_first, rfl, by decide⟩

end Restio.Guarantees.TemplatePrecedence
