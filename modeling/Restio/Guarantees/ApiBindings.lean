import Restio.Source.ApiTree

/-!
# Properties handed to an API handler

At the last segment `lookup_helper` takes the method from the last sibling that
matches and has one of the verb, but binds the variable of the first sibling that
matches, whatever verbs that has: the inner loop shadows the `node` of the outer
one. The properties are the bindings of the returned method's own template exactly
when the two siblings are one (`properties_are_own_bindings_iff`). A literal
registered for another verb beside a variable is enough to lose the variable
(`literal_sibling_loses_binding`).
-/

set_option autoImplicit false

namespace Restio.Guarantees.ApiBindings
open Restio.Lib Restio.Source.Http Restio.Source.ApiMapper Restio.Spec

variable {J H : Type}

/-- The properties are the bindings of the returned method's template, and no
other key is present. -/
def BindsOwnTemplate (segments : List Str) (result : LookupResult J H) : Prop :=
  ∃ template : UriTemplate, template.Writes result.method.uri ∧
    ∀ name value, result.properties.find name = some value ↔
      (name, value) ∈ template.bindings segments

/-- In the group of siblings where the search for the verb and the segments ends,
the first sibling that matches the last segment is the last one that matches it
and has a method of the verb. -/
def OneSibling (verb : Verb) (segments : List Str) (roots : List (ParsedNode J H)) : Prop :=
  ∀ inner group last, searchEnd verb segments roots = some (inner, group) →
    segments.getLast? = some last → firstMatch last group = lastMatch verb last group

section
variable {methods : List (Method J H)} {roots : List (ParsedNode J H)} {verb : Verb}
  {segments : List Str}

/-- No sibling reached by a search carries the name of a variable passed before. -/
theorem fresh_of_path {keys : List NodeKey} {key : NodeKey} {rest : List NodeKey}
    {m : Method J H} {template : UriTemplate} (writes : template.Writes m.uri)
    (distinct : DistinctNames m.uri) (path : template.path = keys ++ key :: rest)
    {name : Str} (named : key.varName = some name) (views : List Str) :
    boundAlong keys views name = none := by
  have names : template.varNames = template.path.filterMap NodeKey.varName := by
    rw [UriTemplate.varNames, UriTemplate.path, List.filterMap_map, Function.comp_def]
    simp only [varName_key]
  have nodup := distinct template writes
  rw [names, path, List.filterMap_append, List.filterMap_cons, named] at nodup
  by_contra bound
  obtain ⟨value, bound⟩ := Option.ne_none_iff_exists'.mp bound
  have disjoint := List.disjoint_of_nodup_append nodup
  exact disjoint (mem_varNames_of_boundAlong bound) List.mem_cons_self

/-- The properties are the returned method's when they are what is bound along the
path it is stored at. -/
theorem bindsOwn_iff_boundAlong (ending : Ending verb segments roots) {template : UriTemplate}
    (writes : template.Writes ending.method.uri) (distinct : template.varNames.Nodup)
    (path : ending.path = template.path) :
    BindsOwnTemplate segments ⟨ending.properties, ending.method⟩ ↔
      ∀ name, ending.properties.find name = boundAlong ending.path segments name := by
  have along : template.Matches segments := by
    rw [template.matches_iff, ← path]
    exact ending.path_matches
  have own := fun name value => mem_bindings_iff along distinct name value
  rw [← path] at own
  constructor
  · intro ⟨written, writes', holds⟩ name
    have same : written.bindings segments = template.bindings segments := by
      rw [UriTemplate.bindings, UriTemplate.bindings, writes'.unique writes]
    refine Option.ext (fun value => ?_)
    rw [← own, ← same]
    exact holds name value
  · intro holds
    refine ⟨template, writes, fun name value => ?_⟩
    rw [own, ← holds]

/-- Siblings that bind the same names to the same values below the nodes passed are one. -/
theorem first_eq_final_of_bound (built : Built methods roots) (ending : Ending verb segments roots)
    (fresh : ∀ name, ending.first.key.varName = some name →
      boundAlong (ending.inner.map Branch.key) ending.front name = none)
    (fresh' : ∀ name, ending.final.key.varName = some name →
      boundAlong (ending.inner.map Branch.key) ending.front name = none)
    (holds : ∀ name, ending.properties.find name = boundAlong ending.path segments name) :
    ending.first = ending.final := by
  apply (ending.reaches.grown built.grown).eq_of_key ending.first_mem ending.final_mem
  apply eq_of_boundBy ending.first_matches ending.final_matches
  intro name
  have agree := holds name
  rw [ending.find_properties, ending.boundAlong_path] at agree
  -- a name either sibling binds is not bound above them
  cases bound : boundBy ending.first.key ending.last name with
  | some value =>
    rw [fresh name (varName_of_boundBy bound), bound] at agree
    simpa using agree
  | none =>
    cases bound' : boundBy ending.final.key ending.last name with
    | none => rfl
    | some value =>
      rw [fresh' name (varName_of_boundBy bound'), bound, bound'] at agree
      simp at agree

/-- A search's properties are those of the returned method's template exactly when
one sibling both binds and answers. -/
theorem ending_bindsOwn_iff (built : Built methods roots)
    (distinct : ∀ m ∈ methods, DistinctNames m.uri) (ending : Ending verb segments roots) :
    BindsOwnTemplate segments ⟨ending.properties, ending.method⟩ ↔
      ending.first = ending.final := by
  obtain ⟨member, template, writes, path⟩ := (built.stored _ _).mp ending.method_stored
  obtain ⟨other, otherMember, template', writes', rest, path'⟩ := ending.first_registered built
  rw [bindsOwn_iff_boundAlong ending writes (distinct _ member template writes) path]
  constructor
  · intro holds
    refine first_eq_final_of_bound built ending ?_ ?_ holds
    · intro name named
      exact fresh_of_path writes' (distinct _ otherMember) path' named _
    · intro name named
      exact fresh_of_path writes (distinct _ member) path.symm named _
  · intro same name
    rw [ending.find_properties, ending.boundAlong_path, same]

theorem oneSibling_iff (ending : Ending verb segments roots) :
    OneSibling verb segments roots ↔ ending.first = ending.final := by
  have lastEq : segments.getLast? = some ending.last := by
    simpa using congrArg List.getLast? ending.segments_eq
  constructor
  · intro one
    have same := one _ _ _ ending.ended lastEq
    rw [ending.first_eq, ending.final_eq] at same
    exact Option.some.inj same
  · intro same inner group last ended lastEq'
    rw [ending.ended, Option.some.injEq, Prod.mk.injEq] at ended
    rw [lastEq, Option.some.injEq] at lastEq'
    rw [← ended.2, ← lastEq', ending.first_eq, ending.final_eq, same]

end

/-- For every list of well-formed methods without repeated variable names, every
verb and every target: the properties are exactly the bindings of the returned
method's template if and only if the first sibling matching the last segment is
the one whose method is returned. -/
theorem properties_are_own_bindings_iff (api : API J H) (fresh : api.roots = [])
    (wellFormed : ∀ m ∈ api.methods, WellFormedUri m.uri)
    (distinct : ∀ m ∈ api.methods, DistinctNames m.uri) :
    ∃ built, api.buildParser = .ok built ∧ ∀ verb target,
      ((∀ result, built.lookup verb target = some result →
          BindsOwnTemplate (Text.pieces '/' target) result) ↔
        OneSibling verb (Text.pieces '/' target) built.roots) := by
  obtain ⟨roots, run, built⟩ := api.buildParser_built fresh wellFormed
  refine ⟨{ api with roots := roots }, run, fun verb target => ?_⟩
  rw [API.lookup_eq]
  generalize Text.pieces '/' target = segments
  constructor
  · intro own inner group last ended lastEq
    have found : (lookup_helper verb segments roots).isSome := by
      rw [lookup_helper_isSome_iff, ended]
      rfl
    obtain ⟨result, found⟩ := Option.isSome_iff_exists.mp found
    obtain ⟨ending, rfl⟩ := (lookup_helper_eq_some_iff _ _ _ _).mp found
    have same := (ending_bindsOwn_iff built distinct ending).mp (own _ found)
    exact (oneSibling_iff ending).mpr same inner group last ended lastEq
  · intro one result found
    obtain ⟨ending, rfl⟩ := (lookup_helper_eq_some_iff _ _ _ _).mp found
    exact (ending_bindsOwn_iff built distinct ending).mpr ((oneSibling_iff ending).mp one)

/-- A literal for one verb registered beside a variable for another. -/
def listAndItem : API Unit Nat where
  methods :=
    [⟨.post, "resource/list".toList, [], (), (), [], 1⟩,
      ⟨.get, "resource/<string:id>".toList, [], (), (), [], 2⟩]

def listTemplate : UriTemplate where
  segments := [.literal "resource".toList, .literal "list".toList]
  nonempty := by decide
  wellFormed := by decide

def itemTemplate : UriTemplate where
  segments := [.literal "resource".toList, .stringVar "id".toList]
  nonempty := by decide
  wellFormed := by decide

theorem listAndItem_written : ∀ m ∈ listAndItem.methods,
    ∃ template : UriTemplate, template.Writes m.uri ∧ template.varNames.Nodup := by
  intro m member
  rcases List.mem_cons.mp member with rfl | member
  · exact ⟨listTemplate, Or.inl (by decide), by decide⟩
  · rw [List.mem_singleton.mp member]
    exact ⟨itemTemplate, Or.inl (by decide), by decide⟩

theorem listAndItem_wellFormed : ∀ m ∈ listAndItem.methods, WellFormedUri m.uri := by
  intro m member
  obtain ⟨template, writes, -⟩ := listAndItem_written m member
  exact ⟨template, writes⟩

theorem listAndItem_distinct : ∀ m ∈ listAndItem.methods, DistinctNames m.uri := by
  intro m member other writes'
  obtain ⟨template, writes, distinct⟩ := listAndItem_written m member
  rwa [UriTemplate.varNames, writes'.unique writes]

theorem listAndItem_own_bindings_iff :
    ∃ built, listAndItem.buildParser = .ok built ∧ ∀ verb target,
      ((∀ result, built.lookup verb target = some result →
          BindsOwnTemplate (Text.pieces '/' target) result) ↔
        OneSibling verb (Text.pieces '/' target) built.roots) :=
  properties_are_own_bindings_iff listAndItem rfl listAndItem_wellFormed listAndItem_distinct

/-- `GET /resource/list` reaches the handler of `resource/<string:id>` without a
value for `id`. -/
theorem literal_sibling_loses_binding :
    (∀ m ∈ listAndItem.methods, WellFormedUri m.uri ∧ DistinctNames m.uri) ∧
    ∃ built result, listAndItem.buildParser = .ok built ∧
      built.lookup .get "/resource/list".toList = some result ∧
      result.method.uri = "resource/<string:id>".toList ∧ result.properties = [] ∧
      ¬ BindsOwnTemplate (Text.pieces '/' "/resource/list".toList) result := by
  refine ⟨fun m member => ⟨listAndItem_wellFormed m member, listAndItem_distinct m member⟩, ?_⟩
  let roots : List (ParsedNode Unit Nat) :=
    [⟨⟨.ConstString, "resource".toList⟩, [],
      [⟨⟨.ConstString, "list".toList⟩, [⟨.post, "resource/list".toList, [], (), (), [], 1⟩], []⟩,
        ⟨⟨.VarString, "id".toList⟩, [⟨.get, "resource/<string:id>".toList, [], (), (), [], 2⟩],
          []⟩]⟩]
  refine ⟨{ listAndItem with roots := roots },
    ⟨[], ⟨.get, "resource/<string:id>".toList, [], (), (), [], 2⟩⟩, rfl, by decide +kernel, rfl,
    rfl, ?_⟩
  intro ⟨template, writes, holds⟩
  have segments : template.segments = itemTemplate.segments :=
    writes.unique (Or.inl (by decide))
  have bound := (holds "id".toList (.string "list".toList)).mpr (by
    rw [UriTemplate.bindings, segments]
    decide +kernel)
  cases bound

end Restio.Guarantees.ApiBindings
