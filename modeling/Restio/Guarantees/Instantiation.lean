import Restio.Guarantees.ApiBindings

/-!
# Lookup of instantiated templates

A single method is looked up on its own URI with each variable replaced by a value
of its type, written with any number of additional slashes. `lookup_helper` reads
a segment as an int only when it starts with a digit, so an int variable takes the
values from 0 to INT_MAX: with these the lookup returns the method and the values
(`lookup_instantiated`), and a negative value anywhere finds nothing
(`negative_value_is_unrouted`).
-/

set_option autoImplicit false

namespace Restio.Guarantees.Instantiation
open Restio.Lib Restio.Source.Http Restio.Source.ApiMapper Restio.Spec Restio.Guarantees.ApiBindings

variable {J H : Type}

/-- `std::to_string` of an int; a string stands for itself. -/
def valueText : MappedType → Str
  | .int value => Decimal.render value
  | .string text => text

/-- A segment with its variable replaced. -/
def instantiate (values : Str → MappedType) : Segment → Str
  | .literal text => text
  | .stringVar name | .intVar name => valueText (values name)

/-- The variable has a value of its type: an `int`, or a non-empty text without a
slash. -/
def Typed (values : Str → MappedType) : Segment → Prop
  | .literal _ => True
  | .stringVar name => ∃ text, values name = .string text ∧ text ≠ [] ∧ '/' ∉ text
  | .intVar name => ∃ value : Int, values name = .int value ∧
      -2147483648 ≤ value ∧ value ≤ 2147483647

/-- The segment is no int variable with a negative value. -/
def NonNegative (values : Str → MappedType) : Segment → Prop
  | .intVar name => ∀ value : Int, values name = .int value → 0 ≤ value
  | .literal _ | .stringVar _ => True

/-- The method is found, with the template's variables and their values as its
properties. -/
def FoundWith (values : Str → MappedType) (template : UriTemplate) (m : Method J H)
    (found : Option (LookupResult J H)) : Prop :=
  ∃ result, found = some result ∧ result.method = m ∧
    ∀ name, result.properties.find name =
      if name ∈ template.varNames then some (values name) else none

section Segments
variable {values : Str → MappedType} {segment : Segment}

theorem instantiate_nonempty (wellFormed : segment.WellFormed) (typed : Typed values segment) :
    instantiate values segment ≠ [] := by
  cases segment with
  | literal text => exact wellFormed.1
  | stringVar name =>
    obtain ⟨text, own, nonempty, -⟩ := typed
    rw [instantiate, own]
    exact nonempty
  | intVar name =>
    obtain ⟨value, own, -⟩ := typed
    rw [instantiate, own]
    exact Decimal.render_ne_nil value

theorem instantiate_slash_free (wellFormed : segment.WellFormed) (typed : Typed values segment) :
    '/' ∉ instantiate values segment := by
  cases segment with
  | literal text => exact wellFormed.2.1
  | stringVar name =>
    obtain ⟨text, own, -, slashFree⟩ := typed
    rw [instantiate, own]
    exact slashFree
  | intVar name =>
    obtain ⟨value, own, -⟩ := typed
    rw [instantiate, own]
    intro member
    rcases Decimal.mem_render member with sign | digit
    · exact absurd sign (by decide)
    · exact absurd digit (by decide)

/-- A segment matches its own instance unless that has a sign. -/
theorem matches_instantiate_iff (typed : Typed values segment) :
    segment.Matches (instantiate values segment) ↔ NonNegative values segment := by
  cases segment with
  | literal text => exact iff_of_true rfl trivial
  | stringVar name => exact iff_of_true trivial trivial
  | intVar name =>
    obtain ⟨value, own, -, fits⟩ := typed
    have unsigned : NonNegative values (.intVar name) ↔ 0 ≤ value := by simp [NonNegative, own]
    rw [unsigned, instantiate, own, ← Decimal.isDigits_render_iff, Segment.Matches, valueText,
      and_iff_left_iff_imp]
    intro digits
    have same := Decimal.value_render ((Decimal.isDigits_render_iff value).mp digits)
    omega

theorem binding_instantiate (typed : Typed values segment) (unsigned : NonNegative values segment) :
    segment.binding (instantiate values segment) =
      segment.varName.map (fun name => (name, values name)) := by
  cases segment with
  | literal text => rfl
  | stringVar name =>
    obtain ⟨text, own, -⟩ := typed
    simp [Segment.binding, Segment.varName, instantiate, own, valueText]
  | intVar name =>
    obtain ⟨value, own, -⟩ := typed
    have same := Decimal.value_render (unsigned value own)
    simp [Segment.binding, Segment.varName, instantiate, own, valueText, same]

end Segments

section Templates
variable {values : Str → MappedType} {template : UriTemplate}

theorem template_matches_iff (typed : ∀ segment ∈ template.segments, Typed values segment) :
    template.Matches (template.segments.map (instantiate values)) ↔
      ∀ segment ∈ template.segments, NonNegative values segment := by
  unfold UriTemplate.Matches
  rw [List.forall₂_map_right_iff, List.forall₂_same]
  exact forall₂_congr (fun segment member => matches_instantiate_iff (typed segment member))

/-- The bindings of an instance are the values of the template's variables. -/
theorem mem_bindings_instantiate (typed : ∀ segment ∈ template.segments, Typed values segment)
    (unsigned : ∀ segment ∈ template.segments, NonNegative values segment) (name : Str)
    (value : MappedType) :
    (name, value) ∈ template.bindings (template.segments.map (instantiate values)) ↔
      name ∈ template.varNames ∧ values name = value := by
  unfold UriTemplate.bindings UriTemplate.varNames
  rw [← List.map_prod_left_eq_zip, List.filterMap_map, List.mem_filterMap, List.mem_filterMap]
  constructor
  · intro ⟨segment, member, bound⟩
    rw [Function.comp_apply, binding_instantiate (typed segment member) (unsigned segment member)]
      at bound
    obtain ⟨own, named, same⟩ := Option.map_eq_some_iff.mp bound
    obtain ⟨rfl, rfl⟩ := Prod.mk.inj same
    exact ⟨⟨segment, member, named⟩, rfl⟩
  · intro ⟨⟨segment, member, named⟩, same⟩
    refine ⟨segment, member, ?_⟩
    rw [Function.comp_apply, binding_instantiate (typed segment member) (unsigned segment member),
      named, ← same]
    rfl

/-- Every spelling of an instance has the instantiated segments as its pieces. -/
theorem pieces_instantiate (typed : ∀ segment ∈ template.segments, Typed values segment)
    {target : Str}
    (spells : Text.Spells '/' (template.segments.map (instantiate values)) target) :
    Text.pieces '/' target = template.segments.map (instantiate values) := by
  refine spells.pieces_eq '/' ?_ ?_
  · intro part member
    obtain ⟨segment, held, rfl⟩ := List.mem_map.mp member
    exact instantiate_nonempty (template.wellFormed segment held) (typed segment held)
  · intro part member
    obtain ⟨segment, held, rfl⟩ := List.mem_map.mp member
    exact instantiate_slash_free (template.wellFormed segment held) (typed segment held)

end Templates

section SingleMethod
variable {m : Method J H} {roots : List (ParsedNode J H)}

/-- In the tree of one method a search ends where no other sibling matches. -/
theorem first_eq_final {verb : Verb} {segments : List Str} (built : Built [m] roots)
    (ending : Ending verb segments roots) : ending.first = ending.final := by
  obtain ⟨member, template, writes, path⟩ := (built.stored _ _).mp ending.method_stored
  obtain ⟨other, otherMember, template', writes', rest, path'⟩ := ending.first_registered built
  rw [List.mem_singleton.mp member] at writes
  rw [List.mem_singleton.mp otherMember] at writes'
  have same : ending.inner.map Branch.key ++ [ending.final.key] =
      ending.inner.map Branch.key ++ ending.first.key :: rest := by
    rw [← path', UriTemplate.path, writes'.unique writes]
    exact path
  have keys := (List.cons.inj (List.append_cancel_left same)).1
  exact (ending.reaches.grown built.grown).eq_of_key ending.first_mem ending.final_mem keys.symm

variable {template : UriTemplate} {values : Str → MappedType}

/-- Without a negative value the method is found with the values as its properties. -/
theorem found_unsigned (built : Built [m] roots) (writes : template.Writes m.uri)
    (distinct : template.varNames.Nodup)
    (typed : ∀ segment ∈ template.segments, Typed values segment)
    (unsigned : ∀ segment ∈ template.segments, NonNegative values segment) :
    FoundWith values template m
      (lookup_helper m.method (template.segments.map (instantiate values)) roots) := by
  have bindings := mem_bindings_instantiate typed unsigned
  have along := (template_matches_iff typed).mpr unsigned
  generalize template.segments.map (instantiate values) = segments at *
  have found := (built.lookup_helper_isSome_iff m.method segments).mpr
    ⟨m, List.mem_singleton_self m, rfl, template, writes, along⟩
  obtain ⟨result, found⟩ := Option.isSome_iff_exists.mp found
  obtain ⟨ending, rfl⟩ := (lookup_helper_eq_some_iff _ _ _ _).mp found
  have own : ending.method = m := List.mem_singleton.mp (ending.method_answers built).1
  have distinctNames : ∀ other ∈ [m], DistinctNames other.uri := by
    intro other member written writes'
    rw [List.mem_singleton.mp member] at writes'
    rwa [UriTemplate.varNames, writes'.unique writes]
  obtain ⟨written, writes', holds⟩ :=
    (ending_bindsOwn_iff built distinctNames ending).mpr (first_eq_final built ending)
  refine ⟨_, found, own, fun name => Option.ext (fun value => ?_)⟩
  rw [own] at writes'
  rw [holds, UriTemplate.bindings, writes'.unique writes, ← UriTemplate.bindings, bindings]
  split <;> simp_all

/-- With one nothing is found. -/
theorem missed_signed (built : Built [m] roots) (writes : template.Writes m.uri)
    (typed : ∀ segment ∈ template.segments, Typed values segment)
    (signed : ¬ ∀ segment ∈ template.segments, NonNegative values segment) :
    lookup_helper m.method (template.segments.map (instantiate values)) roots = none := by
  by_contra found
  rw [← ne_eq, ← Option.isSome_iff_ne_none, built.lookup_helper_isSome_iff] at found
  obtain ⟨other, member, -, written, writes', along⟩ := found
  rw [List.mem_singleton.mp member] at writes'
  unfold UriTemplate.Matches at along
  rw [writes'.unique writes] at along
  exact signed ((template_matches_iff typed).mp along)

end SingleMethod

/-- For an API of one method, every assignment to the variables of its template and
every spelling of the instance: with no negative value the lookup returns the
method with the assignment as its properties, and with one it finds nothing. -/
theorem lookup_instantiated (api : API J H) (fresh : api.roots = []) (m : Method J H)
    (single : api.methods = [m]) (template : UriTemplate) (writes : template.Writes m.uri)
    (distinct : template.varNames.Nodup) :
    ∃ built, api.buildParser = .ok built ∧ ∀ values target,
      (∀ segment ∈ template.segments, Typed values segment) →
      Text.Spells '/' (template.segments.map (instantiate values)) target →
        ((∀ segment ∈ template.segments, NonNegative values segment) →
          FoundWith values template m (built.lookup m.method target)) ∧
        (¬ (∀ segment ∈ template.segments, NonNegative values segment) →
          built.lookup m.method target = none) := by
  have wellFormed : ∀ other ∈ api.methods, WellFormedUri other.uri := by
    rw [single]
    simpa using ⟨template, writes⟩
  obtain ⟨roots, run, built⟩ := api.buildParser_built fresh wellFormed
  rw [single] at built
  refine ⟨{ api with roots := roots }, run, fun values target typed spells => ?_⟩
  rw [API.lookup_eq, pieces_instantiate typed spells]
  exact ⟨found_unsigned built writes distinct typed, missed_signed built writes typed⟩

/-- One method with an int and a string variable. -/
def numberedItem : API Unit Nat where
  methods := [⟨.get, "items/<int:number>/<string:name>".toList, [], (), (), [], 1⟩]

def numberedTemplate : UriTemplate where
  segments := [.literal "items".toList, .intVar "number".toList, .stringVar "name".toList]
  nonempty := by decide
  wellFormed := by decide

def numberedValues (number : Int) (name : Str) : MappedType :=
  if name = "number".toList then .int number else .string "x".toList

theorem numberedValues_typed (number : Int) (low : -2147483648 ≤ number)
    (high : number ≤ 2147483647) :
    ∀ segment ∈ numberedTemplate.segments, Typed (numberedValues number) segment := by
  intro segment member
  simp only [numberedTemplate, List.mem_cons, List.not_mem_nil, or_false] at member
  rcases member with rfl | rfl | rfl
  · trivial
  · exact ⟨number, rfl, low, high⟩
  · exact ⟨"x".toList, rfl, by decide, by decide⟩

theorem numbered_spells (number : Int) :
    Text.Spells '/' (numberedTemplate.segments.map (instantiate (numberedValues number)))
      ("/items".toList ++ ("//".toList ++ Decimal.render number ++ "/x//".toList)) :=
  .part 1 (.part 2 (.part 1 (.none 2) (Or.inl rfl)) (Or.inr rfl)) (Or.inr rfl)

/-- `//42/` in between, and two slashes behind. -/
theorem numberedItem_found : ∃ built, numberedItem.buildParser = .ok built ∧
    FoundWith (numberedValues 42) numberedTemplate
      ⟨.get, "items/<int:number>/<string:name>".toList, [], (), (), [], 1⟩
      (built.lookup .get "/items//42/x//".toList) := by
  obtain ⟨built, run, law⟩ := lookup_instantiated numberedItem rfl _ rfl numberedTemplate
    (Or.inl (by decide)) (by decide)
  refine ⟨built, run, (law (numberedValues 42) _ (numberedValues_typed 42 (by decide) (by decide))
    (numbered_spells 42)).1 ?_⟩
  intro segment member
  simp only [numberedTemplate, List.mem_cons, List.not_mem_nil, or_false] at member
  rcases member with rfl | rfl | rfl
  · trivial
  · intro value own
    cases own
    decide
  · trivial

/-- An instance with `-5` is a spelling of the template, and no method is found. -/
theorem negative_value_is_unrouted :
    (∀ segment ∈ numberedTemplate.segments, Typed (numberedValues (-5)) segment) ∧
    numberedTemplate.Writes "items/<int:number>/<string:name>".toList ∧
    numberedTemplate.varNames.Nodup ∧
    Text.Spells '/' (numberedTemplate.segments.map (instantiate (numberedValues (-5))))
      "/items//-5/x//".toList ∧
    ∃ built, numberedItem.buildParser = .ok built ∧
      built.lookup .get "/items//-5/x//".toList = none := by
  refine ⟨numberedValues_typed (-5) (by decide) (by decide), Or.inl (by decide), by decide,
    numbered_spells (-5), _, rfl, by decide +kernel⟩

end Restio.Guarantees.Instantiation
