import Restio.Spec.UriTemplate

/-!
# Variable bindings along a path

The properties that `lookup_helper` fills while its recursion unwinds, read back
by name: the first node of the path that carries the name decides. On the path of
a template with no name twice these are the template's own bindings
(`mem_bindings_iff`).
-/

set_option autoImplicit false

namespace Restio.Source.ApiMapper
open Restio.Lib Restio.Source.Http Restio.Spec

/-- The name of a variable node. -/
def NodeKey.varName (key : NodeKey) : Option Str :=
  match key.type with
  | .ConstString => none
  | .VarString | .Integer => some key.id

/-- The value a node gives to its own variable. -/
def boundValue (key : NodeKey) (view : Str) : Option MappedType :=
  match key.type with
  | .Integer => some (.int ((numericValue view).getD 0))
  | .VarString => some (.string view)
  | .ConstString => none

/-- The value a node binds to a name. -/
def boundBy (key : NodeKey) (view : Str) (name : Str) : Option MappedType :=
  if name = key.id then boundValue key view else none

/-- The bindings written while the recursion unwinds, the outermost last. -/
def bindAll : List NodeKey → List Str → Properties → Properties
  | key :: keys, view :: views, properties =>
      bindVariable key view (bindAll keys views properties)
  | _, _, properties => properties

theorem find_bindVariable (key : NodeKey) (view : Str) (properties : Properties) (name : Str) :
    (bindVariable key view properties).find name =
      (boundBy key view name).or (properties.find name) := by
  unfold bindVariable boundBy boundValue
  cases key.type <;> by_cases same : name = key.id <;> simp [same, FiniteMap.find_insert]

theorem bindVariable_sorted (key : NodeKey) (view : Str) {properties : Properties}
    (sorted : properties.Sorted) : (bindVariable key view properties).Sorted := by
  unfold bindVariable
  cases key.type with
  | ConstString => exact sorted
  | VarString => exact sorted.insert _ _
  | Integer => exact sorted.insert _ _

theorem bindAll_sorted (keys : List NodeKey) (views : List Str) {properties : Properties}
    (sorted : properties.Sorted) : (bindAll keys views properties).Sorted := by
  fun_induction bindAll keys views properties with
  | case1 key keys view views properties ih => exact bindVariable_sorted key view (ih sorted)
  | case2 => exact sorted

/-- The value bound to a name along a path: that of the first node with the name. -/
def boundAlong (keys : List NodeKey) (views : List Str) (name : Str) : Option MappedType :=
  (keys.zip views).findSome? (fun pair => boundBy pair.1 pair.2 name)

theorem boundAlong_cons (key : NodeKey) (keys : List NodeKey) (view : Str) (views : List Str)
    (name : Str) :
    boundAlong (key :: keys) (view :: views) name =
      (boundBy key view name).or (boundAlong keys views name) := by
  unfold boundAlong
  rw [List.zip_cons_cons, List.findSome?_cons]
  cases boundBy key view name <;> rfl

theorem boundAlong_concat {keys : List NodeKey} {views : List Str}
    (same : keys.length = views.length) (key : NodeKey) (view : Str) (name : Str) :
    boundAlong (keys ++ [key]) (views ++ [view]) name =
      (boundAlong keys views name).or (boundBy key view name) := by
  unfold boundAlong
  rw [List.zip_append same, List.findSome?_append]
  cases found : boundBy key view name <;> simp [found]

theorem find_bindAll (keys : List NodeKey) (views : List Str) (properties : Properties)
    (name : Str) :
    (bindAll keys views properties).find name =
      (boundAlong keys views name).or (properties.find name) := by
  fun_induction bindAll keys views properties with
  | case1 key keys view views properties ih =>
    rw [find_bindVariable, ih, boundAlong_cons, Option.or_assoc]
  | case2 keys views properties short =>
    have nothing : keys.zip views = [] := by
      cases keys with
      | nil => rfl
      | cons key keys =>
        cases views with
        | nil => rfl
        | cons view views => exact absurd rfl (short key keys view views rfl)
    simp [boundAlong, nothing]

/-- Only a variable node binds, and only its own name. -/
theorem varName_of_boundBy {key : NodeKey} {view name : Str} {value : MappedType}
    (bound : boundBy key view name = some value) : key.varName = some name := by
  unfold boundBy at bound
  split at bound
  · rename_i same
    subst same
    unfold boundValue at bound
    unfold NodeKey.varName
    cases kind : key.type <;> simp [kind] at bound ⊢
  · cases bound

theorem mem_varNames_of_boundAlong {keys : List NodeKey} {views : List Str} {name : Str}
    {value : MappedType} (bound : boundAlong keys views name = some value) :
    name ∈ keys.filterMap NodeKey.varName := by
  obtain ⟨⟨key, view⟩, member, own⟩ := List.exists_of_findSome?_eq_some bound
  exact List.mem_filterMap.mpr ⟨key, (List.of_mem_zip member).1, varName_of_boundBy own⟩

/-- A variable node binds its name to any segment. -/
theorem boundBy_isSome {key : NodeKey} {name : Str} (named : key.varName = some name)
    (view : Str) : (boundBy key view name).isSome := by
  unfold NodeKey.varName at named
  unfold boundBy boundValue
  cases kind : key.type <;> simp_all

theorem boundAlong_isSome {keys : List NodeKey} {views : List Str}
    (same : keys.length = views.length) {name : Str}
    (named : name ∈ keys.filterMap NodeKey.varName) : (boundAlong keys views name).isSome := by
  induction keys generalizing views with
  | nil => simp at named
  | cons key keys ih =>
    obtain ⟨view, views, rfl⟩ : ∃ view rest, views = view :: rest :=
      List.exists_cons_of_ne_nil (by rintro rfl; simp at same)
    rw [boundAlong_cons, Option.isSome_or, Bool.or_eq_true]
    obtain ⟨other, member, own⟩ := List.mem_filterMap.mp named
    rcases List.mem_cons.mp member with rfl | deeper
    · exact Or.inl (boundBy_isSome own view)
    · exact Or.inr (ih (by simpa using same) (List.mem_filterMap.mpr ⟨other, deeper, own⟩))

/-- Different segments, one of them not numeric, give a name different values. -/
theorem boundBy_apart {key other : NodeKey} {view view' name : Str} {value : MappedType}
    (different : view ≠ view') (text : numericValue view' = none)
    (matched : nodeMatch other view' = true) (bound : boundBy key view name = some value) :
    boundBy other view' name ≠ some value := by
  intro bound'
  have own : boundValue key view = some value := by
    unfold boundBy at bound
    split at bound
    · exact bound
    · cases bound
  have own' : boundValue other view' = some value := by
    unfold boundBy at bound'
    split at bound'
    · exact bound'
    · cases bound'
  unfold boundValue at own own'
  unfold nodeMatch at matched
  cases kind' : other.type with
  | ConstString => simp [kind'] at own'
  | Integer => simp [kind', text] at matched
  | VarString =>
    rw [kind'] at own'
    cases kind : key.type with
    | ConstString => simp [kind] at own
    | Integer =>
      rw [kind] at own
      cases own.trans own'.symm
    | VarString =>
      rw [kind] at own
      exact different (MappedType.string.inj (Option.some.inj (own.trans own'.symm)))

/-- Nodes that match a segment and bind the same from it are the same node. -/
theorem eq_of_boundBy {key other : NodeKey} {view : Str} (matched : nodeMatch key view = true)
    (matched' : nodeMatch other view = true)
    (same : ∀ name, boundBy key view name = boundBy other view name) : key = other := by
  have atKey := same key.id
  have atOther := same other.id
  unfold boundBy boundValue at atKey atOther
  unfold nodeMatch at matched matched'
  obtain ⟨type, id⟩ := key
  obtain ⟨type', id'⟩ := other
  cases type <;> cases type' <;> simp_all

theorem varName_key (segment : Segment) : segment.key.varName = segment.varName := by
  cases segment <;> rfl

/-- A matching segment binds what its node does. -/
theorem binding_eq {segment : Segment} {view : Str} (matched : segment.Matches view)
    (name : Str) (value : MappedType) :
    segment.binding view = some (name, value) ↔ boundBy segment.key view name = some value := by
  cases segment with
  | literal text => by_cases same : name = text <;>
      simp [Segment.binding, boundBy, boundValue, Segment.key, same]
  | stringVar id =>
    by_cases same : name = id <;> simp [Segment.binding, boundBy, boundValue, Segment.key, same]
    exact fun isId => absurd isId.symm same
  | intVar id =>
    have numeric : numericValue view = some ((Decimal.value view : Nat) : Int) :=
      (numericValue_eq_some_iff view _).mpr ⟨matched.1, matched.2, rfl⟩
    by_cases same : name = id <;>
      simp [Segment.binding, boundBy, boundValue, Segment.key, same, numeric]
    exact fun isId => absurd isId.symm same

theorem nodup_varNames_rest {segment : Segment} {segments : List Segment}
    (distinct : ((segment :: segments).filterMap Segment.varName).Nodup) :
    (segments.filterMap Segment.varName).Nodup := by
  rw [List.filterMap_cons] at distinct
  cases named : segment.varName with
  | none => simpa [named] using distinct
  | some id =>
    rw [named] at distinct
    exact (List.nodup_cons.mp distinct).2

/-- A name that is bound further along is not the first segment's own. -/
theorem boundBy_of_bound_behind {segment : Segment} {segments : List Segment}
    (distinct : ((segment :: segments).filterMap Segment.varName).Nodup) {views : List Str}
    {name : Str} {value : MappedType}
    (deeper : boundAlong (segments.map Segment.key) views name = some value) (view : Str) :
    boundBy segment.key view name = none := by
  by_contra own
  obtain ⟨other, own⟩ := Option.ne_none_iff_exists'.mp own
  have named : segment.varName = some name :=
    (varName_key segment).symm.trans (varName_of_boundBy own)
  rw [List.filterMap_cons, named] at distinct
  have again := mem_varNames_of_boundAlong deeper
  rw [List.filterMap_map, Function.comp_def] at again
  simp only [varName_key] at again
  exact (List.nodup_cons.mp distinct).1 again

/-- With no variable name twice, the template's bindings are what is bound along
its path. -/
theorem mem_bindings_iff {template : UriTemplate} {views : List Str}
    (matched : template.Matches views) (distinct : template.varNames.Nodup) (name : Str)
    (value : MappedType) :
    (name, value) ∈ template.bindings views ↔
      boundAlong template.path views name = some value := by
  obtain ⟨segments, nonempty, wellFormed⟩ := template
  simp only [UriTemplate.Matches, UriTemplate.varNames, UriTemplate.bindings, UriTemplate.path]
    at matched distinct ⊢
  clear nonempty wellFormed
  induction matched with
  | nil => simp [boundAlong]
  | @cons segment view segments views first along ih =>
    have member : (name, value) ∈ ((segment :: segments).zip (view :: views)).filterMap
          (fun pair => pair.1.binding pair.2) ↔
        segment.binding view = some (name, value) ∨
          boundAlong (segments.map Segment.key) views name = some value := by
      rw [← ih (nodup_varNames_rest distinct)]
      simp [List.filterMap_cons]
      cases segment.binding view <;> simp [eq_comm]
    rw [member, List.map_cons, boundAlong_cons, Option.or_eq_some_iff,
      binding_eq first]
    constructor
    · intro bound
      rcases bound with own | deeper
      · exact Or.inl own
      · exact Or.inr ⟨boundBy_of_bound_behind distinct deeper view, deeper⟩
    · intro bound
      rcases bound with own | ⟨-, deeper⟩
      · exact Or.inl own
      · exact Or.inr deeper

end Restio.Source.ApiMapper
