import Restio.Source.ApiMapper

/-!
# URI templates

What a method's URI is meant to say, independent of the tree: a sequence of
segments, each a literal text, a string variable or an int variable. A template
is written as its segments joined by `/`, with at most one `/` behind the last;
it matches a sequence of target segments one by one and binds its variables to
the segments at their positions.

The last part ties the grammar to the parser: a written template is split and
parsed into the keys of its segments (`Writes.parsed`), and `nodeMatch` decides
`Segment.Matches`.
-/

set_option autoImplicit false

namespace Restio.Spec
open Restio.Lib Restio.Source.Http Restio.Source.ApiMapper

inductive Segment where
  | literal (text : Str)
  | stringVar (name : Str)
  | intVar (name : Str)
  deriving DecidableEq, Repr

namespace Segment

def WellFormed : Segment → Prop
  | literal text => text ≠ [] ∧ '/' ∉ text ∧ text.head? ≠ some '<'
  | stringVar name | intVar name => name ≠ [] ∧ ':' ∉ name ∧ '/' ∉ name

instance : DecidablePred WellFormed
  | literal text =>
      inferInstanceAs (Decidable (text ≠ [] ∧ '/' ∉ text ∧ text.head? ≠ some '<'))
  | stringVar name | intVar name =>
      inferInstanceAs (Decidable (name ≠ [] ∧ ':' ∉ name ∧ '/' ∉ name))

def bracket (kind name : Str) : Str := '<' :: kind ++ ':' :: name ++ ['>']

def render : Segment → Str
  | literal text => text
  | stringVar name => bracket "string".toList name
  | intVar name => bracket "int".toList name

/-- An int variable takes decimal digits with a value up to INT_MAX. -/
def Matches : Segment → Str → Prop
  | literal text, segment => segment = text
  | stringVar _, _ => True
  | intVar _, segment => Decimal.isDigits segment = true ∧ Decimal.value segment ≤ 2147483647

/-- The variable's name and the value a target segment gives it. -/
def binding : Segment → Str → Option (Str × MappedType)
  | literal _, _ => none
  | stringVar name, segment => some (name, .string segment)
  | intVar name, segment => some (name, .int (Decimal.value segment))

def varName : Segment → Option Str
  | literal _ => none
  | stringVar name | intVar name => some name

/-- The node key the segment stands for. -/
def key : Segment → NodeKey
  | literal text => ⟨.ConstString, text⟩
  | stringVar name => ⟨.VarString, name⟩
  | intVar name => ⟨.Integer, name⟩

end Segment

structure UriTemplate where
  segments : List Segment
  nonempty : segments ≠ []
  wellFormed : ∀ segment ∈ segments, segment.WellFormed

namespace UriTemplate

def render (template : UriTemplate) : Str :=
  ['/'].intercalate (template.segments.map Segment.render)

/-- The URI is the template's text, up to one trailing slash. -/
def Writes (template : UriTemplate) (uri : Str) : Prop :=
  uri = template.render ∨ uri = template.render ++ ['/']

def Matches (template : UriTemplate) (segments : List Str) : Prop :=
  List.Forall₂ Segment.Matches template.segments segments

def bindings (template : UriTemplate) (segments : List Str) : List (Str × MappedType) :=
  (template.segments.zip segments).filterMap (fun pair => pair.1.binding pair.2)

def varNames (template : UriTemplate) : List Str :=
  template.segments.filterMap Segment.varName

/-- The path of node keys a method with this template is stored at. -/
def path (template : UriTemplate) : List NodeKey := template.segments.map Segment.key

end UriTemplate

def WellFormedUri (uri : Str) : Prop := ∃ template : UriTemplate, template.Writes uri

/-- No variable name occurs twice in the URI's template. -/
def DistinctNames (uri : Str) : Prop :=
  ∀ template : UriTemplate, template.Writes uri → template.varNames.Nodup

/-- The method has the verb and a template that matches the segments. -/
def Answers {J H : Type} (m : Method J H) (verb : Verb) (segments : List Str) : Prop :=
  m.method = verb ∧ ∃ template : UriTemplate, template.Writes m.uri ∧ template.Matches segments

section Parser

theorem Segment.key_injective : Function.Injective Segment.key := by
  intro left right same
  cases left <;> cases right <;> simp_all [Segment.key]

theorem Segment.WellFormed.render_ne_nil {segment : Segment} (wellFormed : segment.WellFormed) :
    segment.render ≠ [] := by
  cases segment with
  | literal text => exact wellFormed.1
  | stringVar name => exact List.cons_ne_nil _ _
  | intVar name => exact List.cons_ne_nil _ _

theorem Segment.WellFormed.slash_free {segment : Segment} (wellFormed : segment.WellFormed) :
    '/' ∉ segment.render := by
  cases segment with
  | literal text => exact wellFormed.2.1
  | stringVar name => simp [Segment.render, Segment.bracket, wellFormed.2.2]
  | intVar name => simp [Segment.render, Segment.bracket, wellFormed.2.2]

/-- The cut of `newNode` is what lies between the first and the last character. -/
theorem cut_inner (first last : Char) (inner : Str) :
    ((first :: inner ++ [last]).drop 1).take ((first :: inner ++ [last]).length - 2) = inner := by
  have bound : (first :: inner ++ [last]).length - 2 = inner.length := by simp
  rw [bound]
  exact List.take_left

theorem splitOn_colon {kind name : Str} (kindFree : ':' ∉ kind) (nameFree : ':' ∉ name) :
    (kind ++ ':' :: name).splitOn ':' = [kind, name] := by
  have joined : kind ++ ':' :: name = [':'].intercalate [kind, name] := by simp
  rw [joined, List.splitOn_intercalate ':' (by simp [kindFree, nameFree]) (by simp)]

/-- A variable with a known kind passes all assertions. -/
theorem newNode_bracket {kind name : Str} (kindFree : ':' ∉ kind) (nameFree : ':' ∉ name)
    (kindNonempty : kind ≠ []) (nameNonempty : name ≠ []) :
    newNode (Segment.bracket kind name) =
      if kind = "string".toList then .ok ⟨.VarString, name⟩
      else if kind = "int".toList then .ok ⟨.Integer, name⟩
      else .error .assertion := by
  have long : ¬ (Segment.bracket kind name).length ≤ 2 := by
    have positive := List.length_pos_iff.mpr nameNonempty
    simp only [Segment.bracket, List.length_append, List.length_cons, List.length_nil]
    omega
  have opens : (Segment.bracket kind name).head? = some '<' := rfl
  have cut : ((Segment.bracket kind name).drop 1).take ((Segment.bracket kind name).length - 2) =
      kind ++ ':' :: name := cut_inner '<' '>' (kind ++ ':' :: name)
  unfold newNode
  rw [if_neg (by omega), if_pos opens, if_neg long, cut, splitOn_colon kindFree nameFree]
  simp only [List.length_eq_zero_iff, kindNonempty, nameNonempty, or_self, if_false]

theorem newNode_render {segment : Segment} (wellFormed : segment.WellFormed) :
    newNode segment.render = .ok segment.key := by
  cases segment with
  | literal text =>
    obtain ⟨nonempty, -, first⟩ := wellFormed
    unfold newNode
    rw [Segment.render, if_neg (by simpa using nonempty), if_neg first]
    rfl
  | stringVar name =>
    rw [Segment.render, newNode_bracket (by decide) wellFormed.2.1 (by decide) wellFormed.1,
      if_pos rfl]
    rfl
  | intVar name =>
    rw [Segment.render, newNode_bracket (by decide) wellFormed.2.1 (by decide) wellFormed.1,
      if_neg (by decide), if_pos rfl]
    rfl

theorem UriTemplate.Writes.splitUri_eq {template : UriTemplate} {uri : Str}
    (writes : template.Writes uri) : splitUri uri = template.segments.map Segment.render := by
  have slashFree : ∀ part ∈ template.segments.map Segment.render, '/' ∉ part := by
    intro part member
    obtain ⟨segment, held, rfl⟩ := List.mem_map.mp member
    exact (template.wellFormed segment held).slash_free
  have nonempty : template.segments.map Segment.render ≠ [] := by simpa using template.nonempty
  have lastNonempty : (template.segments.map Segment.render).getLast? ≠ some [] := by
    intro last
    obtain ⟨segment, held, empty⟩ := List.mem_map.mp (List.mem_of_getLast? last)
    exact (template.wellFormed segment held).render_ne_nil empty
  unfold splitUri
  rcases writes with rfl | rfl
  · rw [UriTemplate.render, List.splitOn_intercalate '/' slashFree nonempty]
    exact if_neg lastNonempty
  · have trailing : template.render ++ ['/'] =
        ['/'].intercalate (template.segments.map Segment.render ++ [[]]) := by
      rw [UriTemplate.render, Text.intercalate_concat '/' nonempty]
    have slashFree' : ∀ part ∈ template.segments.map Segment.render ++ [[]], '/' ∉ part := by
      intro part member
      rcases List.mem_append.mp member with inside | last
      · exact slashFree part inside
      · simp [List.mem_singleton.mp last]
    rw [trailing, List.splitOn_intercalate '/' slashFree' (by simp)]
    simp

/-- A written template is parsed into the keys of its segments. -/
theorem UriTemplate.Writes.parsed {template : UriTemplate} {uri : Str}
    (writes : template.Writes uri) : (splitUri uri).mapM newNode = .ok template.path := by
  have keys : ∀ segments : List Segment, (∀ segment ∈ segments, segment.WellFormed) →
      (segments.map Segment.render).mapM newNode = .ok (segments.map Segment.key) := by
    intro segments wellFormed
    induction segments with
    | nil => rfl
    | cons segment rest ih =>
      obtain ⟨first, others⟩ := List.forall_mem_cons.mp wellFormed
      rw [List.map_cons, List.mapM_cons, newNode_render first, ih others]
      rfl
  rw [writes.splitUri_eq]
  exact keys template.segments template.wellFormed

/-- A URI is written by one template only. -/
theorem UriTemplate.Writes.unique {template other : UriTemplate} {uri : Str}
    (writes : template.Writes uri) (writes' : other.Writes uri) :
    template.segments = other.segments := by
  have same := writes.parsed.symm.trans writes'.parsed
  exact List.map_injective_iff.mpr Segment.key_injective (Except.ok.inj same)

theorem UriTemplate.path_ne_nil (template : UriTemplate) : template.path ≠ [] := by
  simpa [UriTemplate.path] using template.nonempty

end Parser

section Matching

/-- `numericValue` accepts digits with a value up to INT_MAX and yields the value. -/
theorem numericValue_eq_some_iff (view : Str) (value : Int) :
    numericValue view = some value ↔
      Decimal.isDigits view = true ∧ Decimal.value view ≤ 2147483647 ∧
        value = Decimal.value view := by
  unfold numericValue lexicalCastInt Decimal.isDigits
  cases view with
  | nil => simp
  | cons c rest =>
    by_cases digit : c.isDigit = true
    · simp only [List.head?_cons, Option.any_some, digit, if_true, List.all_cons, Bool.true_and,
        List.isEmpty_cons, Bool.not_false]
      cases digits : rest.all Char.isDigit <;>
        by_cases fits : Decimal.value (c :: rest) ≤ 2147483647 <;> simp [fits, eq_comm]
    · simp [digit]

/-- The node test of the lookup decides whether the segment matches. -/
theorem nodeMatch_key_iff (segment : Segment) (view : Str) :
    nodeMatch segment.key view = true ↔ segment.Matches view := by
  cases segment with
  | literal text =>
    simp only [nodeMatch, Segment.key, Segment.Matches, beq_iff_eq]
    exact eq_comm
  | stringVar name => simp [nodeMatch, Segment.key, Segment.Matches]
  | intVar name =>
    simp [nodeMatch, Segment.key, Segment.Matches, Option.isSome_iff_exists,
      numericValue_eq_some_iff]

theorem UriTemplate.matches_iff (template : UriTemplate) {segments : List Str} :
    template.Matches segments ↔
      List.Forall₂ (fun key view => nodeMatch key view = true) template.path segments := by
  simp only [UriTemplate.Matches, UriTemplate.path, List.forall₂_map_left_iff, nodeMatch_key_iff]

end Matching
end Restio.Spec
