import Restio.Source.UriParser

/-!
# What the URI parser accepts

A segment that starts with `<` loses its first and its last character before it is
split at `:`. Everything else about it is asserted, but not that the last one is
`>`: `<string:idX` is accepted and stands for the same variable as `<string:id>`
(`unclosed_bracket_is_accepted`). A string passes all assertions with segments of
the grammar, and is recovered from its node path, exactly when it has no such
segment (`grammar_kept_iff`).
-/

set_option autoImplicit false

namespace Restio.Guarantees.TemplateGrammar
open Restio.Lib Restio.Source.Http Restio.Source.ApiMapper Restio.Spec

/-- A node key as text. -/
def renderKey (key : NodeKey) : Str :=
  match key.type with
  | .ConstString => key.id
  | .VarString => Segment.bracket "string".toList key.id
  | .Integer => Segment.bracket "int".toList key.id

def renderPath (path : List NodeKey) : Str := ['/'].intercalate (path.map renderKey)

/-- Equal up to one trailing slash. -/
def SlashEq (left right : Str) : Prop :=
  left = right ∨ left = right ++ ['/'] ∨ right = left ++ ['/']

/-- `'<' type ':' name '>'`. -/
def VariableForm (s : Str) : Prop :=
  ∃ kind name, (kind = "string".toList ∨ kind = "int".toList) ∧ name ≠ [] ∧
    s = '<' :: kind ++ ':' :: name ++ ['>']

/-- The string is accepted as an expression of the grammar only, and then its path
renders to it. -/
structure KeepsGrammar (uri : Str) : Prop where
  accepts : WellFormedUri uri → ∃ path, parsedPath uri = .ok path
  form : ∀ path, parsedPath uri = .ok path →
    ∀ s ∈ splitUri uri, s.head? = some '<' → VariableForm s
  rendered : ∀ path, parsedPath uri = .ok path →
    uri = renderPath path ∨ uri = renderPath path ++ ['/']

/-- Accepted strings with the same path differ by a trailing slash at most. -/
def PathsApart (uri other : Str) : Prop :=
  ∀ path, parsedPath uri = .ok path → parsedPath other = .ok path → SlashEq uri other

/-- The string fails an assertion, or all its segments that start with `<` end
with `>`. -/
def Closed (uri : Str) : Prop :=
  FailsAssertion uri ∨ ∀ s ∈ splitUri uri, s.head? = some '<' → s.getLast? = some '>'

theorem renderKey_key (segment : Segment) : renderKey segment.key = segment.render := by
  cases segment <;> rfl

theorem renderPath_path (template : UriTemplate) : renderPath template.path = template.render := by
  unfold renderPath UriTemplate.path UriTemplate.render
  rw [List.map_map]
  congr 2
  funext segment
  exact renderKey_key segment

/-- An accepted segment that ends with `>` if it starts with `<` is one of the
grammar. -/
theorem segment_of_newNode {s : Str} {key : NodeKey} (accepted : newNode s = .ok key)
    (slashFree : '/' ∉ s) (closed : s.head? = some '<' → s.getLast? = some '>') :
    ∃ segment : Segment, segment.WellFormed ∧ segment.render = s ∧ segment.key = key := by
  rcases newNode_cases s with failed | ⟨nonempty, literal, parsed⟩ |
    ⟨kind, name, c, rfl, some_name, plain, sort⟩
  · cases failed.symm.trans accepted
  · have key_eq := Except.ok.inj (parsed.symm.trans accepted)
    exact ⟨.literal s, ⟨nonempty, slashFree, literal⟩, rfl, key_eq⟩
  · have last : c = '>' := Option.some.inj (List.getLast?_concat.symm.trans (closed rfl))
    subst last
    have nameFree : '/' ∉ name := by
      intro member
      exact slashFree (by simp [member])
    rcases sort with ⟨rfl, parsed⟩ | ⟨rfl, parsed⟩
    · have key_eq := Except.ok.inj (parsed.symm.trans accepted)
      exact ⟨.stringVar name, ⟨some_name, plain, nameFree⟩, rfl, key_eq⟩
    · have key_eq := Except.ok.inj (parsed.symm.trans accepted)
      exact ⟨.intVar name, ⟨some_name, plain, nameFree⟩, rfl, key_eq⟩

/-- Accepted segments of this kind make up a template. -/
theorem segments_of_parts {parts : List Str} {path : List NodeKey}
    (accepted : List.Forall₂ (fun s key => newNode s = .ok key) parts path)
    (slashFree : ∀ s ∈ parts, '/' ∉ s)
    (closed : ∀ s ∈ parts, s.head? = some '<' → s.getLast? = some '>') :
    ∃ segments : List Segment, (∀ segment ∈ segments, segment.WellFormed) ∧
      segments.map Segment.render = parts ∧ segments.map Segment.key = path := by
  induction accepted with
  | nil => exact ⟨[], by simp, rfl, rfl⟩
  | cons first _ ih =>
    obtain ⟨free, othersFree⟩ := List.forall_mem_cons.mp slashFree
    obtain ⟨own, othersClosed⟩ := List.forall_mem_cons.mp closed
    obtain ⟨segment, wellFormed, rfl, rfl⟩ := segment_of_newNode first free own
    obtain ⟨segments, others, rfl, rfl⟩ := ih othersFree othersClosed
    exact ⟨segment :: segments, List.forall_mem_cons.mpr ⟨wellFormed, others⟩, rfl, rfl⟩

theorem slash_not_mem_of_mem_splitUri {uri s : Str} (member : s ∈ splitUri uri) : '/' ∉ s := by
  have part : s ∈ uri.splitOn '/' := by
    unfold splitUri at member
    simp only at member
    split at member
    · exact List.dropLast_subset _ member
    · exact member
  exact Text.sep_not_mem_of_mem_splitOn '/' part

/-- An accepted string whose variables are closed is written by the template of its
path. -/
theorem template_of_parsed {uri : Str} {path : List NodeKey} (parsed : parsedPath uri = .ok path)
    (nonempty : uri ≠ [])
    (closed : ∀ s ∈ splitUri uri, s.head? = some '<' → s.getLast? = some '>') :
    ∃ template : UriTemplate, template.Writes uri ∧ template.path = path := by
  obtain ⟨some_part, whole⟩ := intercalate_splitUri nonempty
  obtain ⟨segments, wellFormed, rendered, keys⟩ :=
    segments_of_parts ((Checked.mapM_eq_ok_iff _ _).mp parsed)
      (fun s member => slash_not_mem_of_mem_splitUri member) closed
  have some_segment : segments ≠ [] := by
    rintro rfl
    exact some_part rendered.symm
  refine ⟨⟨segments, some_segment, wellFormed⟩, ?_, keys⟩
  rw [← rendered] at whole
  exact whole

theorem rendered_of_closed {uri : Str} {path : List NodeKey} (parsed : parsedPath uri = .ok path)
    (closed : ∀ s ∈ splitUri uri, s.head? = some '<' → s.getLast? = some '>') :
    uri = renderPath path ∨ uri = renderPath path ++ ['/'] := by
  by_cases empty : uri = []
  · subst empty
    obtain rfl : path = [] := (Except.ok.inj parsed).symm
    exact Or.inl rfl
  · obtain ⟨template, writes, rfl⟩ := template_of_parsed parsed empty closed
    rw [renderPath_path]
    exact writes

/-- The condition is what the grammar needs. -/
theorem keepsGrammar_iff (uri : Str) : KeepsGrammar uri ↔ Closed uri := by
  constructor
  · intro keeps
    cases parsed : parsedPath uri with
    | error fault =>
      obtain rfl := parsedPath_error parsed
      exact Or.inl parsed
    | ok path =>
      refine Or.inr ?_
      intro s member opens
      obtain ⟨kind, name, -, -, rfl⟩ := keeps.form path parsed s member opens
      exact List.getLast?_concat
  · intro condition
    have closed : ∀ path, parsedPath uri = .ok path →
        ∀ s ∈ splitUri uri, s.head? = some '<' → s.getLast? = some '>' := by
      intro path parsed
      rcases condition with failed | closed
      · cases failed.symm.trans parsed
      · exact closed
    refine ⟨?_, ?_, ?_⟩
    · intro ⟨template, writes⟩
      exact ⟨template.path, writes.parsed⟩
    · intro path parsed s member opens
      obtain ⟨key, accepted⟩ := Checked.mapM_ok_of_mem parsed member
      obtain ⟨segment, wellFormed, rendered, -⟩ := segment_of_newNode accepted
        (slash_not_mem_of_mem_splitUri member) (closed path parsed s member)
      subst rendered
      cases segment with
      | literal text => exact absurd opens wellFormed.2.2
      | stringVar name => exact ⟨"string".toList, name, Or.inl rfl, wellFormed.1, rfl⟩
      | intVar name => exact ⟨"int".toList, name, Or.inr rfl, wellFormed.1, rfl⟩
    · intro path parsed
      exact rendered_of_closed parsed (closed path parsed)

/-- For every two strings: both are parsed by the grammar only, are recovered from
their paths and share no path, unless they differ by a trailing slash, if and only
if each fails an assertion or closes all its brackets. -/
theorem grammar_kept_iff (uri other : Str) :
    KeepsGrammar uri ∧ KeepsGrammar other ∧ PathsApart uri other ↔ Closed uri ∧ Closed other := by
  constructor
  · intro ⟨keeps, keeps', _⟩
    exact ⟨(keepsGrammar_iff uri).mp keeps, (keepsGrammar_iff other).mp keeps'⟩
  · intro ⟨closed, closed'⟩
    have keeps := (keepsGrammar_iff uri).mpr closed
    have keeps' := (keepsGrammar_iff other).mpr closed'
    refine ⟨keeps, keeps', ?_⟩
    intro path parsed parsed'
    unfold SlashEq
    rcases keeps.rendered path parsed with same | longer <;>
      rcases keeps'.rendered path parsed' with same' | longer'
    · exact Or.inl (same.trans same'.symm)
    · exact Or.inr (Or.inr (by rw [longer', ← same]))
    · exact Or.inr (Or.inl (by rw [longer, ← same']))
    · exact Or.inl (longer.trans longer'.symm)

/-- A variable without its closing bracket is accepted under a shorter name, and
shares its node with the well-formed one. -/
theorem unclosed_bracket_is_accepted :
    parsedPath "<string:idX".toList = .ok [⟨.VarString, "id".toList⟩] ∧
      ¬ KeepsGrammar "<string:idX".toList ∧
      ¬ PathsApart "<string:idX".toList "<string:id>".toList := by
  have parsed : parsedPath "<string:idX".toList = .ok [⟨.VarString, "id".toList⟩] := rfl
  refine ⟨parsed, ?_, ?_⟩
  · intro keeps
    rcases keeps.rendered _ parsed with same | longer
    · exact absurd same (by decide)
    · exact absurd longer (by decide)
  · intro apart
    have same := apart _ parsed rfl
    revert same
    unfold SlashEq
    decide

end Restio.Guarantees.TemplateGrammar
