import Restio.Lib.Checked
import Restio.Spec.UriTemplate

/-!
# The parser of URIs on arbitrary strings

`parsedPath` is what `buildParser` makes of a URI before it touches the tree. It
fails by an assertion only (`parsedPath_error`), and of all strings only the empty
one has no parts (`parsedPath_eq_nil_iff`). The tree of any list of URIs stores at
each path the methods parsed to it, in their order (`StoredInOrder`), as long as
the parts of none are missing.

Whatever tree the runs start from, they put each method at the path of its URI and
nothing anywhere else (`foldlM_addMethod_placed`).
-/

set_option autoImplicit false

namespace Restio.Source.ApiMapper
open Restio.Lib Restio.Source.Http Restio.Spec

variable {J H : Type}

/-- The node path of a URI. -/
def parsedPath (uri : Str) : Except Fault (List NodeKey) := (splitUri uri).mapM newNode

/-- The URI fails an assertion of `buildParser`. -/
def FailsAssertion (uri : Str) : Prop := parsedPath uri = .error .assertion

/-- The segments are those of the string, but for one trailing slash. -/
theorem intercalate_splitUri {uri : Str} (nonempty : uri ≠ []) :
    splitUri uri ≠ [] ∧ (uri = ['/'].intercalate (splitUri uri) ∨
      uri = ['/'].intercalate (splitUri uri) ++ ['/']) := by
  have whole : ['/'].intercalate (uri.splitOn '/') = uri := List.intercalate_splitOn '/'
  unfold splitUri
  simp only
  split
  · rename_i last
    have parts : uri.splitOn '/' = (uri.splitOn '/').dropLast ++ [[]] :=
      (List.dropLast_append_getLast? [] last).symm
    have some_part : (uri.splitOn '/').dropLast ≠ [] := by
      intro none
      rw [none] at parts
      rw [parts] at whole
      exact nonempty whole.symm
    refine ⟨some_part, Or.inr ?_⟩
    rw [← Text.intercalate_concat '/' some_part, ← parts, whole]
  · exact ⟨List.splitOn_ne_nil '/' uri, Or.inl whole.symm⟩

theorem splitUri_eq_nil_iff (uri : Str) : splitUri uri = [] ↔ uri = [] := by
  constructor
  · intro none
    by_contra nonempty
    exact (intercalate_splitUri nonempty).1 none
  · rintro rfl
    rfl

/-- A text that is long enough for two brackets has something between its ends. -/
theorem ends_of_long {s : Str} (opens : s.head? = some '<') (long : ¬ s.length ≤ 2) :
    ∃ inner c, s = '<' :: inner ++ [c] := by
  obtain ⟨tail, rfl⟩ : ∃ tail, s = '<' :: tail := List.head?_eq_some_iff.mp opens
  have some_tail : tail ≠ [] := by
    rintro rfl
    simp at long
  exact ⟨tail.dropLast, tail.getLast some_tail,
    congrArg (List.cons '<') (List.dropLast_concat_getLast some_tail).symm⟩

theorem splitOn_colon_pair {inner kind name : Str} (parts : inner.splitOn ':' = [kind, name]) :
    inner = kind ++ ':' :: name ∧ ':' ∉ name := by
  have whole : [':'].intercalate (inner.splitOn ':') = inner := List.intercalate_splitOn ':'
  have last : name ∈ inner.splitOn ':' := by
    rw [parts]
    simp
  rw [parts] at whole
  exact ⟨by simpa using whole.symm, Text.sep_not_mem_of_mem_splitOn ':' last⟩

/-- A segment fails an assertion, or is a literal, or a variable with any last
character. -/
theorem newNode_cases (s : Str) :
    newNode s = .error .assertion ∨
      (s ≠ [] ∧ s.head? ≠ some '<' ∧ newNode s = .ok ⟨.ConstString, s⟩) ∨
      ∃ kind name c, s = '<' :: kind ++ ':' :: name ++ [c] ∧ name ≠ [] ∧ ':' ∉ name ∧
        (kind = "string".toList ∧ newNode s = .ok ⟨.VarString, name⟩ ∨
          kind = "int".toList ∧ newNode s = .ok ⟨.Integer, name⟩) := by
  generalize outcome : newNode s = result
  unfold newNode at outcome
  split at outcome
  · exact Or.inl outcome.symm
  rename_i nonempty
  rw [List.length_eq_zero_iff] at nonempty
  split at outcome
  · rename_i opens
    split at outcome
    · exact Or.inl outcome.symm
    rename_i long
    obtain ⟨inner, c, rfl⟩ := ends_of_long opens long
    rw [cut_inner] at outcome
    split at outcome
    · rename_i type name parts
      obtain ⟨rfl, plain⟩ := splitOn_colon_pair parts
      split at outcome
      · exact Or.inl outcome.symm
      rename_i filled
      rw [not_or, List.length_eq_zero_iff, List.length_eq_zero_iff] at filled
      split at outcome
      · rename_i isString
        exact Or.inr (Or.inr ⟨type, name, c, rfl, filled.2, plain, Or.inl ⟨isString, outcome.symm⟩⟩)
      · split at outcome
        · rename_i isInt
          exact Or.inr (Or.inr ⟨type, name, c, rfl, filled.2, plain, Or.inr ⟨isInt, outcome.symm⟩⟩)
        · exact Or.inl outcome.symm
    · exact Or.inl outcome.symm
  · rename_i literal
    exact Or.inr (Or.inl ⟨nonempty, literal, outcome.symm⟩)

theorem newNode_error {s : Str} {fault : Fault} (failed : newNode s = .error fault) :
    fault = .assertion := by
  rcases newNode_cases s with assertion | ⟨-, -, literal⟩ |
    ⟨kind, name, c, -, -, -, ⟨-, isString⟩ | ⟨-, isInt⟩⟩
  · exact (Except.error.inj (assertion.symm.trans failed)).symm
  · cases literal.symm.trans failed
  · cases isString.symm.trans failed
  · cases isInt.symm.trans failed

theorem parsedPath_error {uri : Str} {fault : Fault} (failed : parsedPath uri = .error fault) :
    fault = .assertion := by
  obtain ⟨s, -, own⟩ := Checked.exists_of_mapM_error failed
  exact newNode_error own

theorem parsedPath_eq_nil_iff (uri : Str) : parsedPath uri = .ok [] ↔ uri = [] := by
  rw [parsedPath, Checked.mapM_eq_ok_iff, List.forall₂_nil_right_iff, splitUri_eq_nil_iff]

section Storing

/-- Siblings are apart, no branch is bare, and at each path stand the methods whose
URI is parsed to it, in their order. -/
structure StoredInOrder (methods : List (Method J H)) (roots : List (ParsedNode J H)) :
    Prop where
  grown : Forest.Grown roots
  parsed : ∀ m ∈ methods, ∃ path, parsedPath m.uri = .ok path ∧ path ≠ []
  values : ∀ path, Forest.valuesAt path roots =
    methods.filter (fun m => decide (parsedPath m.uri = .ok path))

theorem StoredInOrder.nil : StoredInOrder ([] : List (Method J H)) [] where
  grown := .nil
  parsed := by simp
  values := by
    intro path
    rw [Forest.valuesAt_nil, List.filter_nil]

theorem addMethod_parsed (roots : List (ParsedNode J H)) {m : Method J H} {path : List NodeKey}
    (parsed : parsedPath m.uri = .ok path) (nonempty : path ≠ []) :
    addMethod roots m = .ok (Forest.push m path roots) := by
  unfold parsedPath at parsed
  unfold addMethod
  rw [parsed]
  cases path with
  | nil => exact absurd rfl nonempty
  | cons key path => rfl

theorem StoredInOrder.push {methods : List (Method J H)} {roots : List (ParsedNode J H)}
    (kept : StoredInOrder methods roots) {m : Method J H} {path : List NodeKey}
    (parsed : parsedPath m.uri = .ok path) (nonempty : path ≠ []) :
    StoredInOrder (methods ++ [m]) (Forest.push m path roots) where
  grown := kept.grown.push m path
  parsed := by
    intro other member
    rcases List.mem_append.mp member with earlier | last
    · exact kept.parsed other earlier
    · rw [List.mem_singleton.mp last]
      exact ⟨path, parsed, nonempty⟩
  values := by
    intro place
    rw [Forest.valuesAt_push m nonempty, kept.values, List.filter_append, List.filter_singleton,
      parsed]
    by_cases same : place = path
    · simp [same]
    · simp [same, Ne.symm same]

/-- What one round of the outer loop can do: abort by an assertion, push through
`roots.end()` without any part, or push at the path of the parts. -/
theorem addMethod_cases (roots : List (ParsedNode J H)) (m : Method J H) :
    (m.uri = [] ∧ addMethod roots m = .error .endIterator) ∨
      (m.uri ≠ [] ∧ FailsAssertion m.uri ∧ addMethod roots m = .error .assertion) ∨
      ∃ path, parsedPath m.uri = .ok path ∧ path ≠ [] ∧ m.uri ≠ [] ∧
        addMethod roots m = .ok (Forest.push m path roots) := by
  cases parsed : parsedPath m.uri with
  | error fault =>
    obtain rfl := parsedPath_error parsed
    have some_part : m.uri ≠ [] := by
      intro empty
      rw [(parsedPath_eq_nil_iff m.uri).mpr empty] at parsed
      cases parsed
    refine Or.inr (Or.inl ⟨some_part, parsed, ?_⟩)
    unfold parsedPath at parsed
    unfold addMethod
    rw [parsed]
  | ok path =>
    by_cases empty : path = []
    · subst empty
      refine Or.inl ⟨(parsedPath_eq_nil_iff m.uri).mp parsed, ?_⟩
      unfold parsedPath at parsed
      unfold addMethod
      rw [parsed]
    · have some_part : m.uri ≠ [] := by
        intro none
        rw [(parsedPath_eq_nil_iff m.uri).mpr none] at parsed
        exact empty (Except.ok.inj parsed).symm
      exact Or.inr (Or.inr ⟨path, rfl, empty, some_part, addMethod_parsed roots parsed empty⟩)

/-- Some method has no parts, and no method before it fails an assertion. -/
def ReachesEmpty (methods : List (Method J H)) : Prop :=
  ∃ front m back, methods = front ++ m :: back ∧ m.uri = [] ∧
    ∀ earlier ∈ front, ¬ FailsAssertion earlier.uri

theorem reachesEmpty_cons_iff (m : Method J H) (rest : List (Method J H)) :
    ReachesEmpty (m :: rest) ↔
      m.uri = [] ∨ (¬ FailsAssertion m.uri ∧ ReachesEmpty rest) := by
  constructor
  · intro ⟨front, other, back, split, empty, passed⟩
    cases front with
    | nil =>
      obtain ⟨rfl, -⟩ := List.cons.inj split
      exact Or.inl empty
    | cons head front =>
      obtain ⟨rfl, restEq⟩ := List.cons.inj split
      obtain ⟨first, others⟩ := List.forall_mem_cons.mp passed
      exact Or.inr ⟨first, front, other, back, restEq, empty, others⟩
  · intro reached
    rcases reached with empty | ⟨first, front, other, back, split, empty, others⟩
    · exact ⟨[], m, rest, rfl, empty, by simp⟩
    · exact ⟨m :: front, other, back, by rw [split]; rfl, empty,
        List.forall_mem_cons.mpr ⟨first, others⟩⟩

/-- Rounds of the outer loop on any URIs. -/
theorem foldlM_addMethod_cases (rest : List (Method J H)) {done : List (Method J H)}
    {roots : List (ParsedNode J H)} (kept : StoredInOrder done roots) :
    (rest.foldlM addMethod roots = .error .endIterator ∧ ReachesEmpty rest) ∨
      (¬ ReachesEmpty rest ∧ (rest.foldlM addMethod roots = .error .assertion ∨
        ∃ roots', rest.foldlM addMethod roots = .ok roots' ∧
          StoredInOrder (done ++ rest) roots')) := by
  induction rest generalizing done roots with
  | nil =>
    refine Or.inr ⟨?_, Or.inr ⟨roots, rfl, by rwa [List.append_nil]⟩⟩
    intro ⟨front, m, back, split, _⟩
    simp at split
  | cons m rest ih =>
    rw [reachesEmpty_cons_iff, List.foldlM_cons]
    rcases addMethod_cases roots m with ⟨empty, ended⟩ | ⟨some_part, failed, aborted⟩ |
      ⟨path, parsed, nonempty, some_part, added⟩
    · rw [ended]
      exact Or.inl ⟨rfl, Or.inl empty⟩
    · rw [aborted]
      refine Or.inr ⟨?_, Or.inl rfl⟩
      intro reached
      rcases reached with empty | ⟨passed, -⟩
      · exact some_part empty
      · exact passed failed
    · have passed : ¬ FailsAssertion m.uri := by
        intro failed
        cases failed.symm.trans parsed
      have reached : m.uri = [] ∨ ¬ FailsAssertion m.uri ∧ ReachesEmpty rest ↔
          ReachesEmpty rest := by simp [some_part, passed]
      have further := ih (kept.push parsed nonempty)
      rw [List.append_assoc, List.singleton_append] at further
      rw [added, reached]
      exact further

end Storing

section Placing

/-- The method has the verb and a node path that matches the segments. -/
def Fits (m : Method J H) (verb : Verb) (segments : List Str) : Prop :=
  m.method = verb ∧ ∃ path, parsedPath m.uri = .ok path ∧
    List.Forall₂ (fun key view => nodeMatch key view = true) path segments

/-- A tree as the functions of `API` leave it: none yet, or that of runs of the outer
loop over the methods there were at the time. -/
inductive MadeOf (methods : List (Method J H)) : List (ParsedNode J H) → Prop where
  | none : MadeOf methods []
  | run {earlier : List (Method J H)} {roots roots' : List (ParsedNode J H)}
      (among : ∀ m ∈ earlier, m ∈ methods) (made : MadeOf methods roots)
      (done : earlier.foldlM addMethod roots = .ok roots') : MadeOf methods roots'

/-- Siblings are apart, no branch is bare, and every method is stored at the path its
URI is parsed to and nowhere else. -/
structure Placed (methods : List (Method J H)) (roots : List (ParsedNode J H)) : Prop where
  grown : Forest.Grown roots
  stored : ∀ path m, Forest.Stored path m roots ↔ m ∈ methods ∧ parsedPath m.uri = .ok path

/-- Rounds of the outer loop that succeed, on any tree. -/
theorem foldlM_addMethod_placed {methods : List (Method J H)} {roots roots' : List (ParsedNode J H)}
    (grown : Forest.Grown roots) (done : methods.foldlM addMethod roots = .ok roots') :
    Forest.Grown roots' ∧ ∀ path m, Forest.Stored path m roots' ↔
      Forest.Stored path m roots ∨ (m ∈ methods ∧ parsedPath m.uri = .ok path) := by
  refine Checked.foldlM_ok (motive := fun front next => Forest.Grown next ∧ ∀ path m,
    Forest.Stored path m next ↔
      Forest.Stored path m roots ∨ (m ∈ front ∧ parsedPath m.uri = .ok path)) ?_ ?_ done
  · exact ⟨grown, by simp⟩
  intro front now m next held added
  rcases addMethod_cases now m with ⟨-, ended⟩ | ⟨-, -, aborted⟩ |
    ⟨own, parsed, nonempty, -, pushed⟩
  · cases ended.symm.trans added
  · cases aborted.symm.trans added
  obtain rfl := Except.ok.inj (pushed.symm.trans added)
  refine ⟨held.1.push m own, fun path other => ?_⟩
  rw [Forest.stored_push_iff m nonempty, held.2, or_assoc, List.mem_append, List.mem_singleton,
    or_and_right]
  refine or_congr_right (or_congr_right ?_)
  constructor
  · rintro ⟨rfl, rfl⟩
    exact ⟨rfl, parsed⟩
  · rintro ⟨rfl, same⟩
    exact ⟨Except.ok.inj (same.symm.trans parsed), rfl⟩

theorem MadeOf.placed {methods : List (Method J H)} {roots : List (ParsedNode J H)}
    (made : MadeOf methods roots) :
    Forest.Grown roots ∧
      ∀ path m, Forest.Stored path m roots → m ∈ methods ∧ parsedPath m.uri = .ok path := by
  induction made with
  | none => exact ⟨.nil, fun path m stored => by cases path <;> simp [Forest.Stored] at stored⟩
  | run among _ done ih =>
    obtain ⟨grown, stored⟩ := foldlM_addMethod_placed ih.1 done
    refine ⟨grown, fun path m held => ?_⟩
    rcases (stored path m).mp held with before | ⟨member, parsed⟩
    · exact ih.2 path m before
    · exact ⟨among m member, parsed⟩

/-- Behind a run every method is in its place, whatever the earlier runs left. -/
theorem MadeOf.run_placed {methods : List (Method J H)} {roots roots' : List (ParsedNode J H)}
    (made : MadeOf methods roots) (done : methods.foldlM addMethod roots = .ok roots') :
    Placed methods roots' := by
  obtain ⟨grown, stored⟩ := foldlM_addMethod_placed made.placed.1 done
  have made' : MadeOf methods roots' := made.run (fun _ member => member) done
  exact ⟨grown, fun path m => ⟨made'.placed.2 path m, fun placed =>
    (stored path m).mpr (Or.inr placed)⟩⟩

/-- A method is stored at one path. -/
theorem Placed.unique {methods : List (Method J H)} {roots : List (ParsedNode J H)}
    (placed : Placed methods roots) {path path' : List NodeKey} {m : Method J H}
    (stored : Forest.Stored path m roots) (stored' : Forest.Stored path' m roots) :
    path = path' :=
  Except.ok.inj (((placed.stored _ _).mp stored).2.symm.trans ((placed.stored _ _).mp stored').2)

end Placing
end Restio.Source.ApiMapper
