import Restio.Lib.Text

/-!
# Longest-prefix dispatch

Dispatch along a list of steps over an arbitrary partial function on paths, with
no tree: of the non-empty prefixes of the path that apply, the longest one wins
(`longestMatch_eq_some_iff`, `longestMatch_eq_none_iff`). Over the steps of a
text (`Text.steps`) the payload handed back is what the winning prefix leaves of
the text (`longestMatch_steps_iff`).
-/

set_option autoImplicit false

namespace Restio.Lib

variable {κ τ β γ : Type}

/-- Dispatch along `steps`, each a path key and a payload to hand back when the
match ends there. A deeper applicable prefix is preferred to a shorter one. -/
def longestMatch (applies : List κ → Option β) : List (κ × τ) → Option (τ × β)
  | [] => none
  | (key, payload) :: rest =>
      (longestMatch (fun path => applies (key :: path)) rest).or
        ((applies [key]).map (fun value => (payload, value)))

theorem longestMatch_eq_none_iff (applies : List κ → Option β) (steps : List (κ × τ)) :
    longestMatch applies steps = none ↔
      ∀ path, path ≠ [] → path <+: steps.map Prod.fst → applies path = none := by
  induction steps generalizing applies with
  | nil =>
    refine ⟨fun _ path nonempty below => ?_, fun _ => rfl⟩
    exact absurd (List.prefix_nil.mp below) nonempty
  | cons step rest ih =>
    obtain ⟨key, payload⟩ := step
    simp only [longestMatch, Option.or_eq_none_iff, Option.map_eq_none_iff, ih, List.map_cons]
    constructor
    · rintro ⟨deeper, here⟩ path nonempty below
      obtain ⟨k, more, rfl⟩ := List.exists_cons_of_ne_nil nonempty
      obtain ⟨rfl, tailBelow⟩ := List.cons_prefix_cons.mp below
      by_cases last : more = []
      · rw [last]
        exact here
      · exact deeper more last tailBelow
    · intro none_applies
      refine ⟨fun path nonempty below => ?_, ?_⟩
      · exact none_applies (key :: path) (by simp) (List.cons_prefix_cons.mpr ⟨rfl, below⟩)
      · exact none_applies [key] (by simp) (List.cons_prefix_cons.mpr ⟨rfl, List.nil_prefix⟩)

/-- A bound on the applicable prefixes of a longer text is one on the shorter text's. -/
theorem applicable_cons_bounded_iff {applies : List κ → Option β} {key : κ} {keys : List κ}
    {bound : Nat} :
    (∀ path, path <+: key :: keys → (applies path).isSome → path.length ≤ bound + 1) ↔
      ∀ path, path <+: keys → (applies (key :: path)).isSome → path.length ≤ bound := by
  constructor
  · intro bounded path below some_value
    have shorter := bounded (key :: path) (List.cons_prefix_cons.mpr ⟨rfl, below⟩) some_value
    rw [List.length_cons] at shorter
    omega
  · intro bounded path below some_value
    cases path with
    | nil => simp
    | cons first more =>
      obtain ⟨rfl, tailBelow⟩ := List.cons_prefix_cons.mp below
      have shorter := bounded more tailBelow some_value
      rw [List.length_cons]
      omega

/-- Only the empty prefix applies when the bound is nothing. -/
theorem applicable_bounded_zero_iff {applies : List κ → Option β} {keys : List κ} :
    (∀ path, path <+: keys → (applies path).isSome → path.length ≤ 0) ↔
      ∀ path, path ≠ [] → path <+: keys → applies path = none := by
  constructor
  · intro bounded path nonempty below
    have positive := List.length_pos_iff.mpr nonempty
    rw [← Option.not_isSome_iff_eq_none]
    intro some_value
    have short := bounded path below some_value
    omega
  · intro nothing path below some_value
    by_contra long
    have nonempty : path ≠ [] := List.length_pos_iff.mp (by omega)
    rw [nothing path nonempty below] at some_value
    cases some_value

/-- The winning prefix ends at some step, applies, and nothing longer does. -/
theorem longestMatch_eq_some_iff (applies : List κ → Option β) (steps : List (κ × τ))
    (payload : τ) (value : β) :
    longestMatch applies steps = some (payload, value) ↔
      ∃ before key after, steps = before ++ (key, payload) :: after ∧
        applies (before.map Prod.fst ++ [key]) = some value ∧
        ∀ path, path <+: steps.map Prod.fst → (applies path).isSome →
          path.length ≤ before.length + 1 := by
  induction steps generalizing applies with
  | nil => simp [longestMatch]
  | cons step rest ih =>
    obtain ⟨k, p⟩ := step
    rw [longestMatch, Option.or_eq_some_iff, ih, List.map_cons]
    simp only [applicable_cons_bounded_iff]
    constructor
    · intro matched
      rcases matched with ⟨before, key, after, rfl, applied, longest⟩ | ⟨deeper, here⟩
      · exact ⟨(k, p) :: before, key, after, rfl, applied, longest⟩
      · obtain ⟨value', applied, pair⟩ := Option.map_eq_some_iff.mp here
        cases pair
        have longest := applicable_bounded_zero_iff.mpr ((longestMatch_eq_none_iff _ _).mp deeper)
        exact ⟨[], k, rest, rfl, applied, longest⟩
    · intro matched
      obtain ⟨before, key, after, split, applied, longest⟩ := matched
      cases before with
      | nil =>
        simp only [List.nil_append, List.cons.injEq, Prod.mk.injEq] at split
        obtain ⟨⟨rfl, rfl⟩, rfl⟩ := split
        have deeper := (longestMatch_eq_none_iff _ _).mpr (applicable_bounded_zero_iff.mp longest)
        exact Or.inr ⟨deeper, by simpa using applied⟩
      | cons first before =>
        simp only [List.cons_append, List.cons.injEq] at split
        obtain ⟨rfl, rfl⟩ := split
        exact Or.inl ⟨before, key, after, rfl, applied, longest⟩

/-- Dispatch commutes with a change of the dispatched values. -/
theorem longestMatch_map (applies : List κ → Option β) (convert : β → γ)
    (steps : List (κ × τ)) :
    longestMatch (fun path => (applies path).map convert) steps =
      (longestMatch applies steps).map (fun found => (found.1, convert found.2)) := by
  induction steps generalizing applies with
  | nil => rfl
  | cons step rest ih =>
    obtain ⟨key, payload⟩ := step
    rw [longestMatch, longestMatch, ih, Option.map_or, Option.map_map, Option.map_map]
    rfl

/-- Dispatch looks at the non-empty prefixes of the path only. -/
theorem longestMatch_congr {applies applies' : List κ → Option β} {steps : List (κ × τ)}
    (agree : ∀ path, path ≠ [] → path <+: steps.map Prod.fst → applies path = applies' path) :
    longestMatch applies steps = longestMatch applies' steps := by
  induction steps generalizing applies applies' with
  | nil => rfl
  | cons step rest ih =>
    obtain ⟨key, payload⟩ := step
    have here := agree [key] (List.cons_ne_nil _ _)
      (List.cons_prefix_cons.mpr ⟨rfl, List.nil_prefix⟩)
    have deeper : longestMatch (fun path => applies (key :: path)) rest =
        longestMatch (fun path => applies' (key :: path)) rest :=
      ih (fun path _ below => agree (key :: path) (List.cons_ne_nil _ _)
        (List.cons_prefix_cons.mpr ⟨rfl, below⟩))
    rw [longestMatch, longestMatch, here, deeper]

section OverText
variable {α : Type} [DecidableEq α] (sep : α) (stop : α → Bool)

/-- The leading non-empty segments of a text. -/
def leading (text : List α) : List (List α) :=
  (Text.segments sep stop text).takeWhile (fun part => !part.isEmpty)

/-- `route` applies, is a prefix of `keys`, and no longer prefix applies. -/
structure IsLongest (applies : List κ → Option β) (keys route : List κ) : Prop where
  below : route <+: keys
  applied : (applies route).isSome
  longest : ∀ other, other <+: keys → (applies other).isSome → other.length ≤ route.length

/-- A non-empty prefix of the leading segments ends at a step, and leaves of the text
what that step does. -/
theorem exists_step_of_prefix (separates : stop sep = false) {text : List α}
    {route : List (List α)} (nonempty : route ≠ []) (below : route <+: leading sep stop text) :
    ∃ before key after rest, Text.steps sep stop text = before ++ (key, after) :: rest ∧
      route = before.map Prod.fst ++ [key] ∧ text = [sep].intercalate route ++ after := by
  obtain ⟨more, keys⟩ := below
  rw [leading, ← Text.steps_map_fst sep stop separates] at keys
  obtain ⟨front, back, steps, frontEq, -⟩ := List.append_eq_map_iff.mp keys
  obtain ⟨before, last, shape⟩ := (List.eq_nil_or_concat front).resolve_left (by
    rintro rfl
    exact nonempty (by simpa using frontEq.symm))
  have split : Text.steps sep stop text = before ++ (last.1, last.2) :: back := by
    rw [steps, shape]
    simp
  have routeEq : route = before.map Prod.fst ++ [last.1] := by
    rw [← frontEq, shape]
    simp
  refine ⟨before, last.1, last.2, back, split, routeEq, ?_⟩
  rw [routeEq]
  exact Text.steps_split sep stop split

/-- Dispatch over the steps of a text: the payload is what the longest applicable
route leaves of the text. -/
theorem longestMatch_steps_iff (separates : stop sep = false)
    {applies : List (List α) → Option β} (noEmpty : applies [] = none)
    (text tail : List α) (value : β) :
    longestMatch applies (Text.steps sep stop text) = some (tail, value) ↔
      ∃ route, IsLongest applies (leading sep stop text) route ∧ applies route = some value ∧
        text = [sep].intercalate route ++ tail := by
  rw [longestMatch_eq_some_iff, Text.steps_map_fst sep stop separates]
  constructor
  · rintro ⟨before, key, after, split, applied, longest⟩
    have keys : before.map Prod.fst ++ [key] <+: leading sep stop text := by
      refine ⟨after.map Prod.fst, ?_⟩
      rw [leading, ← Text.steps_map_fst sep stop separates, split]
      simp
    refine ⟨_, ⟨keys, by simp [applied], fun other below some_value => ?_⟩, applied,
      Text.steps_split sep stop split⟩
    simpa using longest other below some_value
  · rintro ⟨route, ⟨below, -, longest⟩, applied, textEq⟩
    have nonempty : route ≠ [] := by
      rintro rfl
      rw [noEmpty] at applied
      cases applied
    obtain ⟨before, key, after, rest, split, routeEq, left⟩ :=
      exists_step_of_prefix sep stop separates nonempty below
    obtain rfl : after = tail := List.append_cancel_left (left.symm.trans textEq)
    refine ⟨before, key, rest, split, by rw [← routeEq]; exact applied,
      fun other below some_value => ?_⟩
    have bound := longest other below some_value
    rw [routeEq] at bound
    simpa using bound

/-- The payload of a dispatch over steps is empty or starts with a delimiter. -/
theorem longestMatch_steps_after {applies : List (List α) → Option β} {text tail : List α}
    {value : β} (found : longestMatch applies (Text.steps sep stop text) = some (tail, value)) :
    ∀ c, tail.head? = some c → Text.delim sep stop c = true := by
  obtain ⟨before, key, after, split, -⟩ := (longestMatch_eq_some_iff _ _ _ _).mp found
  have member : (key, tail) ∈ Text.steps sep stop text := by simp [split]
  exact Text.step_after sep stop member

end OverText
end Restio.Lib
