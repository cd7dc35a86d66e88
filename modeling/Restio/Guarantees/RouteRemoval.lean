import Restio.Source.StoreHistory

/-!
# Removal after addition

`add` trims `/` from both ends of its path and splits what is left at `/`;
`remove` takes its argument as it is and cuts it at the first `?` or `#`. The
two agree on a path, and so `remove` undoes `add`, exactly when the path neither
starts nor ends at `/` and contains no `?` or `#` (`remove_undoes_add_iff`).
-/

set_option autoImplicit false

namespace Restio.Guarantees.RouteRemoval
open Restio.Lib Restio.Source.Http Restio.Source.HandlerStore HttpHandlerStore

variable {H : Type}

/-- What it means that `remove` undoes `add` on the same path string. -/
structure RemoveUndoesAdd (store : HttpHandlerStore H) (verb : Verb) (path : Str) (handler : H) :
    Prop where
  gone : ((store.add verb path handler).remove verb path).entry (addRoute path) verb = none
  others : ∀ route other, ¬ (route = addRoute path ∧ other = verb) →
    ((store.add verb path handler).remove verb path).entry route other = store.entry route other
  restored : store.entry (addRoute path) verb = none →
    (store.add verb path handler).remove verb path = store

/-- Neither end is a slash, and no query or fragment character occurs. -/
def PlainPath (path : Str) : Prop :=
  path.head? ≠ some '/' ∧ path.getLast? ≠ some '/' ∧ ∀ c ∈ path, c ≠ '?' ∧ c ≠ '#'

theorem isStop_eq_false_iff (c : Char) : isStop c = false ↔ c ≠ '?' ∧ c ≠ '#' := by
  simp [isStop]

/-- The two tokenizers agree exactly on plain paths. -/
theorem addRoute_eq_removeRoute_iff (path : Str) :
    addRoute path = removeRoute path ↔ PlainPath path := by
  have joined : addRoute path = removeRoute path ↔
      Text.trim '/' path = path.takeWhile (fun c => !isStop c) := by
    refine ⟨fun same => ?_, fun same => by rw [addRoute, removeRoute, Text.segments, same]⟩
    calc Text.trim '/' path = ['/'].intercalate (addRoute path) :=
          (List.intercalate_splitOn '/').symm
      _ = ['/'].intercalate (removeRoute path) := by rw [same]
      _ = path.takeWhile (fun c => !isStop c) := List.intercalate_splitOn '/'
  rw [joined, PlainPath, ← and_assoc, ← Text.trim_eq_self_iff]
  constructor
  · intro same
    have plain : ∀ c ∈ path, isStop c = false := by
      intro c member
      by_contra stops
      rw [Bool.not_eq_false] at stops
      have notSlash : c ≠ '/' := by
        rintro rfl
        cases stops
      have kept := Text.mem_trim '/' member notSlash
      rw [same] at kept
      have notStop := List.mem_takeWhile_imp kept
      simp [stops] at notStop
    have whole : path.takeWhile (fun c => !isStop c) = path :=
      List.takeWhile_eq_self_iff.mpr (fun c member => by simp [plain c member])
    exact ⟨same.trans whole, fun c member => (isStop_eq_false_iff c).mp (plain c member)⟩
  · rintro ⟨trimmed, plain⟩
    rw [trimmed]
    refine (List.takeWhile_eq_self_iff.mpr (fun c member => ?_)).symm
    simp [(isStop_eq_false_iff c).mpr (plain c member)]

/-- The entries after adding and removing one path string. -/
theorem entry_remove_add (store : HttpHandlerStore H) (verb : Verb) (path : Str) (handler : H)
    (route : List Str) (other : Verb) :
    ((store.add verb path handler).remove verb path).entry route other =
      if route = removeRoute path ∧ other = verb then none
      else if route = addRoute path ∧ other = verb then some handler
      else store.entry route other := by
  rw [entry_remove, entry_add]

/-- In every reachable store and for every verb and handler, `remove` undoes
`add` on a path string if and only if the string is plain. -/
theorem remove_undoes_add_iff (base_path : Str) (ops : List (Op H)) (verb : Verb) (path : Str)
    (handler : H) :
    RemoveUndoesAdd (run base_path ops) verb path handler ↔ PlainPath path := by
  rw [← addRoute_eq_removeRoute_iff]
  constructor
  · intro undone
    by_contra differ
    have left := undone.gone
    rw [entry_remove_add, if_neg (fun same => differ same.1), if_pos ⟨rfl, rfl⟩] at left
    cases left
  · intro same
    refine ⟨?_, ?_, ?_⟩
    · rw [entry_remove_add, if_pos ⟨same, rfl⟩]
    · intro route other different
      rw [entry_remove_add, ← same, if_neg different, if_neg different]
    · intro absent
      have before := run_canonical base_path ops
      refine Canonical.ext ((before.apply (.add verb path handler)).apply (.remove verb path))
        before rfl (fun route other => ?_)
      refine (entry_remove_add _ verb path handler route other).trans ?_
      rw [← same]
      split
      · next hit => rw [hit.1, hit.2, absent]
      · rfl

/-- A leading slash is enough: the added route outlives its removal. -/
theorem slashed_path_is_not_removed :
    ¬ RemoveUndoesAdd (run [] []) .get "/test".toList (1 : Nat) := by
  intro undone
  exact absurd undone.gone (by decide +kernel)

end Restio.Guarantees.RouteRemoval
