import Mathlib.Data.List.Forall2

/-!
# Loops that may fail

`mapM` and `foldlM` over `Except`: a run over a list succeeds where each element
does, and fails by the fault of one of them (`mapM_eq_ok_iff`,
`exists_of_mapM_error`). Two rules carry an invariant of the elements done so far
through the rounds of `foldlM`: one for rounds that cannot fail (`foldlM_total`;
`foldlM_succeeds` is the rule without an invariant), one for a run that is known to
have succeeded (`foldlM_ok`).
-/

set_option autoImplicit false

namespace Restio.Lib.Checked

section Map
variable {α β ε : Type} {f : α → Except ε β}

theorem mapM_eq_ok_iff (xs : List α) (ys : List β) :
    xs.mapM f = .ok ys ↔ List.Forall₂ (fun x y => f x = .ok y) xs ys := by
  induction xs generalizing ys with
  | nil =>
    rw [List.mapM_nil, List.forall₂_nil_left_iff]
    exact ⟨fun same => (Except.ok.inj same).symm, fun none => by rw [none]; rfl⟩
  | cons x xs ih =>
    rw [List.mapM_cons, List.forall₂_cons_left_iff]
    constructor
    · intro run
      cases first : f x with
      | error fault =>
        rw [first] at run
        cases run
      | ok y =>
        cases others : xs.mapM f with
        | error fault =>
          rw [first, others] at run
          cases run
        | ok rest =>
          rw [first, others] at run
          cases run
          exact ⟨y, rest, rfl, (ih rest).mp others, rfl⟩
    · intro ⟨y, rest, first, others, same⟩
      rw [first, (ih rest).mpr others, same]
      rfl

theorem mapM_ok_of_mem {xs : List α} {ys : List β} (run : xs.mapM f = .ok ys) {x : α}
    (member : x ∈ xs) : ∃ y, f x = .ok y := by
  rw [mapM_eq_ok_iff] at run
  induction run with
  | nil => cases member
  | @cons _ y _ _ first _ ih =>
    rcases List.mem_cons.mp member with rfl | deeper
    · exact ⟨y, first⟩
    · exact ih deeper

theorem exists_of_mapM_error {xs : List α} {fault : ε} (failed : xs.mapM f = .error fault) :
    ∃ x ∈ xs, f x = .error fault := by
  induction xs with
  | nil => cases failed
  | cons x xs ih =>
    rw [List.mapM_cons] at failed
    cases first : f x with
    | error other =>
      rw [first] at failed
      cases failed
      exact ⟨x, List.mem_cons_self, first⟩
    | ok y =>
      cases others : xs.mapM f with
      | error other =>
        rw [first, others] at failed
        cases failed
        obtain ⟨z, member, own⟩ := ih others
        exact ⟨z, List.mem_cons_of_mem x member, own⟩
      | ok rest =>
        rw [first, others] at failed
        cases failed

end Map

section Fold
variable {α β ε : Type} {f : β → α → Except ε β} {motive : List α → β → Prop}

/-- Rounds that cannot fail, over admissible elements, while the invariant holds. -/
theorem foldlM_total {good : α → Prop} {xs : List α} {s : β} (start : motive [] s)
    (round : ∀ done s x, motive done s → good x →
      ∃ next, f s x = .ok next ∧ motive (done ++ [x]) next)
    (all : ∀ x ∈ xs, good x) : ∃ last, xs.foldlM f s = .ok last ∧ motive xs last := by
  have rounds : ∀ (rest done : List α) (s : β), motive done s → (∀ x ∈ rest, good x) →
      ∃ last, rest.foldlM f s = .ok last ∧ motive (done ++ rest) last := by
    intro rest
    induction rest with
    | nil =>
      intro done s held _
      exact ⟨s, rfl, by rwa [List.append_nil]⟩
    | cons x rest ih =>
      intro done s held goods
      obtain ⟨first, others⟩ := List.forall_mem_cons.mp goods
      obtain ⟨next, ran, kept⟩ := round done s x held first
      obtain ⟨last, run, held'⟩ := ih _ next kept others
      refine ⟨last, ?_, by rwa [List.append_assoc] at held'⟩
      rw [List.foldlM_cons, ran]
      exact run
  exact rounds xs [] s start all

/-- Rounds that cannot fail over admissible elements. -/
theorem foldlM_succeeds {good : α → Prop} {xs : List α} {s : β}
    (round : ∀ s x, good x → ∃ next, f s x = .ok next) (all : ∀ x ∈ xs, good x) :
    ∃ last, xs.foldlM f s = .ok last := by
  obtain ⟨last, run, -⟩ := foldlM_total (motive := fun _ _ => True) (s := s) trivial
    (fun _ s x _ admissible => (round s x admissible).imp (fun _ ran => ⟨ran, trivial⟩)) all
  exact ⟨last, run⟩

/-- What every round that succeeds keeps, a run that succeeds keeps. -/
theorem foldlM_ok {xs : List α} {s last : β} (start : motive [] s)
    (round : ∀ done s x next, motive done s → f s x = .ok next → motive (done ++ [x]) next)
    (run : xs.foldlM f s = .ok last) : motive xs last := by
  have rounds : ∀ (rest done : List α) (s : β), motive done s → rest.foldlM f s = .ok last →
      motive (done ++ rest) last := by
    intro rest
    induction rest with
    | nil =>
      intro done s held run
      cases run
      rwa [List.append_nil]
    | cons x rest ih =>
      intro done s held run
      rw [List.foldlM_cons] at run
      cases ran : f s x with
      | error fault =>
        rw [ran] at run
        cases run
      | ok next =>
        rw [ran] at run
        have held' := ih _ next (round done s x next held ran) run
        rwa [List.append_assoc] at held'
  exact rounds xs [] s start run

end Fold
end Restio.Lib.Checked
