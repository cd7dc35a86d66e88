import Mathlib.Order.Lattice

/-!
# Finite maps as key-sorted association lists

A hash map whose iteration order nobody observes is determined by the value it
holds for every key. Keeping the entries sorted by key makes the list itself
that determination: two sorted maps with the same lookups are the same list
(`FiniteMap.ext`), so equality of maps is plain equality and a tree of maps can
be a nested inductive type.

`List.lookup` is the lookup; insertion and erasure are characterized by what
they do to it, with no sortedness premise.
-/

set_option autoImplicit false

namespace Restio.Lib

abbrev FiniteMap (κ α : Type) := List (κ × α)

namespace FiniteMap
variable {κ α : Type} [LinearOrder κ]

/-- Strictly ascending keys, hence no key twice. -/
def Sorted (m : FiniteMap κ α) : Prop :=
  m.Pairwise (fun left right => left.1 < right.1)

def find (m : FiniteMap κ α) (key : κ) : Option α := m.lookup key

/-- Insert or overwrite. -/
def insert (key : κ) (value : α) : FiniteMap κ α → FiniteMap κ α
  | [] => [(key, value)]
  | (other, old) :: rest =>
      if key = other then (key, value) :: rest
      else if key < other then (key, value) :: (other, old) :: rest
      else (other, old) :: insert key value rest

def erase (m : FiniteMap κ α) (key : κ) : FiniteMap κ α :=
  m.filter (fun entry => decide (entry.1 ≠ key))

@[simp] theorem find_nil (key : κ) : find ([] : FiniteMap κ α) key = none := rfl

theorem find_cons (key other : κ) (value : α) (rest : FiniteMap κ α) :
    find ((other, value) :: rest) key = if key = other then some value else find rest key := by
  by_cases same : key = other
  · subst same
    simp [find]
  · have differ : (key == other) = false := by simpa using same
    simp [find, List.lookup_cons, differ, same]

theorem mem_of_find {m : FiniteMap κ α} {key : κ} {value : α} (found : m.find key = some value) :
    (key, value) ∈ m := by
  induction m with
  | nil => simp at found
  | cons head rest ih =>
    obtain ⟨other, old⟩ := head
    rw [find_cons] at found
    split at found
    · next same =>
        simp only [Option.some.injEq] at found
        subst same found
        exact List.mem_cons_self
    · exact List.mem_cons_of_mem _ (ih found)

theorem find_erase (m : FiniteMap κ α) (key other : κ) :
    (m.erase key).find other = if other = key then none else m.find other := by
  induction m with
  | nil => simp [erase]
  | cons head rest ih =>
    obtain ⟨k, v⟩ := head
    simp only [erase] at ih ⊢
    by_cases drop : k = key
    · subst drop
      rw [List.filter_cons_of_neg (by simp), ih, find_cons]
      split <;> simp_all
    · rw [List.filter_cons_of_pos (by simpa using drop), find_cons, find_cons, ih]
      by_cases same : other = k
      · subst same
        simp [drop]
      · simp [same]

theorem eq_nil_of_find {m : FiniteMap κ α} (absent : ∀ key, m.find key = none) : m = [] := by
  cases m with
  | nil => rfl
  | cons head rest =>
    have missing := absent head.1
    rw [find_cons, if_pos rfl] at missing
    cases missing

theorem find_insert (m : FiniteMap κ α) (key other : κ) (value : α) :
    (m.insert key value).find other = if other = key then some value else m.find other := by
  induction m with
  | nil => rw [insert, find_cons]
  | cons head rest ih =>
    obtain ⟨k, v⟩ := head
    rw [insert]
    split
    · next same =>
        subst same
        rw [find_cons, find_cons]
        split <;> rfl
    · split
      · rw [find_cons]
      · next different _ =>
          rw [find_cons, ih, find_cons]
          by_cases hit : other = key
          · subst hit
            simp [different]
          · simp [hit]

@[simp] theorem insert_ne_nil (m : FiniteMap κ α) (key : κ) (value : α) :
    m.insert key value ≠ [] := by
  cases m with
  | nil => simp [insert]
  | cons head rest =>
    obtain ⟨k, v⟩ := head
    rw [insert]
    split
    · simp
    · split <;> simp

theorem mem_insert {m : FiniteMap κ α} {key : κ} {value : α} {entry : κ × α}
    (member : entry ∈ m.insert key value) : entry = (key, value) ∨ entry ∈ m := by
  induction m with
  | nil => simpa [insert] using member
  | cons head rest ih =>
    obtain ⟨k, v⟩ := head
    rw [insert] at member
    split at member
    · rcases List.mem_cons.mp member with fresh | old
      · exact Or.inl fresh
      · exact Or.inr (List.mem_cons_of_mem _ old)
    · split at member
      · exact List.mem_cons.mp member
      · rcases List.mem_cons.mp member with fresh | old
        · exact Or.inr (by simp [fresh])
        · exact (ih old).imp_right (List.mem_cons_of_mem _)

/-- The same keys with other values. -/
def map {β : Type} (f : α → β) (m : FiniteMap κ α) : FiniteMap κ β :=
  List.map (fun entry => (entry.1, f entry.2)) m

theorem find_map {β : Type} (f : α → β) (m : FiniteMap κ α) (key : κ) :
    (m.map f).find key = (m.find key).map f := by
  induction m with
  | nil => rfl
  | cons head rest ih =>
    obtain ⟨other, value⟩ := head
    have unfolded : map f ((other, value) :: rest) = (other, f value) :: map f rest := rfl
    rw [unfolded, find_cons, find_cons, ih]
    split <;> rfl

theorem map_insert {β : Type} (f : α → β) (m : FiniteMap κ α) (key : κ) (value : α) :
    (m.insert key value).map f = (m.map f).insert key (f value) := by
  induction m with
  | nil => rfl
  | cons head rest ih =>
    obtain ⟨other, old⟩ := head
    have unfolded : map f ((other, old) :: rest) = (other, f old) :: map f rest := rfl
    rw [unfolded, insert, insert]
    split
    · rfl
    · split
      · rfl
      · rw [← ih]
        rfl

theorem sorted_nil : Sorted ([] : FiniteMap κ α) := List.Pairwise.nil

theorem Sorted.insert {m : FiniteMap κ α} (sorted : m.Sorted) (key : κ) (value : α) :
    Sorted (m.insert key value) := by
  induction m with
  | nil => simp [Sorted, FiniteMap.insert]
  | cons head rest ih =>
    obtain ⟨k, v⟩ := head
    obtain ⟨above, tail⟩ := List.pairwise_cons.mp sorted
    rw [FiniteMap.insert]
    split
    · next same =>
        subst same
        exact List.pairwise_cons.mpr ⟨above, tail⟩
    · next different =>
        split
        · next below =>
            refine List.pairwise_cons.mpr ⟨fun entry member => ?_, sorted⟩
            rcases List.mem_cons.mp member with fresh | old
            · subst fresh
              exact below
            · exact lt_trans below (above entry old)
        · next notBelow =>
            refine List.pairwise_cons.mpr ⟨fun entry member => ?_, ih tail⟩
            rcases mem_insert member with fresh | old
            · subst fresh
              exact lt_of_le_of_ne (not_lt.mp notBelow) (Ne.symm different)
            · exact above entry old

theorem Sorted.erase {m : FiniteMap κ α} (sorted : m.Sorted) (key : κ) :
    Sorted (m.erase key) :=
  List.Pairwise.filter _ sorted

/-- Below the smallest key of a sorted map there is nothing to find. -/
theorem Sorted.find_none_of_lt {m : FiniteMap κ α} {key : κ}
    (below : ∀ entry ∈ m, key < entry.1) : m.find key = none := by
  cases found : m.find key with
  | none => rfl
  | some value => exact absurd (below _ (mem_of_find found)) (lt_irrefl key)

/-- Equality of sorted maps is equality of their lookups. -/
theorem Sorted.ext {m n : FiniteMap κ α} (hm : m.Sorted) (hn : n.Sorted)
    (same : ∀ key, m.find key = n.find key) : m = n := by
  induction m generalizing n with
  | nil => exact (eq_nil_of_find (fun key => (same key).symm)).symm
  | cons head rest ih =>
    obtain ⟨k, v⟩ := head
    cases n with
    | nil => simpa [find_cons] using same k
    | cons head' rest' =>
      obtain ⟨k', v'⟩ := head'
      obtain ⟨above, tail⟩ := List.pairwise_cons.mp hm
      obtain ⟨above', tail'⟩ := List.pairwise_cons.mp hn
      have keys : k = k' := by
        rcases lt_trichotomy k k' with less | equal | greater
        · have absent : find ((k', v') :: rest') k = none :=
            Sorted.find_none_of_lt (List.forall_mem_cons.mpr
              ⟨less, fun entry member => lt_trans less (above' entry member)⟩)
          simpa [find_cons] using (same k).trans absent
        · exact equal
        · have absent : find ((k, v) :: rest) k' = none :=
            Sorted.find_none_of_lt (List.forall_mem_cons.mpr
              ⟨greater, fun entry member => lt_trans greater (above entry member)⟩)
          simpa [find_cons] using (same k').symm.trans absent
      subst keys
      have values : v = v' := by simpa [find_cons] using same k
      subst values
      rw [ih tail tail' (fun key => ?_)]
      by_cases atHead : key = k
      · rw [atHead, Sorted.find_none_of_lt above, Sorted.find_none_of_lt above']
      · simpa [find_cons, atHead] using same key

end FiniteMap
end Restio.Lib
