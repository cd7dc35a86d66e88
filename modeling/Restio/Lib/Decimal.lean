import Mathlib.Data.Char
import Mathlib.Logic.Function.Basic

/-!
# Decimal texts

`Decimal.render` is the shortest decimal text of an integer, with a minus sign
before a negative one, and `Decimal.value` the number a text of digits denotes,
leading zeros included. Rendering is injective and uses digits and the minus
sign only.
-/

set_option autoImplicit false

namespace Restio.Lib.Decimal

def render : Int → List Char
  | .ofNat n => Nat.toDigits 10 n
  | .negSucc n => '-' :: Nat.toDigits 10 (n + 1)

/-- One digit or more and nothing else. -/
def isDigits (text : List Char) : Bool := !text.isEmpty && text.all Char.isDigit

def value (text : List Char) : Nat := Nat.ofDigitChars 10 text 0

theorem value_toDigits (n : Nat) : value (Nat.toDigits 10 n) = n := Nat.ofDigitChars_ten_toDigits

theorem isDigit_of_mem_toDigits {n : Nat} {c : Char} (member : c ∈ Nat.toDigits 10 n) :
    c.isDigit = true :=
  Nat.isDigit_of_mem_toDigits (by decide) (by decide) member

theorem render_ne_nil (n : Int) : render n ≠ [] := by
  cases n with
  | ofNat n => exact Nat.toDigits_ne_nil
  | negSucc n => exact List.cons_ne_nil _ _

theorem mem_render {n : Int} {c : Char} (member : c ∈ render n) : c = '-' ∨ c.isDigit = true := by
  cases n with
  | ofNat n => exact Or.inr (isDigit_of_mem_toDigits member)
  | negSucc n =>
    rcases List.mem_cons.mp member with sign | digit
    · exact Or.inl sign
    · exact Or.inr (isDigit_of_mem_toDigits digit)

/-- The text of an integer is one of digits exactly when the integer has no sign. -/
theorem isDigits_render_iff (n : Int) : isDigits (render n) = true ↔ 0 ≤ n := by
  unfold isDigits
  rw [Bool.and_eq_true, List.all_eq_true]
  cases n with
  | ofNat n =>
    have nonempty : render (.ofNat n) ≠ [] := render_ne_nil _
    have digits : ∀ c ∈ render (.ofNat n), c.isDigit = true := fun c member =>
      isDigit_of_mem_toDigits member
    have filled : (!(render (.ofNat n)).isEmpty) = true := by simpa using nonempty
    exact iff_of_true ⟨filled, digits⟩ (Int.natCast_nonneg n)
  | negSucc n =>
    constructor
    · intro ⟨_, digits⟩
      exact absurd (digits '-' List.mem_cons_self) (by decide)
    · intro natural
      exact absurd natural (Int.negSucc_not_nonneg n).mp

theorem value_render {n : Int} (natural : 0 ≤ n) : (value (render n) : Int) = n := by
  obtain ⟨k, rfl⟩ := Int.eq_ofNat_of_zero_le natural
  exact congrArg Int.ofNat (value_toDigits k)

theorem render_injective : Function.Injective render := by
  -- the text of a natural number has no minus sign
  have signed : ∀ n m : Nat, Nat.toDigits 10 n ≠ '-' :: Nat.toDigits 10 m := by
    intro n m same
    have digit : ('-' : Char).isDigit = true :=
      isDigit_of_mem_toDigits (same ▸ List.mem_cons_self)
    exact absurd digit (by decide)
  have digits : ∀ n m : Nat, Nat.toDigits 10 n = Nat.toDigits 10 m → n = m := by
    intro n m same
    rw [← value_toDigits n, same, value_toDigits]
  intro n m same
  cases n with
  | ofNat n =>
    cases m with
    | ofNat m => exact congrArg Int.ofNat (digits n m same)
    | negSucc m => exact absurd same (signed n (m + 1))
  | negSucc n =>
    cases m with
    | ofNat m => exact absurd same.symm (signed m (n + 1))
    | negSucc m =>
      have successors := digits (n + 1) (m + 1) (List.cons.inj same).2
      exact congrArg Int.negSucc (Nat.succ.inj successors)

end Restio.Lib.Decimal
