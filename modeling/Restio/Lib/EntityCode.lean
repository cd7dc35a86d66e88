import Mathlib.Data.List.Infix

/-!
# Entity codes

A table writes some symbols as entities: texts that start with a mark, of which
none is a prefix of another. The mark itself is among the symbols written so, and
all other symbols stand for themselves. `decode` reads a text from left to right
and takes every entity it meets, so it also reads texts that no encoder has
written. It inverts `encode`, in front of any further text
(`decode_encode_append`), and leaves exactly the texts without an entity as they
are (`decode_eq_self_iff`). Where no entity has the mark behind its start, each mark
of an encoded text begins an entity (`entity_of_mark`).
-/

set_option autoImplicit false

namespace Restio.Lib

structure EntityCode (α : Type) where
  /-- The entities and the symbols they stand for. -/
  table : List (List α × α)
  mark : α
  starts : ∀ entry ∈ table, ∃ more, more ≠ [] ∧ entry.1 = mark :: more
  prefixFree : ∀ entry ∈ table, ∀ other ∈ table, entry.1 <+: other.1 → entry = other
  marked : ∃ entry ∈ table, entry.2 = mark

namespace EntityCode
variable {α : Type} [DecidableEq α] (code : EntityCode α)

def encodeSymbol (symbol : α) : List α :=
  ((code.table.find? (fun entry => entry.2 = symbol)).map Prod.fst).getD [symbol]

def encode (text : List α) : List α := text.flatMap code.encodeSymbol

/-- The entity a text starts with. -/
def entryAt (text : List α) : Option (List α × α) :=
  code.table.find? (fun entry => entry.1.isPrefixOf text)

/-- Read on behind the first `skip` symbols, which belong to the entity before. -/
def decodeFrom : Nat → List α → List α
  | _, [] => []
  | skip + 1, _ :: rest => decodeFrom skip rest
  | 0, symbol :: rest =>
      match code.entryAt (symbol :: rest) with
      | some entry => entry.2 :: decodeFrom (entry.1.length - 1) rest
      | none => symbol :: decodeFrom 0 rest

def decode (text : List α) : List α := code.decodeFrom 0 text

/-- An entity of the table occurs in the text. -/
def HasEntity (text : List α) : Prop := ∃ entry ∈ code.table, entry.1 <:+: text

section Reading
variable {code}

theorem decodeFrom_eq (skip : Nat) (text : List α) :
    code.decodeFrom skip text = code.decode (text.drop skip) := by
  induction skip generalizing text with
  | zero => rfl
  | succ skip ih => cases text with
    | nil => rfl
    | cons symbol rest => exact ih rest

theorem entryAt_entity {entry : List α × α} (member : entry ∈ code.table) (text : List α) :
    code.entryAt (entry.1 ++ text) = some entry := by
  have present : (code.entryAt (entry.1 ++ text)).isSome := by
    rw [entryAt, List.find?_isSome]
    exact ⟨entry, member, by simp⟩
  obtain ⟨found, foundEq⟩ := Option.isSome_iff_exists.mp present
  have starts : found.1 <+: entry.1 ++ text := by simpa using List.find?_some foundEq
  have foundMember := List.mem_of_find?_eq_some foundEq
  -- two entities in front of one text are comparable, hence equal
  rcases List.prefix_or_prefix_of_prefix starts (List.prefix_append entry.1 text) with
    shorter | longer
  · rw [foundEq, code.prefixFree found foundMember entry member shorter]
  · rw [foundEq, code.prefixFree entry member found foundMember longer]

theorem entryAt_plain {symbol : α} (other : symbol ≠ code.mark) (text : List α) :
    code.entryAt (symbol :: text) = none := by
  rw [entryAt, List.find?_eq_none]
  intro entry member starts
  obtain ⟨more, -, own⟩ := code.starts entry member
  rw [own, List.isPrefixOf_iff_prefix] at starts
  exact other (List.cons_prefix_cons.mp starts).1.symm

theorem decode_cons_of_entryAt {symbol : α} {rest : List α} {entry : List α × α}
    (found : code.entryAt (symbol :: rest) = some entry) :
    code.decode (symbol :: rest) = entry.2 :: code.decode (rest.drop (entry.1.length - 1)) := by
  rw [← decodeFrom_eq, decode, decodeFrom, found]

theorem decode_cons_of_none {symbol : α} {rest : List α}
    (none : code.entryAt (symbol :: rest) = none) :
    code.decode (symbol :: rest) = symbol :: code.decode rest := by
  rw [decode, decodeFrom, none]
  rfl

theorem decode_entity_append {entry : List α × α} (member : entry ∈ code.table) (text : List α) :
    code.decode (entry.1 ++ text) = entry.2 :: code.decode text := by
  have found := entryAt_entity member text
  obtain ⟨more, -, own⟩ := code.starts entry member
  rw [own, List.cons_append] at found ⊢
  rw [decode_cons_of_entryAt found, own]
  simp

/-- A symbol is written as its entity, or as itself when it has none. The mark has one. -/
theorem encodeSymbol_cases (code : EntityCode α) (symbol : α) :
    (∃ entry ∈ code.table, entry.2 = symbol ∧ code.encodeSymbol symbol = entry.1) ∨
      (symbol ≠ code.mark ∧ (∀ entry ∈ code.table, entry.2 ≠ symbol) ∧
        code.encodeSymbol symbol = [symbol]) := by
  unfold encodeSymbol
  cases found : code.table.find? (fun entry => entry.2 = symbol) with
  | some entry =>
    have same : entry.2 = symbol := by simpa using List.find?_some found
    exact Or.inl ⟨entry, List.mem_of_find?_eq_some found, same, rfl⟩
  | none =>
    have uncoded : ∀ entry ∈ code.table, entry.2 ≠ symbol := by
      simpa using List.find?_eq_none.mp found
    obtain ⟨entry, member, isMark⟩ := code.marked
    have other : symbol ≠ code.mark := by
      rintro rfl
      exact uncoded entry member isMark
    exact Or.inr ⟨other, uncoded, rfl⟩

theorem encode_cons (code : EntityCode α) (symbol : α) (text : List α) :
    code.encode (symbol :: text) = code.encodeSymbol symbol ++ code.encode text :=
  List.flatMap_cons

theorem encode_append (code : EntityCode α) (text more : List α) :
    code.encode (text ++ more) = code.encode text ++ code.encode more :=
  List.flatMap_append

theorem decode_encodeSymbol_append (symbol : α) (text : List α) :
    code.decode (code.encodeSymbol symbol ++ text) = symbol :: code.decode text := by
  rcases code.encodeSymbol_cases symbol with ⟨entry, member, rfl, own⟩ | ⟨other, -, own⟩
  · rw [own]
    exact decode_entity_append member text
  · rw [own]
    exact decode_cons_of_none (entryAt_plain other text)

/-- The decoder recovers what was encoded and reads on behind it. -/
theorem decode_encode_append (text more : List α) :
    code.decode (code.encode text ++ more) = text ++ code.decode more := by
  induction text with
  | nil => rfl
  | cons symbol text ih =>
    rw [encode_cons, List.append_assoc, decode_encodeSymbol_append, ih]
    rfl

theorem decode_encode (text : List α) : code.decode (code.encode text) = text := by
  have alone : code.decode (code.encode text ++ []) = text ++ code.decode [] :=
    decode_encode_append text []
  rw [List.append_nil] at alone
  exact alone.trans (List.append_nil text)

theorem encode_injective (code : EntityCode α) : Function.Injective code.encode :=
  Function.LeftInverse.injective (g := code.decode) decode_encode

/-- A symbol of an encoded text belongs to an entity or has none. -/
theorem mem_encode {text : List α} {symbol : α} (member : symbol ∈ code.encode text) :
    (∃ entry ∈ code.table, symbol ∈ entry.1) ∨
      (symbol ∈ text ∧ ∀ entry ∈ code.table, entry.2 ≠ symbol) := by
  obtain ⟨origin, held, inside⟩ := List.mem_flatMap.mp member
  rcases code.encodeSymbol_cases origin with ⟨entry, coded, -, own⟩ | ⟨-, uncoded, own⟩
  · rw [own] at inside
    exact Or.inl ⟨entry, coded, inside⟩
  · rw [own, List.mem_singleton] at inside
    subst inside
    exact Or.inr ⟨held, uncoded⟩

/-- Where the mark stands in a symbol's writing, an entity begins: no entity has the
mark further on. -/
theorem entity_of_mark_in_symbol (once : ∀ entry ∈ code.table, code.mark ∉ entry.1.tail)
    {symbol : α} {front back : List α}
    (split : code.encodeSymbol symbol = front ++ code.mark :: back) :
    code.mark :: back ∈ code.table.map Prod.fst := by
  rcases code.encodeSymbol_cases symbol with ⟨entry, member, -, own⟩ | ⟨other, -, own⟩
  · rw [own] at split
    have first : front = [] := by
      cases front with
      | nil => rfl
      | cons c front =>
        refine absurd ?_ (once entry member)
        rw [split]
        simp
    rw [first, List.nil_append] at split
    exact List.mem_map.mpr ⟨entry, member, split⟩
  · have inside : code.mark ∈ [symbol] := by
      rw [← own, split]
      simp
    exact absurd (List.mem_singleton.mp inside).symm other

/-- Then every mark of an encoded text begins an entity. -/
theorem entity_of_mark (once : ∀ entry ∈ code.table, code.mark ∉ entry.1.tail) {text : List α}
    {front back : List α} (split : code.encode text = front ++ code.mark :: back) :
    ∃ entry ∈ code.table, entry.1 <+: code.mark :: back := by
  induction text generalizing front with
  | nil => simp [encode] at split
  | cons symbol text ih =>
    rw [encode_cons, List.append_eq_append_iff] at split
    rcases split with ⟨more, -, behind⟩ | ⟨more, own, behind⟩
    · exact ih behind
    · cases more with
      | nil =>
        have whole : code.encode text = [] ++ code.mark :: back := behind.symm
        exact ih whole
      | cons c more =>
        obtain ⟨rfl, rest⟩ := List.cons.inj behind
        obtain ⟨entry, member, same⟩ := List.mem_map.mp (entity_of_mark_in_symbol once own)
        refine ⟨entry, member, ?_⟩
        rw [same, rest]
        exact List.cons_prefix_cons.mpr ⟨rfl, List.prefix_append more _⟩

/-- A text of symbols without an entity is its own encoding. -/
theorem encode_eq_self {text : List α}
    (plain : ∀ symbol ∈ text, ∀ entry ∈ code.table, entry.2 ≠ symbol) :
    code.encode text = text := by
  induction text with
  | nil => rfl
  | cons symbol text ih =>
    obtain ⟨first, others⟩ := List.forall_mem_cons.mp plain
    rcases code.encodeSymbol_cases symbol with ⟨entry, member, same, -⟩ | ⟨-, -, own⟩
    · exact absurd same (first entry member)
    · rw [encode_cons, own, ih others]
      rfl

theorem length_decode_le (text : List α) : (code.decode text).length ≤ text.length := by
  induction size : text.length using Nat.strong_induction_on generalizing text with
  | _ n ih =>
    cases text with
    | nil => exact Nat.zero_le _
    | cons symbol rest =>
      rw [List.length_cons] at size
      cases found : code.entryAt (symbol :: rest) with
      | none =>
        rw [decode_cons_of_none found, List.length_cons]
        have shorter := ih rest.length (by omega) rest rfl
        omega
      | some entry =>
        rw [decode_cons_of_entryAt found, List.length_cons]
        have less := List.length_drop (i := entry.1.length - 1) (l := rest)
        have shorter := ih _ (by omega) (rest.drop (entry.1.length - 1)) rfl
        omega

/-- Each entity that is read makes the text shorter, so a text is kept only when it
has none. -/
theorem decode_eq_self_iff (text : List α) : code.decode text = text ↔ ¬ code.HasEntity text := by
  induction text with
  | nil =>
    refine iff_of_true rfl ?_
    intro ⟨entry, member, inside⟩
    obtain ⟨more, -, own⟩ := code.starts entry member
    rw [List.infix_nil.mp inside] at own
    cases own
  | cons symbol rest ih =>
    have occurs : code.HasEntity (symbol :: rest) ↔
        (code.entryAt (symbol :: rest)).isSome ∨ code.HasEntity rest := by
      unfold HasEntity entryAt
      simp only [List.infix_cons_iff, List.find?_isSome, List.isPrefixOf_iff_prefix, and_or_left,
        exists_or]
    cases found : code.entryAt (symbol :: rest) with
    | none =>
      rw [decode_cons_of_none found, occurs, found, List.cons.injEq, ih]
      simp
    | some entry =>
      rw [occurs, found]
      refine iff_of_false ?_ (by simp)
      intro same
      have member := List.mem_of_find?_eq_some found
      have starts : entry.1 <+: symbol :: rest := by simpa using List.find?_some found
      obtain ⟨more, nonempty, own⟩ := code.starts entry member
      rw [decode_cons_of_entryAt found] at same
      have positive := List.length_pos_iff.mpr nonempty
      have long := starts.length_le
      have sizes := congrArg List.length same
      have shorter : (code.decode (rest.drop (entry.1.length - 1))).length ≤
          (rest.drop (entry.1.length - 1)).length := length_decode_le _
      rw [own] at long sizes shorter
      simp only [List.length_cons, List.length_drop] at long sizes shorter
      omega

end Reading
end EntityCode
end Restio.Lib
