import Mathlib.Data.List.DropRight

/-!
# Separators, segments and steps

Sequences cut at one separator and ended early by a set of stop characters:
`segments` is everything up to the first stop character, split at the separator,
and `steps` are the leading non-empty segments, each with the text left behind
it. `squeeze` merges runs of the separator and `pieces` are the non-empty parts
between separators; splitting squeezed text and dropping one empty last part
gives exactly the pieces (`squeezed_parts`).
-/

set_option autoImplicit false

namespace Restio.Lib.Text

variable {α : Type} [DecidableEq α]

section Segments
variable (sep : α) (stop : α → Bool)

/-- A character that ends a segment. -/
def delim (c : α) : Bool := decide (c = sep) || stop c

/-- The text up to the first separator or stop character, and from there on. -/
def firstPart (text : List α) : List α := text.takeWhile (fun c => !delim sep stop c)

def afterPart (text : List α) : List α := text.dropWhile (fun c => !delim sep stop c)

def segments (text : List α) : List (List α) :=
  (text.takeWhile (fun c => !stop c)).splitOn sep

theorem afterPart_length_le (text : List α) : (afterPart sep stop text).length ≤ text.length :=
  (List.dropWhile_suffix _).length_le

/-- The leading non-empty segments, each with what follows it in the text. -/
def steps (text : List α) : List (List α × List α) :=
  if firstPart sep stop text = [] then []
  else
    (firstPart sep stop text, afterPart sep stop text) ::
      (if _next : (afterPart sep stop text).head? = some sep then
        steps (afterPart sep stop text).tail
      else [])
termination_by text.length
decreasing_by
  have shorter := afterPart_length_le sep stop text
  cases after : afterPart sep stop text with
  | nil => simp [after] at _next
  | cons c more =>
    rw [after, List.length_cons] at shorter
    exact shorter

theorem firstPart_append_afterPart (text : List α) :
    firstPart sep stop text ++ afterPart sep stop text = text :=
  List.takeWhile_append_dropWhile

/-- What is left behind a part is empty or starts at the character that ended it. -/
theorem delim_of_head_afterPart {text : List α} {c : α}
    (first : (afterPart sep stop text).head? = some c) : delim sep stop c = true := by
  have stopped := List.head?_dropWhile_not (fun c => !delim sep stop c) text
  rw [afterPart] at first
  rw [first] at stopped
  simpa using stopped

/-- One segment ends at the first separator or stop character. -/
theorem segments_eq (separates : stop sep = false) (text : List α) :
    segments sep stop text =
      firstPart sep stop text ::
        (if (afterPart sep stop text).head? = some sep then
          segments sep stop (afterPart sep stop text).tail
        else []) := by
  induction text with
  | nil => simp [segments, firstPart, afterPart]
  | cons c rest ih =>
    by_cases isSep : c = sep
    · subst isSep
      simp [segments, delim, firstPart, afterPart, separates, List.splitOn_cons_eq_if_modifyHead]
    · by_cases stops : stop c = true
      · simp [segments, delim, firstPart, afterPart, isSep, stops]
      · have kept : delim sep stop c = false := by simp [delim, isSep, stops]
        have unfolded : segments sep stop (c :: rest) =
            (segments sep stop rest).modifyHead (List.cons c) := by
          simp [segments, stops, List.splitOn_cons_eq_if_modifyHead, isSep]
        have part : firstPart sep stop (c :: rest) = c :: firstPart sep stop rest := by
          simp [firstPart, kept]
        have after : afterPart sep stop (c :: rest) = afterPart sep stop rest := by
          simp [afterPart, kept]
        rw [unfolded, ih, part, after, List.modifyHead_cons]

/-- The steps run over the leading non-empty segments. -/
theorem steps_map_fst (separates : stop sep = false) (text : List α) :
    (steps sep stop text).map Prod.fst =
      (segments sep stop text).takeWhile (fun part => !part.isEmpty) := by
  induction text using steps.induct sep stop with
  | case1 text empty =>
    rw [steps, if_pos empty, segments_eq sep stop separates, empty]
    simp
  | case2 text nonempty ih =>
    rw [steps, if_neg nonempty, segments_eq sep stop separates]
    rw [List.takeWhile_cons_of_pos (by simpa using nonempty), List.map_cons]
    congr 1
    split
    · next next => exact ih next
    · rfl

/-- A step's tail is what is left of the text behind the segments walked so far. -/
theorem steps_split {text : List α} {before : List (List α × List α)} {part after : List α}
    {rest : List (List α × List α)}
    (split : steps sep stop text = before ++ (part, after) :: rest) :
    text = [sep].intercalate (before.map Prod.fst ++ [part]) ++ after := by
  induction text using steps.induct sep stop generalizing before with
  | case1 text empty =>
    rw [steps, if_pos empty] at split
    simp at split
  | case2 text nonempty ih =>
    rw [steps, if_neg nonempty] at split
    cases before with
    | nil =>
      simp only [List.nil_append, List.cons.injEq, Prod.mk.injEq] at split
      obtain ⟨⟨rfl, rfl⟩, -⟩ := split
      simp [firstPart_append_afterPart]
    | cons step before =>
      simp only [List.cons_append, List.cons.injEq] at split
      obtain ⟨rfl, deeper⟩ := split
      split at deeper
      · next next =>
        have tailText := ih next deeper
        have headText : afterPart sep stop text = sep :: (afterPart sep stop text).tail :=
          (List.cons_head?_tail next).symm
        conv_lhs => rw [← firstPart_append_afterPart sep stop text, headText, tailText]
        simp [List.intercalate_cons_of_ne_nil]
      · simp at deeper

/-- A part free of delimiters ends at the first character behind it. -/
theorem firstPart_append {part rest : List α} (plain : ∀ c ∈ part, delim sep stop c = false)
    (after : ∀ c, rest.head? = some c → delim sep stop c = true) :
    firstPart sep stop (part ++ rest) = part ∧ afterPart sep stop (part ++ rest) = rest := by
  have kept : ∀ c ∈ part, (!delim sep stop c) = true := by
    intro c member
    simp [plain c member]
  unfold firstPart afterPart
  rw [List.takeWhile_append_of_pos kept, List.dropWhile_append_of_pos kept]
  cases rest with
  | nil => simp
  | cons c more => simp [after c rfl]

/-- Parts free of delimiters are the first segments of a text that starts with them. -/
theorem segments_intercalate (separates : stop sep = false) {parts : List (List α)}
    (nonempty : parts ≠ []) (plain : ∀ part ∈ parts, ∀ c ∈ part, delim sep stop c = false)
    {rest : List α} (after : ∀ c, rest.head? = some c → delim sep stop c = true) :
    segments sep stop ([sep].intercalate parts ++ rest) =
      parts ++ (if rest.head? = some sep then segments sep stop rest.tail else []) := by
  induction parts with
  | nil => exact absurd rfl nonempty
  | cons part more ih =>
    obtain ⟨plainPart, plainMore⟩ := List.forall_mem_cons.mp plain
    rw [segments_eq sep stop separates]
    cases more with
    | nil =>
      obtain ⟨first, left⟩ := firstPart_append sep stop plainPart after
      rw [List.intercalate_singleton, first, left]
      rfl
    | cons next more =>
      have text : [sep].intercalate (part :: next :: more) ++ rest =
          part ++ sep :: ([sep].intercalate (next :: more) ++ rest) := by
        rw [List.intercalate_cons_cons]
        simp
      have stopped : ∀ c, (sep :: ([sep].intercalate (next :: more) ++ rest)).head? = some c →
          delim sep stop c = true := by simp [delim]
      obtain ⟨first, left⟩ := firstPart_append sep stop plainPart stopped
      rw [text, first, left, List.head?_cons, if_pos rfl, List.tail_cons,
        ih (List.cons_ne_nil _ _) plainMore]
      rfl

/-- What follows a step is empty or starts with a delimiter. -/
theorem step_after {text : List α} {step : List α × List α} (member : step ∈ steps sep stop text) :
    ∀ c, step.2.head? = some c → delim sep stop c = true := by
  induction text using steps.induct sep stop with
  | case1 text empty =>
    rw [steps, if_pos empty] at member
    simp at member
  | case2 text nonempty ih =>
    rw [steps, if_neg nonempty] at member
    rcases List.mem_cons.mp member with rfl | deeper
    · exact fun c first => delim_of_head_afterPart sep stop first
    · split at deeper
      · next next => exact ih next deeper
      · simp at deeper

end Segments

omit [DecidableEq α] in
theorem mem_intercalate {sep c : α} {parts : List (List α)}
    (member : c ∈ [sep].intercalate parts) : c = sep ∨ ∃ part ∈ parts, c ∈ part := by
  induction parts with
  | nil => simp at member
  | cons part rest ih =>
    cases rest with
    | nil => exact Or.inr ⟨part, List.mem_cons_self, by simpa using member⟩
    | cons next rest =>
      rw [List.intercalate_cons_cons, List.mem_append, List.mem_append, List.mem_singleton]
        at member
      rcases member with (inPart | isSep) | deeper
      · exact Or.inr ⟨part, List.mem_cons_self, inPart⟩
      · exact Or.inl isSep
      · rcases ih deeper with isSep | ⟨other, inRest, inOther⟩
        · exact Or.inl isSep
        · exact Or.inr ⟨other, List.mem_cons_of_mem _ inRest, inOther⟩

omit [DecidableEq α] in
theorem mem_intercalate_of_mem {sep c : α} {parts : List (List α)} {part : List α}
    (member : part ∈ parts) (inPart : c ∈ part) : c ∈ [sep].intercalate parts := by
  induction parts with
  | nil => cases member
  | cons first rest ih =>
    cases rest with
    | nil =>
      rw [List.mem_singleton.mp member] at inPart
      simpa using inPart
    | cons second rest =>
      rw [List.intercalate_cons_of_ne_nil (List.cons_ne_nil _ _)]
      rcases List.mem_cons.mp member with rfl | later
      · exact List.mem_append_left _ (List.mem_append_left _ inPart)
      · exact List.mem_append_right _ (ih later)

omit [DecidableEq α] in
theorem intercalate_concat (sep : α) {parts : List (List α)} (nonempty : parts ≠ [])
    (part : List α) :
    [sep].intercalate (parts ++ [part]) = [sep].intercalate parts ++ sep :: part := by
  induction parts with
  | nil => exact absurd rfl nonempty
  | cons first rest ih =>
    cases rest with
    | nil => simp
    | cons next rest =>
      rw [List.cons_append, List.cons_append, List.intercalate_cons_cons, ← List.cons_append,
        ih (List.cons_ne_nil _ _), List.intercalate_cons_cons]
      simp

omit [DecidableEq α] in
/-- Joined parts are no shorter than the first of them. -/
theorem length_le_intercalate (sep : α) (part : List α) (rest : List (List α)) :
    part.length ≤ ([sep].intercalate (part :: rest)).length := by
  cases rest with
  | nil => simp
  | cons next rest =>
    rw [List.intercalate_cons_cons]
    simp

section Trim
variable (sep : α)

def trimRight (text : List α) : List α := text.rdropWhile (fun c => decide (c = sep))

def trim (text : List α) : List α := trimRight sep (text.dropWhile (fun c => decide (c = sep)))

theorem mem_of_mem_trim {text : List α} {c : α} (member : c ∈ trim sep text) : c ∈ text :=
  (List.dropWhile_suffix _).subset ((List.rdropWhile_prefix _ _).subset member)

/-- Trimming loses separators only. -/
theorem mem_trim {text : List α} {c : α} (member : c ∈ text) (other : c ≠ sep) :
    c ∈ trim sep text := by
  have front : c ∈ text.dropWhile (fun c => decide (c = sep)) := by
    rw [← List.takeWhile_append_dropWhile (p := fun c => decide (c = sep)) (l := text)] at member
    rcases List.mem_append.mp member with dropped | kept
    · exact absurd (by simpa using List.mem_takeWhile_imp dropped) other
    · exact kept
  rw [← List.rdropWhile_append_rtakeWhile (p := fun c => decide (c = sep))
    (l := text.dropWhile (fun c => decide (c = sep)))] at front
  rcases List.mem_append.mp front with kept | dropped
  · exact kept
  · exact absurd (by simpa using List.mem_rtakeWhile_imp dropped) other

/-- Trimmed text is text that neither starts nor ends at a separator. -/
theorem trim_eq_self_iff (text : List α) :
    trim sep text = text ↔ text.head? ≠ some sep ∧ text.getLast? ≠ some sep := by
  have right : ∀ kept : List α, trimRight sep kept = kept ↔ kept.getLast? ≠ some sep := by
    intro kept
    rw [trimRight, List.rdropWhile_eq_self_iff]
    cases kept using List.reverseRecOn <;> simp
  constructor
  · intro same
    have bound := (List.rdropWhile_prefix (fun c => decide (c = sep))
      (l := text.dropWhile (fun c => decide (c = sep)))).length_le
    have left : text.dropWhile (fun c => decide (c = sep)) = text := by
      refine (List.dropWhile_suffix _).eq_of_length_le ?_
      calc text.length = (trim sep text).length := by rw [same]
        _ ≤ _ := bound
    rw [trim, left] at same
    refine ⟨fun first => ?_, (right text).mp same⟩
    cases text with
    | nil => simp at first
    | cons c rest =>
      have isSep : c = sep := by simpa using first
      rw [List.dropWhile_cons_of_pos (by simpa using isSep)] at left
      have shorter := (List.dropWhile_suffix (fun c => decide (c = sep)) (l := rest)).length_le
      rw [left, List.length_cons] at shorter
      omega
  · rintro ⟨first, last⟩
    have left : text.dropWhile (fun c => decide (c = sep)) = text := by
      cases text with
      | nil => rfl
      | cons c rest => exact List.dropWhile_cons_of_neg (by simpa using first)
    rw [trim, left]
    exact (right text).mpr last

end Trim

section Pieces
variable (sep : α)

/-- The non-empty parts between separators. -/
def pieces (text : List α) : List (List α) :=
  (text.splitOn sep).filter (fun part => !part.isEmpty)

theorem sep_not_mem_of_mem_splitOn {text part : List α} (member : part ∈ text.splitOn sep) :
    sep ∉ part := by
  induction text generalizing part with
  | nil => simp_all
  | cons c rest ih =>
    rw [List.splitOn_cons_eq_if_modifyHead] at member
    split at member
    · rcases List.mem_cons.mp member with rfl | deeper
      · exact List.not_mem_nil
      · exact ih deeper
    · rename_i other
      obtain ⟨first, more, parts⟩ := List.exists_cons_of_ne_nil (List.splitOn_ne_nil sep rest)
      rw [parts, List.modifyHead_cons] at member
      rcases List.mem_cons.mp member with rfl | deeper
      · have plain := ih (parts ▸ List.mem_cons_self)
        simp only [List.mem_cons, not_or]
        exact ⟨fun same => other (by simp [same]), plain⟩
      · exact ih (parts ▸ List.mem_cons_of_mem _ deeper)

/-- A text continued by another goes on in its last part. -/
theorem splitOn_append (text more : List α) :
    ∃ front last, text.splitOn sep = front ++ [last] ∧
      (text ++ more).splitOn sep =
        front ++ (more.splitOn sep).modifyHead (fun part => last ++ part) := by
  induction text with
  | nil =>
    refine ⟨[], [], by simp, ?_⟩
    cases parts : more.splitOn sep <;> simp [parts]
  | cons c text ih =>
    obtain ⟨front, last, own, continued⟩ := ih
    rw [List.cons_append, List.splitOn_cons_eq_if_modifyHead, List.splitOn_cons_eq_if_modifyHead,
      own, continued]
    by_cases isSep : (c == sep) = true
    · rw [if_pos isSep, if_pos isSep]
      exact ⟨[] :: front, last, rfl, rfl⟩
    · rw [if_neg isSep, if_neg isSep]
      cases front with
      | nil =>
        refine ⟨[], c :: last, rfl, ?_⟩
        cases more.splitOn sep <;> rfl
      | cons part front => exact ⟨(c :: part) :: front, last, rfl, rfl⟩

/-- Continued by a character that is no separator, a text keeps its pieces but the
last, which that character joins or starts. -/
theorem pieces_append_cons {c : α} (other : c ≠ sep) (text more : List α) :
    ∃ front last rest tail, pieces sep text = front ++ (if last = [] then [] else [last]) ∧
      pieces sep (text ++ c :: more) = front ++ (last ++ c :: tail) :: rest := by
  obtain ⟨front, last, own, continued⟩ := splitOn_append sep text (c :: more)
  obtain ⟨tail, rest, parts⟩ : ∃ tail rest, (c :: more).splitOn sep = (c :: tail) :: rest := by
    rw [List.splitOn_cons_eq_if_modifyHead, if_neg (by simpa using other)]
    obtain ⟨part, rest, parts⟩ := List.exists_cons_of_ne_nil (List.splitOn_ne_nil sep more)
    exact ⟨part, rest, by rw [parts]; rfl⟩
  refine ⟨front.filter (fun part => !part.isEmpty), last,
    rest.filter (fun part => !part.isEmpty), tail, ?_, ?_⟩
  · rw [pieces, own, List.filter_append]
    cases last <;> rfl
  · rw [pieces, continued, parts]
    simp

/-- Merge adjacent separators. -/
def squeeze : List α → List α
  | [] => []
  | [c] => [c]
  | c :: d :: rest =>
      if c = sep ∧ d = sep then squeeze (d :: rest) else c :: squeeze (d :: rest)

theorem pieces_dropWhile (text : List α) :
    pieces sep (text.dropWhile (fun c => decide (c = sep))) = pieces sep text := by
  induction text with
  | nil => rfl
  | cons c rest ih =>
    by_cases isSep : c = sep
    · subst isSep
      rw [List.dropWhile_cons_of_pos (by simp), ih]
      simp [pieces, List.splitOn_cons_eq_if_modifyHead]
    · rw [List.dropWhile_cons_of_neg (by simpa using isSep)]

/-- Squeezing keeps the first part and the non-empty ones among the others. -/
theorem splitOn_squeeze (text : List α) :
    ((squeeze sep text).splitOn sep).head? = (text.splitOn sep).head? ∧
      ((squeeze sep text).splitOn sep).tail.filter (fun part => !part.isEmpty) =
        (text.splitOn sep).tail.filter (fun part => !part.isEmpty) := by
  induction text using squeeze.induct sep with
  | case1 => exact ⟨rfl, rfl⟩
  | case2 c => exact ⟨rfl, rfl⟩
  | case3 c d rest both ih =>
    obtain ⟨rfl, rfl⟩ := both
    rw [squeeze, if_pos ⟨rfl, rfl⟩, ih.1, ih.2]
    simp [List.splitOn_cons_eq_if_modifyHead]
  | case4 c d rest notBoth ih =>
    rw [squeeze, if_neg notBoth]
    obtain ⟨p, ps, parts⟩ :=
      List.exists_cons_of_ne_nil (List.splitOn_ne_nil sep (squeeze sep (d :: rest)))
    obtain ⟨q, qs, parts'⟩ := List.exists_cons_of_ne_nil (List.splitOn_ne_nil sep (d :: rest))
    rw [parts, parts'] at ih
    simp only [List.head?_cons, Option.some.injEq, List.tail_cons] at ih
    rw [List.splitOn_cons_eq_if_modifyHead, List.splitOn_cons_eq_if_modifyHead c (d :: rest),
      parts, parts', ih.1]
    by_cases isSep : c = sep
    · simp [isSep, List.filter_cons, ih.2]
    · simp [isSep, ih.2]

/-- In squeezed text only the first and the last part can be empty. -/
theorem squeeze_inner_nonempty (text : List α) :
    ∀ part ∈ ((squeeze sep text).splitOn sep).tail.dropLast, part ≠ [] := by
  induction text using squeeze.induct sep with
  | case1 => simp [squeeze]
  | case2 c =>
    by_cases isSep : c = sep <;> simp [squeeze, List.splitOn_cons_eq_if_modifyHead, isSep]
  | case3 c d rest both ih =>
    rw [squeeze, if_pos both]
    exact ih
  | case4 c d rest notBoth ih =>
    rw [squeeze, if_neg notBoth]
    obtain ⟨p, ps, parts⟩ :=
      List.exists_cons_of_ne_nil (List.splitOn_ne_nil sep (squeeze sep (d :: rest)))
    rw [List.splitOn_cons_eq_if_modifyHead, parts]
    rw [parts, List.tail_cons] at ih
    by_cases isSep : c = sep
    · have other : d ≠ sep := fun same => notBoth ⟨isSep, same⟩
      have firstNonempty : p ≠ [] := by
        have heads := (splitOn_squeeze sep (d :: rest)).1
        obtain ⟨q, qs, parts'⟩ := List.exists_cons_of_ne_nil (List.splitOn_ne_nil sep rest)
        rw [parts, List.splitOn_cons_eq_if_modifyHead, parts'] at heads
        have first : p = d :: q := by simpa [other] using heads
        simp [first]
      cases ps with
      | nil => simp [isSep]
      | cons p' ps =>
        intro part member
        have split : part = p ∨ part ∈ (p' :: ps).dropLast := by simpa [isSep] using member
        rcases split with rfl | inner
        · exact firstNonempty
        · exact ih part inner
    · simpa [isSep] using ih

/-- Filtering a list whose parts before the last are all kept drops at most the last. -/
theorem filter_nonempty_of_dropLast {parts : List (List α)}
    (inner : ∀ part ∈ parts.dropLast, part ≠ []) :
    parts.filter (fun part => !part.isEmpty) =
      if parts.getLast? = some [] then parts.dropLast else parts := by
  induction parts using List.reverseRecOn with
  | nil => simp
  | append_singleton front last _ =>
    rw [List.dropLast_concat] at inner ⊢
    have kept : front.filter (fun part => !part.isEmpty) = front :=
      List.filter_eq_self.mpr (fun part member => by simpa using inner part member)
    by_cases empty : last = []
    · simp [empty, List.filter_append, kept]
    · simp [empty, List.filter_append, kept]

/-- Splitting squeezed text that does not start at a separator and dropping an
empty last part leaves the pieces of the original text. -/
theorem squeezed_parts {text : List α} {c : α} (first : text.head? = some c) (other : c ≠ sep) :
    (if ((squeeze sep text).splitOn sep).getLast? = some [] then
        ((squeeze sep text).splitOn sep).dropLast
      else (squeeze sep text).splitOn sep) = pieces sep text := by
  obtain ⟨heads, tails⟩ := splitOn_squeeze sep text
  have inner := squeeze_inner_nonempty sep text
  obtain ⟨p, ps, parts⟩ :=
    List.exists_cons_of_ne_nil (List.splitOn_ne_nil sep (squeeze sep text))
  obtain ⟨q, qs, parts'⟩ := List.exists_cons_of_ne_nil (List.splitOn_ne_nil sep text)
  rw [parts, parts', List.head?_cons, List.head?_cons, Option.some.injEq] at heads
  rw [parts, parts', List.tail_cons, List.tail_cons] at tails
  rw [parts, List.tail_cons] at inner
  have firstNonempty : p ≠ [] := by
    obtain ⟨c', rest, rfl⟩ : ∃ c' rest, text = c' :: rest := by
      cases text with
      | nil => simp at first
      | cons c' rest => exact ⟨c', rest, rfl⟩
    obtain ⟨r, rs, restParts⟩ := List.exists_cons_of_ne_nil (List.splitOn_ne_nil sep rest)
    have same : c' = c := by simpa using first
    rw [List.splitOn_cons_eq_if_modifyHead, restParts, same] at parts'
    have shape : (c :: r) = q := by simpa [other] using congrArg List.head? parts'
    rw [heads, ← shape]
    simp
  rw [parts, ← filter_nonempty_of_dropLast, pieces, parts', List.filter_cons, List.filter_cons,
    tails, heads]
  intro part member
  cases ps with
  | nil => simp at member
  | cons p' ps =>
    rcases List.mem_cons.mp (by simpa using member) with rfl | deeper
    · exact firstNonempty
    · exact inner part (by simpa using deeper)

/-- The text is the parts with one separator or more between them and any number of
separators before and behind. -/
inductive Spells : List (List α) → List α → Prop
  | none (n : Nat) : Spells [] (List.replicate n sep)
  | part (n : Nat) {part : List α} {parts : List (List α)} {rest : List α}
      (spells : Spells parts rest) (apart : parts = [] ∨ rest.head? = some sep) :
      Spells (part :: parts) (List.replicate n sep ++ part ++ rest)

theorem pieces_replicate_append (n : Nat) (text : List α) :
    pieces sep (List.replicate n sep ++ text) = pieces sep text := by
  have leading : (List.replicate n sep ++ text).dropWhile (fun c => decide (c = sep)) =
      text.dropWhile (fun c => decide (c = sep)) := by
    simp
  rw [← pieces_dropWhile, leading, pieces_dropWhile]

theorem pieces_replicate (n : Nat) : pieces sep (List.replicate n sep) = [] := by
  have alone := pieces_replicate_append sep n []
  rw [List.append_nil] at alone
  exact alone

/-- The pieces on the two sides of a separator. -/
theorem pieces_append_sep (text more : List α) :
    pieces sep (text ++ sep :: more) = pieces sep text ++ pieces sep more := by
  obtain ⟨front, last, split, continued⟩ := splitOn_append sep text (sep :: more)
  have parts : (sep :: more).splitOn sep = [] :: more.splitOn sep := by
    rw [List.splitOn_cons_eq_if_modifyHead, if_pos (beq_self_eq_true sep)]
  rw [parts, List.modifyHead_cons, List.append_nil] at continued
  rw [pieces, continued, pieces, split, pieces, ← List.filter_append, List.append_assoc]
  rfl

theorem pieces_part {part : List α} (nonempty : part ≠ []) (plain : sep ∉ part) :
    pieces sep part = [part] := by
  have whole : ([sep].intercalate [part]).splitOn sep = [part] :=
    List.splitOn_intercalate sep (by simpa using plain) (by simp)
  have own : part.splitOn sep = [part] := by simpa using whole
  rw [pieces, own]
  simp [nonempty]

/-- A plain part before a separator is the first piece. -/
theorem pieces_part_append {part rest : List α} (nonempty : part ≠ []) (plain : sep ∉ part)
    (stops : rest = [] ∨ rest.head? = some sep) :
    pieces sep (part ++ rest) = part :: pieces sep rest := by
  rcases stops with rfl | stops
  · rw [List.append_nil, pieces_part sep nonempty plain]
    rfl
  · obtain ⟨more, rfl⟩ := List.head?_eq_some_iff.mp stops
    have leading : pieces sep (sep :: more) = pieces sep more := pieces_append_sep sep [] more
    rw [pieces_append_sep, pieces_part sep nonempty plain, leading]
    rfl

/-- The pieces of a text are the non-empty plain parts it spells. -/
theorem Spells.pieces_eq {parts : List (List α)} {text : List α} (spells : Spells sep parts text)
    (nonempty : ∀ part ∈ parts, part ≠ []) (plain : ∀ part ∈ parts, sep ∉ part) :
    pieces sep text = parts := by
  induction spells with
  | none n => exact pieces_replicate sep n
  | @part n part parts rest spells apart ih =>
    obtain ⟨first, others⟩ := List.forall_mem_cons.mp nonempty
    obtain ⟨firstPlain, othersPlain⟩ := List.forall_mem_cons.mp plain
    rw [List.append_assoc, pieces_replicate_append]
    have stops : rest = [] ∨ rest.head? = some sep := by
      rcases apart with rfl | stops
      · cases spells with
        | none k => cases k <;> simp [List.replicate_succ]
      · exact Or.inr stops
    rw [pieces_part_append sep first firstPlain stops, ih others othersPlain]

end Pieces
end Restio.Lib.Text
