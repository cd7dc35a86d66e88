import Restio.Guarantees.IntrospectionPage

/-!
# The escape of the introspection page

`htmlEscape` is an encoding: what it writes has no markup, every `&` in it begins
one of the five entities, and the decoder of these recovers the text, also when the
text has entities or fragments of them in it (`htmlEscape_lossless`). Nothing is said
about texts that `htmlEscape` has not written.
-/

set_option autoImplicit false

namespace Restio.Guarantees.HtmlEscape
open Restio.Lib Restio.Source.Http Restio.Source.RestHandler Restio.Guarantees.IntrospectionPage

/-- No markup, and no `&` but at the start of an entity. -/
structure Escaped (text : Str) : Prop where
  markupFree : ∀ c ∈ ['<', '>', '\x22', '\x27'], c ∉ text
  entity : ∀ front back, text = front ++ '&' :: back →
    ∃ entry ∈ entities.table, entry.1 <+: '&' :: back

/-- Each character of markup has its entity, and no entity is written with one. -/
theorem markup_coded {c : Char} (markup : c ∈ ['<', '>', '\x22', '\x27']) :
    (∃ entry ∈ entities.table, entry.2 = c) ∧ ∀ entry ∈ entities.table, c ∉ entry.1 := by
  simp only [List.mem_cons, List.not_mem_nil, or_false] at markup
  rcases markup with rfl | rfl | rfl | rfl
  all_goals exact ⟨by decide, by decide⟩

theorem escaped_htmlEscape (data : Str) : Escaped (htmlEscape data) where
  markupFree := by
    intro c markup
    have ⟨coded, noneWithin⟩ := markup_coded markup
    exact not_mem_htmlEscape coded noneWithin data
  entity := by
    have once : ∀ entry ∈ entities.table, entities.mark ∉ entry.1.tail := by decide +kernel
    intro front back split
    rw [htmlEscape_eq] at split
    exact EntityCode.entity_of_mark once split

/-- For all strings: the escape is free of markup, is decoded to the original, tells
different strings apart and is made character by character. -/
theorem htmlEscape_lossless (a b : Str) :
    Escaped (htmlEscape a) ∧ entities.decode (htmlEscape a) = a ∧
      (htmlEscape a = htmlEscape b ↔ a = b) ∧
      htmlEscape (a ++ b) = htmlEscape a ++ htmlEscape b := by
  refine ⟨escaped_htmlEscape a, (shows_htmlEscape a).decoded, ?_, ?_⟩
  · rw [htmlEscape_eq, htmlEscape_eq]
    exact entities.encode_injective.eq_iff
  · rw [htmlEscape_eq, htmlEscape_eq, htmlEscape_eq]
    exact entities.encode_append a b

end Restio.Guarantees.HtmlEscape
