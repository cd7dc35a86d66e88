import Restio.Lib.EntityCode
import Restio.Source.RestHandler

/-!
# The introspection page

`handleAPIIntrospection` escapes a method's URI, but not the dumps of its input and
output examples: an example with markup in it puts markup into the page, and one
with the text of an entity is shown as something else
(`unescaped_example_is_markup`). `page_shows_registered_iff` says that these
examples are the only ones: the rows stand in place of the template's own `{api}`
whatever the methods' texts are, and the URI cells always decode to the URIs.

Comment and response status are not escaped either; nothing is said about them.
-/

set_option autoImplicit false

namespace Restio.Guarantees.IntrospectionPage
open Restio.Lib Restio.Source.Http Restio.Source.ApiMapper Restio.Source.RestHandler

variable {J H : Type}

/-- The five entities of `htmlEscape`. -/
def entities : EntityCode Char where
  table :=
    [("&amp;".toList, '&'), ("&quot;".toList, '\x22'), ("&apos;".toList, '\x27'),
      ("&lt;".toList, '<'), ("&gt;".toList, '>')]
  mark := '&'
  starts := by
    intro entry member
    simp only [List.mem_cons, List.not_mem_nil, or_false] at member
    rcases member with rfl | rfl | rfl | rfl | rfl <;> exact ⟨_, by decide, rfl⟩
  prefixFree := by decide
  marked := ⟨("&amp;".toList, '&'), List.mem_cons_self, rfl⟩

theorem htmlEscape_eq (data : Str) : htmlEscape data = entities.encode data := by
  have each : ∀ c, htmlEscapeChar c = entities.encodeSymbol c := by
    intro c
    unfold htmlEscapeChar
    split_ifs with amp quot apos lt gt
    · rw [amp]; rfl
    · rw [quot]; rfl
    · rw [apos]; rfl
    · rw [lt]; rfl
    · rw [gt]; rfl
    · simp [EntityCode.encodeSymbol, entities, Ne.symm amp, Ne.symm quot, Ne.symm apos, Ne.symm lt,
        Ne.symm gt]
  unfold htmlEscape EntityCode.encode
  rw [funext each]

/-- The contents of a row's cells. -/
structure Cells where
  uri : Str
  method : Str
  comment : Str
  input : Str
  output : Str
  status : Str

/-- The cells of a method's row. -/
def introCells (dump : J → Str) (uriPrefix : Str) (m : Method J H) : Cells where
  uri := uriPrefix ++ htmlEscape m.uri
  method := m.method.toStr
  comment := m.comment
  input := dump m.inputExample
  output := dump m.outputExample
  status := m.responseStatus

/-- The cells between their tags. -/
def Cells.row (cells : Cells) : Str :=
  "<tr><td>".toList ++ cells.uri ++ "</td><td>".toList ++ cells.method ++ "</td><td>".toList ++
    cells.comment ++ "</td><td class=\"code\"><pre>".toList ++ cells.input ++
    "</pre></td><td class=\"code\"><pre>".toList ++ cells.output ++ "</pre></td><td>".toList ++
    cells.status ++ "</td></tr>".toList

theorem introRow_eq (dump : J → Str) (uriPrefix : Str) (m : Method J H) :
    introRow dump uriPrefix m = (introCells dump uriPrefix m).row := by
  unfold introRow Cells.row introCells
  simp only [List.append_assoc]

/-- A cell without markup that decodes to the text. -/
structure Shows (cell text : Str) : Prop where
  noOpening : '<' ∉ cell
  noClosing : '>' ∉ cell
  decoded : entities.decode cell = text

/-- The text that `{api}` stands in, up to it and behind it. -/
def introTableHead : Str :=
  ("</h2>\n" ++
    "<table border=\"1\" class=\"methods\">\n" ++
    "  <tr><th>URI</th>\n" ++
    "      <th>Method</th>\n" ++
    "      <th>Description</th>\n" ++
    "      <th width=\"35%\">Input</th>\n" ++
    "      <th width=\"35%\">Output</th>\n" ++
    "      <th>Status codes</th>\n" ++
    "  </tr>\n").toList

def introTableFoot : Str :=
  ("\n" ++
    "</table>\n" ++
    "</body>\n" ++
    "</html>").toList

theorem introTable_eq :
    introTable = introTableHead ++ ("\x7bapi\x7d".toList ++ introTableFoot) := by
  have line : "\x7bapi\x7d\n".toList = "\x7bapi\x7d".toList ++ "\n".toList := by decide +kernel
  unfold introTable introTableHead introTableFoot
  simp only [String.toList_append, line, List.append_assoc]

/-- Nowhere in the text stand the two characters in a row, and the first is not its
last. -/
def avoids (first second : Char) : Str → Bool
  | [] => true
  | [c] => c ≠ first
  | c :: d :: rest => !(c = first && d = second) && avoids first second (d :: rest)

/-- A search text is not found where its first two characters are not. -/
theorem replaceFirst_avoids (first second : Char) (more format : Str) {front : Str}
    (avoidsFront : avoids first second front = true) (back : Str) :
    replaceFirst (first :: second :: more) format (front ++ back) =
      front ++ replaceFirst (first :: second :: more) format back := by
  induction front using avoids.induct with
  | case1 => rfl
  | case2 c =>
    have other : c ≠ first := by simpa [avoids] using avoidsFront
    simp [replaceFirst, Ne.symm other]
  | case3 c d rest ih =>
    rw [avoids, Bool.and_eq_true] at avoidsFront
    have apart : ¬ (first = c ∧ second = d) := by
      rintro ⟨rfl, rfl⟩
      simpa using avoidsFront.1
    have deeper := ih avoidsFront.2
    rw [List.cons_append] at deeper
    rw [List.cons_append, List.cons_append, replaceFirst, if_neg, deeper]
    · rfl
    · simpa [List.isPrefixOf] using fun same next => absurd ⟨same, next⟩ apart

theorem avoids_of_not_mem {first second : Char} {text : Str} (absent : first ∉ text) :
    avoids first second text = true := by
  induction text using avoids.induct with
  | case1 => rfl
  | case2 c =>
    have other : c ≠ first := Ne.symm (List.ne_of_not_mem_cons absent)
    exact decide_eq_true other
  | case3 c d rest ih =>
    rw [List.mem_cons, not_or] at absent
    have other : c ≠ first := Ne.symm absent.1
    rw [avoids, ih absent.2, Bool.and_true, decide_eq_false other]
    rfl

theorem avoids_append {first second : Char} {front back : Str}
    (avoidsFront : avoids first second front = true)
    (avoidsBack : avoids first second back = true) :
    avoids first second (front ++ back) = true := by
  induction front using avoids.induct with
  | case1 => exact avoidsBack
  | case2 c =>
    have other : c ≠ first := by simpa [avoids] using avoidsFront
    cases back with
    | nil => exact avoidsFront
    | cons d back => simp [avoids, avoidsBack, other]
  | case3 c d rest ih =>
    rw [avoids, Bool.and_eq_true] at avoidsFront
    rw [List.cons_append, List.cons_append, avoids, avoidsFront.1, ← List.cons_append,
      ih avoidsFront.2]
    rfl

/-- A literal unifies with the text of its characters, which spares the kernel to
decode it. -/
theorem avoids_literal {first second : Char} {text : Str}
    (avoidsText : avoids first second text = true) :
    avoids first second (String.ofList text).toList = true := by
  rwa [String.toList_ofList]

theorem introStyle_avoids : avoids '\x7b' 'a' introStyle = true := by
  unfold introStyle
  simp only [String.toList_append]
  iterate 10 refine avoids_append ?_ (avoids_literal (by decide +kernel))
  exact avoids_literal (by decide +kernel)

theorem introHead_avoids : avoids '\x7b' 'a' introHead = true := by
  unfold introHead
  simp only [String.toList_append]
  iterate 3 refine avoids_append ?_ (avoids_literal (by decide +kernel))
  exact avoids_literal (by decide +kernel)

theorem introHead_ne_nil : introHead ≠ [] := by
  unfold introHead
  simp only [String.toList_append]
  decide +kernel

theorem introTableHead_avoids : avoids '\x7b' 'a' introTableHead = true := by
  unfold introTableHead
  simp only [String.toList_append]
  iterate 8 refine avoids_append ?_ (avoids_literal (by decide +kernel))
  exact avoids_literal (by decide +kernel)

theorem render_avoids (version : Int) : avoids '\x7b' 'a' (Decimal.render version) = true := by
  refine avoids_of_not_mem ?_
  intro member
  rcases Decimal.mem_render member with sign | digit
  · exact absurd sign (by decide)
  · exact absurd digit (by decide)

/-- The rows of all methods, in order. -/
def introRows (dump : J → Str) (api : API J H) : Str :=
  api.methods.flatMap (fun m =>
    (introCells dump ("/api/v".toList ++ Decimal.render api.version ++ "/".toList) m).row)

/-- The page shows what was registered. -/
structure ShowsRegistered (dump : J → Str) (api : API J H) : Prop where
  /-- The rows stand where the template has its placeholder. -/
  page : ∀ response, (handleAPIIntrospection dump api response).body =
    introHead ++ Decimal.render api.version ++ introStyle ++ Decimal.render api.version ++
      introTableHead ++ introRows dump api ++ introTableFoot
  uri : ∀ m ∈ api.methods,
    Shows (introCells dump ("/api/v".toList ++ Decimal.render api.version ++ "/".toList) m).uri
      ("/api/v".toList ++ Decimal.render api.version ++ "/".toList ++ m.uri)
  input : ∀ m ∈ api.methods,
    Shows (introCells dump ("/api/v".toList ++ Decimal.render api.version ++ "/".toList) m).input
      (dump m.inputExample)
  output : ∀ m ∈ api.methods,
    Shows (introCells dump ("/api/v".toList ++ Decimal.render api.version ++ "/".toList) m).output
      (dump m.outputExample)

/-- The text has no markup and no entity in it. -/
def Plain (text : Str) : Prop := '<' ∉ text ∧ '>' ∉ text ∧ ¬ entities.HasEntity text

theorem replaceFirst_self {search : Str} (nonempty : search ≠ []) (format back : Str) :
    replaceFirst search format (search ++ back) = format ++ back := by
  cases search with
  | nil => exact absurd rfl nonempty
  | cons c more =>
    rw [List.cons_append, replaceFirst, if_pos (by simp), ← List.cons_append, List.drop_left]

/-- The rows take the placeholder's place, whatever texts are in them. -/
theorem page_eq (dump : J → Str) (api : API J H) (response : Response) :
    (handleAPIIntrospection dump api response).body =
      introHead ++ Decimal.render api.version ++ introStyle ++ Decimal.render api.version ++
        introTableHead ++ introRows dump api ++ introTableFoot := by
  have placeholder : "\x7bapi\x7d".toList = '\x7b' :: 'a' :: "pi\x7d".toList := by decide +kernel
  have rows : api.methods.flatMap (introRow dump
      ("/api/v".toList ++ Decimal.render api.version ++ "/".toList)) = introRows dump api := by
    unfold introRows
    rw [funext (introRow_eq dump _)]
  have spliced : ∀ format, replaceFirst "\x7bapi\x7d".toList format
      (introHead ++ Decimal.render api.version ++ introStyle ++ Decimal.render api.version ++
        introTable) =
      introHead ++ Decimal.render api.version ++ introStyle ++ Decimal.render api.version ++
        introTableHead ++ format ++ introTableFoot := by
    intro format
    rw [introTable_eq, placeholder]
    simp only [List.append_assoc]
    rw [replaceFirst_avoids _ _ _ _ introHead_avoids, replaceFirst_avoids _ _ _ _ (render_avoids _),
      replaceFirst_avoids _ _ _ _ introStyle_avoids, replaceFirst_avoids _ _ _ _ (render_avoids _),
      replaceFirst_avoids _ _ _ _ introTableHead_avoids, replaceFirst_self (List.cons_ne_nil _ _)]
  unfold handleAPIIntrospection makeOkResponse
  simp only [spliced, rows]
  rw [if_pos]
  simp only [List.length_append]
  have filled := List.length_pos_iff.mpr introHead_ne_nil
  omega

/-- A character that is escaped and stands in no entity is gone. -/
theorem not_mem_htmlEscape {c : Char} (coded : ∃ entry ∈ entities.table, entry.2 = c)
    (outside : ∀ entry ∈ entities.table, c ∉ entry.1) (data : Str) : c ∉ htmlEscape data := by
  intro member
  rw [htmlEscape_eq] at member
  rcases EntityCode.mem_encode member with ⟨entry, held, inside⟩ | ⟨-, uncoded⟩
  · exact outside entry held inside
  · obtain ⟨entry, held, same⟩ := coded
    exact uncoded entry held same

/-- An escaped text has no markup and shows its original. -/
theorem shows_htmlEscape (data : Str) : Shows (htmlEscape data) data := by
  have table : ∀ entry ∈ entities.table, '<' ∉ entry.1 ∧ '>' ∉ entry.1 := by decide +kernel
  refine ⟨not_mem_htmlEscape (by decide +kernel) (fun entry held => (table entry held).1) data,
    not_mem_htmlEscape (by decide +kernel) (fun entry held => (table entry held).2) data, ?_⟩
  rw [htmlEscape_eq]
  exact EntityCode.decode_encode data

/-- The prefix of the URI cells is its own encoding. -/
theorem uriPrefix_append_htmlEscape (version : Int) (uri : Str) :
    "/api/v".toList ++ Decimal.render version ++ "/".toList ++ htmlEscape uri =
      htmlEscape ("/api/v".toList ++ Decimal.render version ++ "/".toList ++ uri) := by
  have plainChar : ∀ c ∈ "/api/v".toList ++ Decimal.render version ++ "/".toList,
      ∀ entry ∈ entities.table, entry.2 ≠ c := by
    have symbols : ∀ entry ∈ entities.table, entry.2 ∉ "/api/v".toList ∧ entry.2 ∉ "/".toList ∧
        entry.2 ≠ '-' ∧ entry.2.isDigit = false := by
      decide +kernel
    intro c member entry held same
    subst same
    obtain ⟨noLetter, noSlash, notSign, notDigit⟩ := symbols entry held
    rcases List.mem_append.mp member with inside | last
    · rcases List.mem_append.mp inside with first | number
      · exact noLetter first
      · rcases Decimal.mem_render number with sign | digit
        · exact notSign sign
        · rw [digit] at notDigit
          cases notDigit
    · exact noSlash last
  have kept : entities.encode ("/api/v".toList ++ Decimal.render version ++ "/".toList) =
      "/api/v".toList ++ Decimal.render version ++ "/".toList :=
    EntityCode.encode_eq_self plainChar
  rw [htmlEscape_eq (_ ++ uri), EntityCode.encode_append, kept, ← htmlEscape_eq]

/-- An unescaped text shows itself exactly when it is plain. -/
theorem shows_self_iff (text : Str) : Shows text text ↔ Plain text := by
  constructor
  · intro shows
    exact ⟨shows.noOpening, shows.noClosing, (EntityCode.decode_eq_self_iff text).mp shows.decoded⟩
  · intro ⟨noOpening, noClosing, noEntity⟩
    exact ⟨noOpening, noClosing, (EntityCode.decode_eq_self_iff text).mpr noEntity⟩

/-- For every API and every way to dump examples: the page shows what was registered
if and only if the dumps of all examples are free of markup and entities. -/
theorem page_shows_registered_iff (dump : J → Str) (api : API J H) :
    ShowsRegistered dump api ↔
      ∀ m ∈ api.methods, Plain (dump m.inputExample) ∧ Plain (dump m.outputExample) := by
  constructor
  · intro shown m member
    exact ⟨(shows_self_iff _).mp (shown.input m member),
      (shows_self_iff _).mp (shown.output m member)⟩
  · intro plain
    refine ⟨page_eq dump api, ?_, ?_, ?_⟩
    · intro m _
      unfold introCells
      rw [uriPrefix_append_htmlEscape]
      exact shows_htmlEscape _
    · intro m member
      exact (shows_self_iff _).mpr (plain m member).1
    · intro m member
      exact (shows_self_iff _).mpr (plain m member).2

/-- A method whose input example is the JSON string `<b>`, dumped with its quotes. -/
def boldExample : API Str Nat where
  methods := [⟨.put, "note".toList, [], "<b>".toList, [], [], 1⟩]

def dumpString (text : Str) : Str := '\x22' :: text ++ ['\x22']

/-- The example's cell has the markup of the example in it. -/
theorem unescaped_example_is_markup :
    boldExample.methods.map (fun m => (introCells dumpString [] m).input) =
        [['\x22', '<', 'b', '>', '\x22']] ∧
      ¬ ShowsRegistered dumpString boldExample := by
  have cells : boldExample.methods.map (fun m => (introCells dumpString [] m).input) =
      [['\x22', '<', 'b', '>', '\x22']] := by decide +kernel
  refine ⟨cells, ?_⟩
  intro shown
  refine (shown.input _ List.mem_cons_self).noOpening ?_
  decide +kernel

end Restio.Guarantees.IntrospectionPage
