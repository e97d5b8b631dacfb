import NassiChart.Proofs.Escaped

/-! # Reading comma text back

`readEntries` takes a comma text apart, as a reader sees it: every entry stands between quotes, a
quote inside of an entry is doubled, and a comma stands between one entry and the next.  It gives
the lines back that a comma text was made from (`readEntries_commaLines`).  `readCommaText` reads a
comma text as it is written, with its references; no two lists of lines are written alike
(`commaText_read_back`).
-/

namespace NassiChart.Document

/-- Where in a comma text the reader stands. -/
inductive EntryMode where
  /-- In front of an entry. -/
  | before
  | inside (entry : List Char)
  /-- After a quote, which ends the entry or is the first of two. -/
  | quote (entry : List Char)
  deriving DecidableEq, Repr

def readEntriesFrom : EntryMode → List Char → Option (List String)
  | .quote entry, [] => some [String.ofList entry]
  | _, [] => none
  | .before, c :: rest => if c = '"' then readEntriesFrom (.inside []) rest else none
  | .inside entry, c :: rest =>
    if c = '"' then readEntriesFrom (.quote entry) rest
    else readEntriesFrom (.inside (entry ++ [c])) rest
  | .quote entry, c :: rest =>
    if c = '"' then readEntriesFrom (.inside (entry ++ [c])) rest
    else if c = ',' then (readEntriesFrom .before rest).map (String.ofList entry :: ·) else none

/-- The entries of a comma text. -/
def readEntries (text : String) : Option (List String) :=
  if text = "" then some [] else readEntriesFrom .before text.toList

theorem readEntriesFrom_doubled (entry line rest : List Char) :
    readEntriesFrom (.inside entry) (line.flatMap doubled ++ '"' :: rest) =
      readEntriesFrom (.quote (entry ++ line)) rest := by
  induction line generalizing entry with
  | nil => simp [readEntriesFrom]
  | cons c line ih =>
      rw [List.append_cons entry c line, ← ih, List.flatMap_cons, doubled]
      by_cases quote : c = '"'
      · simp [quote, readEntriesFrom]
      · simp [quote, readEntriesFrom]

theorem readEntriesFrom_before (line rest : List Char) :
    readEntriesFrom .before ('"' :: line.flatMap doubled ++ '"' :: rest) =
      readEntriesFrom (.quote line) rest := by
  rw [List.cons_append, readEntriesFrom, if_pos rfl, readEntriesFrom_doubled, List.nil_append]

theorem readEntriesFrom_intercalate (line : String) (lines : List String) :
    readEntriesFrom .before ([','].intercalate
      ((line :: lines).map fun line => '"' :: line.toList.flatMap doubled ++ ['"'])) =
        some (line :: lines) := by
  induction lines generalizing line with
  | nil =>
      have read := readEntriesFrom_before line.toList []
      rw [readEntriesFrom, String.ofList_toList] at read
      simpa [List.intercalate] using read
  | cons next lines ih =>
      have read := readEntriesFrom_before line.toList (',' :: [','].intercalate
        ((next :: lines).map fun line => '"' :: line.toList.flatMap doubled ++ ['"']))
      rw [readEntriesFrom, if_neg (by decide), if_pos rfl, ih next, String.ofList_toList] at read
      simpa [List.intercalate] using read

/-- A comma text is read back as the lines that it was made from. -/
theorem readEntries_commaLines (line : String) (lines : List String) :
    readEntries (commaLines (line :: lines)) = some (line :: lines) := by
  have read := readEntriesFrom_intercalate line lines
  have nonempty : commaLines (line :: lines) ≠ "" := by
    intro empty
    rw [← String.toList_inj, commaLines, String.toList_ofList] at empty
    rw [empty] at read
    cases read
  rw [readEntries, if_neg nonempty, commaLines, String.toList_ofList, read]

/-- The entries of a comma text, with its references resolved before the quotes are looked at. -/
def readCommaText (raw : String) : Option (List String) :=
  (decode raw.toList).bind fun text => readEntries (String.ofList text)

theorem readCommaText_commaText (lines : List String) :
    readCommaText (commaText lines) = some lines := by
  rw [readCommaText, (encodes_commaText lines).decode_eq, Option.bind_some, String.ofList_toList]
  cases lines with
  | nil => rfl
  | cons line lines => exact readEntries_commaLines line lines

/-- Comma text has no quote and no angle bracket in it, and no ampersand but those of its four
references.  Resolving these once and then reading the entries gives back the lines that it was
made from, whatever they hold.  So different lists of lines have different comma texts; that of no
line is not that of one empty line. -/
theorem commaText_read_back :
    (∀ lines, IsEscaped commaReferences (commaText lines).toList ∧
      readCommaText (commaText lines) = some lines) ∧
    Function.Injective commaText ∧ commaText [] ≠ commaText [""] := by
  have injective : Function.Injective commaText := by
    intro lines others same
    have read := readCommaText_commaText lines
    rw [same, readCommaText_commaText] at read
    exact (Option.some.inj read).symm
  exact ⟨fun lines => ⟨isEscaped_commaText lines, readCommaText_commaText lines⟩, injective,
    injective.ne (by decide)⟩

example : readCommaText "&#34;a&#34;&#34;,&#34;&#34;b&#34;,&#34;&amp;lt;&#34;" =
    some ["a\",\"b", "&lt;"] := by decide

end NassiChart.Document
