import Mathlib.Data.List.DropRight
import NassiChart.Proofs.LinePosition
import NassiChart.Proofs.TreeLine

/-! # Printed tree lines

A `Layout` is everything that an export may choose freely when a list of levels and texts is
printed: the header, the white space after the level markers, the carriage returns at the ends of
the lines, and what follows after the tree section.  Whatever it chooses, cutting the text into
lines and taking the lines apart gives the levels and the texts back.
-/

namespace NassiChart.Text

theorem dropEndWhile_append_of_pos {α : Type} {p : α → Bool} {xs ends : List α}
    (dropped : ∀ x ∈ ends, p x = true) : dropEndWhile p (xs ++ ends) = dropEndWhile p xs := by
  rw [dropEndWhile, List.reverse_append,
    List.dropWhile_append_of_pos fun x member => dropped x (List.mem_reverse.mp member)]
  rfl

/-- Dropping stops at the last element that stays. -/
theorem dropEndWhile_append_cons {α : Type} {p : α → Bool} {xs ys : List α} {x : α}
    (stays : p x = false) : dropEndWhile p (xs ++ x :: ys) = xs ++ x :: dropEndWhile p ys := by
  have stop : List.dropWhile p (x :: xs.reverse) = x :: xs.reverse :=
    List.dropWhile_cons_of_neg (by simp [stays])
  simp only [dropEndWhile, List.reverse_append, List.reverse_cons, List.append_assoc,
    List.singleton_append, List.dropWhile_append]
  split
  · rename_i empty
    rw [stop, List.isEmpty_iff.mp empty]
    simp
  · simp

theorem trim_append_of_white {cs ends : List Char} (white : ∀ c ∈ ends, isWhite c = true) :
    trim (cs ++ ends) = trim cs := by
  rw [trim, trim, List.dropWhile_append]
  split
  · rename_i empty
    rw [List.isEmpty_iff.mp empty, List.dropWhile_eq_nil_iff.mpr white]
  · exact dropEndWhile_append_of_pos white

theorem trim_trim (cs : List Char) : trim (trim cs) = trim cs := by
  -- What is left starts with the first character that is not white, so nothing is cut in front.
  have front : (trim cs).dropWhile isWhite = trim cs := by
    rw [List.dropWhile_eq_self_iff]
    intro nonempty
    obtain ⟨more, whole⟩ : trim cs <+: cs.dropWhile isWhite := List.rdropWhile_prefix isWhite _
    have first := List.head?_dropWhile_not isWhite cs
    rw [← whole, List.head?_append, List.head?_eq_getElem?,
      List.getElem?_eq_getElem nonempty] at first
    simpa using first
  rw [trim, front]
  exact List.rdropWhile_idempotent isWhite _

end NassiChart.Text

namespace NassiChart.Export

open NassiChart.Text

/-- The lines of a text without their terminators. -/
def lineTexts (source : List Char) : List (List Char) :=
  (rawLines source).map (dropEndWhile Line.isTerminator)

theorem map_chars_layOut (gap offset : Nat) (raws : List (List Char)) :
    (Line.layOut gap offset raws).map Line.chars = raws.map (dropEndWhile Line.isTerminator) := by
  induction raws generalizing offset with
  | nil => rfl
  | cons raw raws ih =>
      rw [Line.layOut, List.map_cons, List.map_cons, ih]
      rfl

theorem map_chars_sourceLines (source : List Char) :
    (sourceLines (String.ofList source)).map Line.chars = lineTexts source := by
  rw [sourceLines, map_chars_layOut, String.toList_ofList]
  rfl

/-- The tree section is found by the texts of the lines alone. -/
theorem map_chars_treeSection (lines : List Line) : (treeSection lines).map Line.chars =
    (((lines.map Line.chars).dropWhile (!isBlank ·)).drop 1).takeWhile (!isBlank ·) := by
  rw [List.dropWhile_map, ← List.map_drop, List.takeWhile_map]
  rfl

theorem isWhite_of_isTerminator {c : Char} (terminator : Line.isTerminator c = true) :
    isWhite c = true := by
  simp only [Line.isTerminator, Bool.or_eq_true, beq_iff_eq] at terminator
  rcases terminator with rfl | rfl <;> decide

theorem exists_terminators (line : List Char) : ∃ ends,
    line = dropEndWhile Line.isTerminator line ++ ends ∧ ∀ c ∈ ends, isWhite c = true :=
  ⟨line.rtakeWhile Line.isTerminator, List.rdropWhile_append_rtakeWhile.symm,
    fun _ member => isWhite_of_isTerminator (List.mem_rtakeWhile_imp member)⟩

theorem isBlank_dropTerminators (line : List Char) :
    isBlank (dropEndWhile Line.isTerminator line) = isBlank line := by
  obtain ⟨ends, whole, white⟩ := exists_terminators line
  conv_rhs => rw [whole]
  rw [isBlank, isBlank, List.all_append, List.all_eq_true.mpr white, Bool.and_true]

theorem trim_dropTerminators (line : List Char) :
    trim (dropEndWhile Line.isTerminator line) = trim line := by
  obtain ⟨ends, whole, white⟩ := exists_terminators line
  conv_rhs => rw [whole]
  rw [trim_append_of_white white]

theorem rawLines_append_newline {line : List Char} (clean : '\n' ∉ line) (more : List Char) :
    rawLines (line ++ '\n' :: more) = (line ++ ['\n']) :: rawLines more := by
  induction line with
  | nil => rfl
  | cons c line ih =>
      obtain ⟨other, clean⟩ := List.ne_and_not_mem_of_not_mem_cons clean
      change consRaw c (rawLines (line ++ '\n' :: more)) = _
      rw [ih clean]
      exact if_neg other.symm

theorem rawLines_of_notMem {line : List Char} (clean : '\n' ∉ line) (filled : line ≠ []) :
    rawLines line = [line] := by
  induction line with
  | nil => exact absurd rfl filled
  | cons c line ih =>
      obtain ⟨other, clean⟩ := List.ne_and_not_mem_of_not_mem_cons clean
      change consRaw c (rawLines line) = _
      cases line with
      | nil => exact if_neg other.symm
      | cons next line =>
          rw [ih clean (List.cons_ne_nil _ _)]
          exact if_neg other.symm

/-- Lines joined by line feeds are cut into these lines again.  Only an empty last line is lost. -/
theorem lineTexts_joined_cons {line : List Char} {lines : List (List Char)} (clean : '\n' ∉ line)
    (kept : line ≠ [] ∨ lines ≠ []) : lineTexts (List.intercalate ['\n'] (line :: lines)) =
      dropEndWhile Line.isTerminator line :: lineTexts (List.intercalate ['\n'] lines) := by
  cases lines with
  | nil =>
      have filled := kept.resolve_right (not_not_intro rfl)
      rw [List.intercalate_singleton, lineTexts, rawLines_of_notMem clean filled]
      rfl
  | cons next lines =>
      have feed : dropEndWhile Line.isTerminator (line ++ ['\n']) =
          dropEndWhile Line.isTerminator line :=
        dropEndWhile_append_of_pos fun c member => by rw [List.mem_singleton.mp member]; rfl
      rw [List.intercalate_cons_cons, List.append_assoc, List.singleton_append, lineTexts,
        rawLines_append_newline clean, List.map_cons, feed]
      rfl

theorem ne_nil_of_not_isBlank {line : List Char} (filled : isBlank line = false) : line ≠ [] := by
  rintro rfl
  cases filled

/-- What may be chosen when levels and texts are printed.  Every line is given without the line feed
that ends it. -/
structure Layout where
  header : List (List Char)
  /-- The line between the header and the tree. -/
  blank : List Char
  /-- The white space after a level marker, by the numbers of the tree line and of the marker. -/
  padding : (line marker : Nat) → List Char
  /-- Carriage returns at the end of a tree line. -/
  returns : (line : Nat) → List Char
  /-- The lines after the tree, if there are any: a blank one, and anything. -/
  rest : List (List Char)
  header_lines : ∀ line ∈ header, isBlank line = false ∧ '\n' ∉ line
  blank_line : isBlank blank = true ∧ '\n' ∉ blank
  padding_white : ∀ line marker, ∀ c ∈ padding line marker, c = ' ' ∨ c = '\t'
  returns_only : ∀ line, ∀ c ∈ returns line, c = '\r'
  rest_apart : ∀ line ∈ rest.head?, isBlank line = true
  rest_lines : ∀ line ∈ rest, '\n' ∉ line

/-- A text that one line can hold, and that no trimming changes. -/
structure IsPlain (text : String) : Prop where
  trimmed : trim text.toList = text.toList
  clean : '\n' ∉ text.toList

namespace Layout

/-- `level` level markers, each with its padding. -/
def markers (layout : Layout) (line level : Nat) : List Char :=
  (List.range level).flatMap fun marker => '|' :: layout.padding line marker

def treeLine (layout : Layout) (line : Nat) (entry : Nat × String) : List Char :=
  layout.markers line entry.1 ++ '+' :: '-' :: '-' :: (entry.2.toList ++ layout.returns line)

/-- One line for each level and text, numbered from `first` on. -/
def treeLines (layout : Layout) (first : Nat) : List (Nat × String) → List (List Char)
  | [] => []
  | entry :: entries => layout.treeLine first entry :: layout.treeLines (first + 1) entries

def printed (layout : Layout) (entries : List (Nat × String)) : String :=
  String.ofList (List.intercalate ['\n']
    (layout.header ++ layout.blank :: (layout.treeLines 0 entries ++ layout.rest)))

variable {layout : Layout}

theorem isMarker_of_mem_markers {line level : Nat} {c : Char}
    (member : c ∈ layout.markers line level) : c = '|' ∨ c = ' ' ∨ c = '\t' := by
  obtain ⟨marker, -, inside⟩ := List.mem_flatMap.mp member
  rcases List.mem_cons.mp inside with bar | pad
  · exact .inl bar
  · exact .inr (layout.padding_white line marker c pad)

theorem count_markers (line level : Nat) : (layout.markers line level).count '|' = level := by
  induction level with
  | zero => rfl
  | succ level ih =>
      have pads : (layout.padding line level).count '|' = 0 := by
        rw [List.count_eq_zero]
        intro bar
        rcases layout.padding_white line level '|' bar with same | same <;> cases same
      rw [markers] at ih ⊢
      rw [List.range_succ, List.flatMap_append, List.count_append, ih, List.flatMap_singleton,
        List.count_cons_self, pads]

theorem treeLine_not_isBlank (line : Nat) (entry : Nat × String) :
    isBlank (layout.treeLine line entry) = false := by
  have separator : isWhite '+' = false := by decide
  rw [isBlank, treeLine, List.all_append, List.all_cons, separator, Bool.false_and, Bool.and_false]

theorem newline_notMem_treeLine (line : Nat) {entry : Nat × String} (plain : IsPlain entry.2) :
    '\n' ∉ layout.treeLine line entry := by
  intro member
  rcases List.mem_append.mp member with marker | member
  · rcases isMarker_of_mem_markers marker with same | same | same <;> cases same
  · simp only [List.mem_cons, List.mem_append] at member
    rcases member with same | same | same | text | ending
    · cases same
    · cases same
    · cases same
    · exact plain.clean text
    · cases layout.returns_only line '\n' ending

theorem treeLines_lines (first : Nat) {entries : List (Nat × String)}
    (plain : ∀ entry ∈ entries, IsPlain entry.2) :
    ∀ line ∈ layout.treeLines first entries, isBlank line = false ∧ '\n' ∉ line := by
  induction entries generalizing first with
  | nil => exact List.forall_mem_nil _
  | cons entry entries ih =>
      obtain ⟨here, later⟩ := List.forall_mem_cons.mp plain
      exact List.forall_mem_cons.mpr
        ⟨⟨treeLine_not_isBlank first entry, newline_notMem_treeLine first here⟩, ih _ later⟩

/-- A printed tree line reads as what it was printed from. -/
theorem reads_treeLine {number : Nat} {entry : Nat × String} (plain : IsPlain entry.2) {line : Line}
    (chars : line.chars = dropEndWhile Line.isTerminator (layout.treeLine number entry)) :
    line.Reads entry.1 entry.2.toList := by
  have white : ∀ c ∈ layout.returns number, isWhite c = true := by
    intro c member
    obtain rfl := layout.returns_only number c member
    decide
  refine ⟨layout.markers number entry.1,
    dropEndWhile Line.isTerminator (entry.2.toList ++ layout.returns number),
    fun c => isMarker_of_mem_markers, ?_, (count_markers number entry.1).symm, ?_⟩
  · have separator : layout.treeLine number entry = (layout.markers number entry.1 ++ ['+', '-']) ++
        '-' :: (entry.2.toList ++ layout.returns number) := by simp [treeLine]
    rw [chars, separator, dropEndWhile_append_cons (by decide)]
    simp
  · rw [trim_dropTerminators, trim_append_of_white white, plain.trimmed]

/-- The header and the blank line are skipped. -/
theorem lineTexts_after_header {header : List (List Char)} {blank : List Char}
    {lines : List (List Char)} (filled : ∀ line ∈ header, isBlank line = false ∧ '\n' ∉ line)
    (apart : isBlank blank = true ∧ '\n' ∉ blank) :
    ((lineTexts (List.intercalate ['\n'] (header ++ blank :: lines))).dropWhile (!isBlank ·)).drop 1
      = lineTexts (List.intercalate ['\n'] lines) := by
  induction header with
  | nil =>
      by_cases empty : blank = [] ∧ lines = []
      · rw [empty.1, empty.2]
        rfl
      · have stop : (!isBlank (dropEndWhile Line.isTerminator blank)) = false := by
          rw [isBlank_dropTerminators, apart.1]
          rfl
        rw [List.nil_append, lineTexts_joined_cons apart.2 (not_and_or.mp empty),
          List.dropWhile_cons_of_neg (by simp [stop])]
        rfl
  | cons line header ih =>
      obtain ⟨⟨here, clean⟩, later⟩ := List.forall_mem_cons.mp filled
      rw [List.cons_append, lineTexts_joined_cons clean (.inl (ne_nil_of_not_isBlank here)),
        List.dropWhile_cons_of_pos (by simp [isBlank_dropTerminators, here])]
      exact ih later

/-- A run of filled lines ends at the end of the text or at a blank line. -/
theorem takeWhile_lineTexts {lines rest : List (List Char)}
    (filled : ∀ line ∈ lines, isBlank line = false ∧ '\n' ∉ line)
    (apart : ∀ line ∈ rest.head?, isBlank line = true) (clean : ∀ line ∈ rest, '\n' ∉ line) :
    (lineTexts (List.intercalate ['\n'] (lines ++ rest))).takeWhile (!isBlank ·) =
      lines.map (dropEndWhile Line.isTerminator) := by
  induction lines with
  | nil =>
      cases rest with
      | nil => rfl
      | cons line rest =>
          have here := apart line rfl
          by_cases empty : line = [] ∧ rest = []
          · rw [empty.1, empty.2]
            rfl
          · rw [List.nil_append, lineTexts_joined_cons (clean line List.mem_cons_self)
              (not_and_or.mp empty), List.takeWhile_cons_of_neg (by
                simp [isBlank_dropTerminators, here])]
            rfl
  | cons line lines ih =>
      obtain ⟨⟨here, whole⟩, later⟩ := List.forall_mem_cons.mp filled
      rw [List.cons_append, lineTexts_joined_cons whole (.inl (ne_nil_of_not_isBlank here)),
        List.takeWhile_cons_of_pos (by simp [isBlank_dropTerminators, here]), ih later,
        List.map_cons]

theorem forall₂_reads (layout : Layout) {entries : List (Nat × String)}
    (plain : ∀ entry ∈ entries, IsPlain entry.2) (first : Nat) {lines : List Line}
    (chars : lines.map Line.chars =
      (layout.treeLines first entries).map (dropEndWhile Line.isTerminator)) :
    List.Forall₂ (fun line entry => line.Reads entry.1 entry.2.toList) lines entries := by
  induction entries generalizing first lines with
  | nil =>
      obtain rfl : lines = [] := List.map_eq_nil_iff.mp chars
      exact .nil
  | cons entry entries ih =>
      obtain ⟨here, later⟩ := List.forall_mem_cons.mp plain
      obtain ⟨line, lines, rfl, same, chars⟩ := List.map_eq_cons_iff.mp chars
      exact .cons (reads_treeLine here same) (ih later (first + 1) chars)

/-- The tree section of a printed text reads as the levels and texts that were printed. -/
theorem reads_printed (layout : Layout) {entries : List (Nat × String)}
    (plain : ∀ entry ∈ entries, IsPlain entry.2) :
    List.Forall₂ (fun line entry => line.Reads entry.1 entry.2.toList)
      (treeSection (sourceLines (layout.printed entries))) entries := by
  refine forall₂_reads layout plain 0 ?_
  rw [map_chars_treeSection, printed, map_chars_sourceLines,
    lineTexts_after_header layout.header_lines layout.blank_line,
    takeWhile_lineTexts (treeLines_lines 0 plain) layout.rest_apart layout.rest_lines]

end Layout

/-- A line that a line feed may end has none before. -/
theorem newline_notMem_of_ends {line ends : List Char} (clean : '\n' ∉ (line ++ ends).dropLast)
    (last : ∀ c, line.getLast? = some c → c ≠ '\r' ∧ c ≠ '\n') : '\n' ∉ line := by
  intro inside
  obtain ⟨front, c, whole⟩ := (List.eq_nil_or_concat line).resolve_left
    (List.ne_nil_of_mem inside)
  rw [List.concat_eq_append] at whole
  rw [whole, List.append_assoc, List.dropLast_append_of_ne_nil (by simp)] at clean
  have feed : c ≠ '\n' := (last c (by simp [whole])).2
  rw [whole, List.mem_append, List.mem_singleton] at inside
  rcases inside with early | same
  · exact clean (List.mem_append_left _ early)
  · exact feed same.symm

theorem newline_notMem_of_mem_sourceLines {source : String} {line : Line}
    (member : line ∈ sourceLines source) : '\n' ∉ line.chars := by
  obtain ⟨-, ends, -, -, -, -, clean, -, last, -⟩ := standsIn_of_mem_sourceLines member
  exact newline_notMem_of_ends clean last

/-- What a line of a source reads as is plain. -/
theorem Line.Reads.isPlain {line : Line} {level : Nat} {text : String}
    (reads : line.Reads level text.toList) (clean : '\n' ∉ line.chars) : IsPlain text := by
  obtain ⟨markers, rest, -, chars, -, trimmed⟩ := reads
  refine ⟨by rw [trimmed, trim_trim], fun member => clean ?_⟩
  rw [trimmed] at member
  have inside : '\n' ∈ rest := (List.dropWhile_sublist isWhite).mem
    ((List.rdropWhile_prefix isWhite _).sublist.mem member)
  rw [chars]
  simp [inside]

theorem isPlain_of_reads {lines : List Line} {entries : List (Nat × String)}
    (reads : List.Forall₂ (fun line entry => line.Reads entry.1 entry.2.toList) lines entries)
    (clean : ∀ line ∈ lines, '\n' ∉ line.chars) : ∀ entry ∈ entries, IsPlain entry.2 := by
  induction reads with
  | nil => exact List.forall_mem_nil _
  | cons here _ ih =>
      obtain ⟨first, later⟩ := List.forall_mem_cons.mp clean
      exact List.forall_mem_cons.mpr ⟨here.isPlain first, ih later⟩

end NassiChart.Export
