import Mathlib.Data.List.TakeWhile
import NassiChart.Export.Reader
import NassiChart.Proofs.Tree

/-! # The form of a tree line

`Line.Reads` says without any scanning what it takes for a line to be a tree line: some level
markers, the separator, and a text.  Since the separator begins with a character that is no
marker, a line reads in one way at most, and that is the way in which it is taken apart.
-/

namespace NassiChart.Export

open NassiChart.Grammar NassiChart.Text

/-- The line is a run of level markers with `level` bars among them, the separator, and anything
that is `text` once it is trimmed. -/
def Line.Reads (line : Line) (level : Nat) (text : List Char) : Prop :=
  ∃ markers rest : List Char,
    (∀ c ∈ markers, c = '|' ∨ c = ' ' ∨ c = '\t') ∧
      line.chars = markers ++ '+' :: '-' :: '-' :: rest ∧
        level = markers.count '|' ∧ text = trim rest

/-- The text starts with `<` and is not the less-than token alone. -/
def NamesProduction (text : List Char) : Prop :=
  text.head? = some '<' ∧ text ≠ ['<']

theorem namesProduction_iff {text : List Char} :
    namesProduction text = true ↔ NamesProduction text := by
  match text with
  | [] => simp [NamesProduction, namesProduction]
  | [c] => simp [NamesProduction, namesProduction]
  | c :: next :: rest =>
      by_cases opening : c = '<'
      · simp [NamesProduction, namesProduction, opening]
      · simp [NamesProduction, namesProduction, opening]

theorem isMarker_iff {c : Char} : isMarker c = true ↔ c = '|' ∨ c = ' ' ∨ c = '\t' := by
  simp [isMarker, or_assoc]

theorem Line.Reads.ofLine? {line : Line} {level : Nat} {text : List Char}
    (reads : line.Reads level text) :
    TreeLine.ofLine? line = some ⟨level, String.ofList text, line.span⟩ := by
  obtain ⟨markers, rest, marked, chars, rfl, rfl⟩ := reads
  have all : ∀ c ∈ markers, isMarker c = true := fun c member => isMarker_iff.mpr (marked c member)
  have separator : isMarker '+' = false := by decide
  simp only [TreeLine.ofLine?, chars, List.dropWhile_append_of_pos all,
    List.takeWhile_append_of_pos all, List.dropWhile_cons, List.takeWhile_cons, separator,
    Bool.false_eq_true, if_false, List.append_nil]

theorem reads_of_ofLine? {line : Line} {treeLine : TreeLine}
    (found : TreeLine.ofLine? line = some treeLine) :
    line.Reads treeLine.level treeLine.text.toList ∧ treeLine.span = line.span := by
  unfold TreeLine.ofLine? at found
  split at found
  · rename_i rest separated
    cases found
    refine ⟨⟨line.chars.takeWhile isMarker, rest, ?_, ?_, rfl, ?_⟩, rfl⟩
    · exact fun c member => isMarker_iff.mp (List.mem_takeWhile_imp member)
    · rw [← separated, List.takeWhile_append_dropWhile]
    · exact String.toList_ofList
  · cases found

theorem ofLine?_eq_none_iff {line : Line} :
    TreeLine.ofLine? line = none ↔ ∀ level text, ¬ line.Reads level text := by
  constructor
  · intro missing level text reads
    rw [reads.ofLine?] at missing
    cases missing
  · intro unread
    cases found : TreeLine.ofLine? line with
    | none => rfl
    | some treeLine => exact absurd (reads_of_ofLine? found).1 (unread _ _)

theorem TreeLine.node_isExpression_iff {line : TreeLine} :
    line.node.isExpression = true ↔ NamesProduction line.text.toList := by
  rw [← namesProduction_iff, TreeLine.node, Node.classify_isExpression]

end NassiChart.Export
