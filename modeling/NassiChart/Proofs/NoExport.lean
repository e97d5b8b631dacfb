import NassiChart.Convert
import NassiChart.Proofs.Elements
import NassiChart.Proofs.TreeOfLines
import NassiChart.Proofs.Verdict

/-! # No document is an export

The root line of an export has a plus sign, and then no quote before the `<` of its text.  In a
document a plus sign stands in the value of an attribute, which a quote ends before the next tag
begins.  So a file that a document was written to cannot be converted.
-/

namespace NassiChart.Document

open NassiChart.Diagram

/-- Behind every plus sign there is a quote before the next `<`. -/
def Quoted (cs : List Char) : Prop :=
  ∀ before after, cs = before ++ '+' :: after →
    ∃ inside rest, after = inside ++ '"' :: rest ∧ '<' ∉ inside

namespace Quoted

variable {xs ys : List Char}

theorem of_notMem (absent : '+' ∉ xs) : Quoted xs :=
  fun before after whole => absurd (whole ▸ by simp) absent

theorem append (first : Quoted xs) (second : Quoted ys) : Quoted (xs ++ ys) := by
  intro before after whole
  rcases List.append_eq_append_iff.mp whole with ⟨more, -, late⟩ | ⟨more, early, late⟩
  · exact second more after late
  · cases more with
    | nil => exact second [] after late.symm
    | cons c more =>
        obtain ⟨rfl, rfl⟩ := List.cons.inj late
        obtain ⟨inside, rest, rfl, clean⟩ := first before more early
        exact ⟨inside, rest ++ ys, by simp, clean⟩

theorem flatMap {α : Type} {written : α → List Char} {parts : List α}
    (each : ∀ part ∈ parts, Quoted (written part)) : Quoted (parts.flatMap written) := by
  induction parts with
  | nil => exact of_notMem (by simp)
  | cons part parts ih =>
      obtain ⟨first, rest⟩ := List.forall_mem_cons.mp each
      rw [List.flatMap_cons]
      exact first.append (ih rest)

/-- A value with the quote that ends it. -/
theorem value (clean : '<' ∉ xs) : Quoted (xs ++ ['"']) := by
  intro before after whole
  rcases List.append_eq_append_iff.mp whole with ⟨more, -, late⟩ | ⟨more, early, late⟩
  · cases more with
    | nil => cases late
    | cons c more => simp at late
  · cases more with
    | nil => cases late
    | cons c more =>
        obtain ⟨rfl, rfl⟩ := List.cons.inj late
        exact ⟨more, [], rfl, fun inside => clean (early ▸ by simp [inside])⟩

theorem name {text : String} (named : IsName text) : Quoted text.toList :=
  of_notMem fun plus => absurd (named.chars '+' plus) (by decide)

theorem written {part : String} {entry : String × String} (h : Written part entry) :
    Quoted part.toList := by
  cases h with
  | @intro key text shown named encoded =>
      have clean : '<' ∉ text.toList := fun bracket => (encoded.inside '<' bracket).2 rfl
      have equals : Quoted ['=', '"'] := of_notMem (by decide)
      have whole := (name named).append (equals.append (value clean))
      simpa [attr] using whole

theorem attributes {attributes : List String} {entries : List (String × String)}
    (h : List.Forall₂ Written attributes entries) :
    Quoted (attributes.flatMap fun part => ' ' :: part.toList) := by
  have space : Quoted [' '] := of_notMem (by decide)
  induction h with
  | nil => exact of_notMem (by simp)
  | cons here _ ih =>
      rw [List.flatMap_cons]
      exact (space.append (written here)).append ih

theorem openTag {name : String} (named : IsName name) {parts : List String}
    {entries : List (String × String)} (h : List.Forall₂ Written parts entries) :
    Quoted (openTag name parts).toList := by
  rw [Document.openTag, String.toList_append, String.toList_append, toList_intercalate_cons]
  exact ((of_notMem (by decide)).append ((Quoted.name named).append (attributes h))).append
    (of_notMem (by decide))

theorem closeTag {name : String} (named : IsName name) : Quoted (closeTag name).toList := by
  rw [Document.closeTag, String.toList_append, String.toList_append]
  exact ((of_notMem (by decide)).append (Quoted.name named)).append (of_notMem (by decide))

end Quoted

def QuotedRows (rows : List String) : Prop :=
  ∀ row ∈ rows, Quoted row.toList

namespace QuotedRows

variable {first second : List String}

theorem append (h : QuotedRows first) (h' : QuotedRows second) : QuotedRows (first ++ second) :=
  List.forall_mem_append.mpr ⟨h, h'⟩

theorem flatten {parts : List (List String)} (each : ∀ part ∈ parts, QuotedRows part) :
    QuotedRows parts.flatten := by
  intro row member
  obtain ⟨part, inside, here⟩ := List.mem_flatten.mp member
  exact each part inside row here

/-- Rows between an opening and a closing tag. -/
theorem indented (margin : String) (blank : '+' ∉ margin.toList) {name : String}
    (named : IsName name) {attributes : List String} {entries : List (String × String)}
    (written : List.Forall₂ Written attributes entries) (h : QuotedRows first) :
    QuotedRows ((margin ++ openTag name attributes) :: first ++ [margin ++ closeTag name]) := by
  refine append (List.forall_mem_cons.mpr ⟨?_, h⟩) (List.forall_mem_singleton.mpr ?_)
  · rw [String.toList_append]
    exact (Quoted.of_notMem blank).append (.openTag named written)
  · rw [String.toList_append]
    exact (Quoted.of_notMem blank).append (.closeTag named)

theorem element {name : String} (named : IsName name) {attributes : List String}
    {entries : List (String × String)} (written : List.Forall₂ Written attributes entries)
    (h : QuotedRows first) :
    QuotedRows (openTag name attributes :: first ++ [closeTag name]) := by
  have all := indented "" (by simp) named written h
  simpa using all

theorem wrapped {margin name : String} (blank : '+' ∉ margin.toList) (named : IsName name)
    (h : QuotedRows first) : QuotedRows (wrapped margin name first) :=
  indented margin blank named .nil h

theorem leaf {name : String} (named : IsName name) {text shown : String}
    (texts : Encodes text.toList shown.toList) (color : Color) :
    QuotedRows (leafRows name text color) := by
  have switches : List.Forall₂ Written [attr "rotated" "0", attr "disabled" "0"]
      [("rotated", "0"), ("disabled", "0")] :=
    written_plain_entries [("rotated", "0"), ("disabled", "0")] (by decide)
  exact element named (List.rel_append (written_uncommented texts color) switches)
    (List.forall_mem_nil _)

theorem missing (arm : StatementKind) {name : String} (arms : List StatementKind)
    (named : IsName name) :
    QuotedRows (if arms.contains arm then [] else branchRows name []) := by
  split
  · exact List.forall_mem_nil _
  · exact wrapped (by simp) named (List.forall_mem_nil _)

/-- The rows of a statement, if those of its children are like that. -/
theorem statement (options : Options) (statement : Statement) (kinds : List StatementKind)
    {parts : List (List String)} (each : ∀ part ∈ parts, QuotedRows part) :
    QuotedRows (statementRows options statement kinds parts) := by
  have all := flatten each
  have body : QuotedRows (parts.drop statement.bodyStart).flatten :=
    flatten fun part member => each part (List.mem_of_mem_drop member)
  have text := encodes_fieldText statement .instruction
  have margin : '+' ∉ "  ".toList := by decide
  have none : '+' ∉ "".toList := by decide
  unfold statementRows
  cases statement.kind with
  | document =>
      refine List.forall_mem_cons.mpr ⟨.of_notMem (by decide), ?_⟩
      exact element (by decide) (written_rootAttributes options) (wrapped margin (by decide) all)
  | instruction => exact leaf (by decide) text _
  | call => exact leaf (by decide) text _
  | jump scope => exact leaf (by decide) text _
  | forLoop =>
      exact element (by decide) (written_uncommented (encodes_forHeader statement) _)
        (wrapped margin (by decide) body)
  | foreverLoop =>
      exact element (by decide)
        (.cons (written_plain (by decide) (by decide))
          (.cons (.intro (by decide) (encodes_hex _)) .nil)) (wrapped margin (by decide) all)
  | whileLoop subject =>
      exact element (by decide) (written_uncommented text _) (wrapped margin (by decide) body)
  | alternative =>
      exact element (by decide) (written_uncommented (encodes_escape _) _)
        (((missing .trueBranch _ (by decide)).append body).append
          (missing .falseBranch _ (by decide)))
  | trueBranch => exact wrapped none (by decide) all
  | falseBranch => exact wrapped none (by decide) all
  | caseHeader selector =>
      exact element (by decide)
        (written_elementAttributes (encodes_commaText _) (encodes_fieldText ..) _) body
  | caseArm => exact wrapped none (by decide) all
  | defaultArm => exact wrapped none (by decide) all
  | database => exact leaf (by decide) (encodes_commaText _) _
  | passThrough => exact all
  | conditionGroup => exact List.forall_mem_nil _
  | assignment => exact List.forall_mem_nil _
  | silent => exact List.forall_mem_nil _
  | token => exact List.forall_mem_nil _

end QuotedRows

mutual
theorem quotedRows_rows (options : Options) (tree : Rose Statement) :
    QuotedRows (rows options tree) := by
  cases tree with
  | node statement trees =>
      rw [rows]
      exact .statement options statement _ (quotedRows_rowsOfEach options trees)
theorem quotedRows_rowsOfEach (options : Options) (trees : List (Rose Statement)) :
    ∀ part ∈ rowsOfEach options trees, QuotedRows part := by
  cases trees with
  | nil => exact List.forall_mem_nil _
  | cons tree trees =>
      exact List.forall_mem_cons.mpr
        ⟨quotedRows_rows options tree, quotedRows_rowsOfEach options trees⟩
end

theorem quoted_render (options : Options) (diagram : Diagram) :
    Quoted (render options diagram).toList := by
  rw [toList_render, markup]
  exact .flatMap fun row member =>
    (quotedRows_rows options diagram.view row member).append (.of_notMem (by decide))

end NassiChart.Document

namespace NassiChart.Export

open NassiChart.Text NassiChart.Document

/-- What is left after trimming stands behind white space. -/
theorem exists_of_trim {c : Char} {cs : List Char} (first : (trim cs).head? = some c) :
    ∃ white more, cs = white ++ c :: more ∧ ∀ d ∈ white, isWhite d = true := by
  obtain ⟨behind, whole⟩ : trim cs <+: cs.dropWhile isWhite := List.rdropWhile_prefix isWhite _
  obtain ⟨text, cut⟩ := List.head?_eq_some_iff.mp first
  refine ⟨cs.takeWhile isWhite, text ++ behind, ?_, fun d member => List.mem_takeWhile_imp member⟩
  rw [← List.cons_append, ← cut, whole, List.takeWhile_append_dropWhile]

/-- In front of the text of a production there is a plus sign, and no quote. -/
theorem not_quoted_of_isRoot {source : String} {root : Line} (stands : root.StandsIn source)
    (isRoot : root.IsRoot) : ¬ Quoted source.toList := by
  intro quoted
  obtain ⟨text, ⟨markers, rest, -, chars, -, rfl⟩, production, -⟩ := isRoot
  obtain ⟨before, ends, after, whole, -⟩ := stands
  obtain ⟨white, more, rfl, all⟩ := exists_of_trim production
  have plus : source.toList = (before ++ markers) ++
      '+' :: (('-' :: '-' :: white) ++ '<' :: (more ++ ends ++ after)) := by
    rw [whole, chars]
    simp
  obtain ⟨inside, tail, split, clean⟩ := quoted _ _ plus
  rcases List.append_eq_append_iff.mp split with ⟨between, early, late⟩ | ⟨between, early, late⟩
  · -- The quote would stand behind the `<`.
    cases between with
    | nil => cases late
    | cons c between =>
        obtain ⟨rfl, -⟩ := List.cons.inj late
        exact clean (early ▸ by simp)
  · -- The quote would be one of the dashes, or white.
    cases between with
    | nil => cases late
    | cons c between =>
        obtain ⟨rfl, -⟩ := List.cons.inj late
        have quote : '"' ∈ '-' :: '-' :: white := early ▸ by simp
        have member : '"' ∈ white := by simpa using quote
        exact absurd (all _ member) (by decide)

/-- What was rendered cannot be read. -/
theorem parse_render (options : Options) (diagram : Diagram) (tree : Grammar.Tree) :
    parse (render options diagram) ≠ .ok tree := by
  intro parsed
  obtain ⟨root, rest, cut, isRoot, -⟩ := exists_of_parse parsed
  have member : root ∈ treeSection (sourceLines (render options diagram)) :=
    cut ▸ List.mem_cons_self
  have stands := standsIn_of_mem_sourceLines ((treeSection_sublist _).mem member)
  exact not_quoted_of_isRoot stands isRoot (quoted_render options diagram)

end NassiChart.Export

namespace NassiChart

/-- No document is converted once more. -/
theorem convert_render (options again : Document.Options) (diagram : Diagram) (document : String) :
    convert again (Document.render options diagram) ≠ .ok document := by
  intro converted
  unfold convert at converted
  split at converted
  · cases converted
  · rename_i tree parsed
    exact Export.parse_render options diagram tree parsed

theorem exists_of_convert {options : Document.Options} {source document : String}
    (converted : convert options source = .ok document) :
    ∃ diagram, document = Document.render options diagram := by
  unfold convert at converted
  split at converted
  · cases converted
  · exact ⟨_, (Except.ok.inj converted).symm⟩

end NassiChart
