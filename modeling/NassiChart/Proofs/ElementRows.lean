import NassiChart.Proofs.ElementReader

/-!
# Rows of elements

`ReadsAs rows elements` says that the reader makes these elements, one after the other, of the
rows. It holds of rows that follow one another and of rows between the tags of an element, so it
can be shown for a document in the way in which the document is put together.
-/

namespace NassiChart.Document

mutual
/-- The tags of an element in the order of the document. -/
def tokensOf : Element → List Token
  | .node tag inner =>
    (if tag.name = "root" then [.declaration] else []) ++
      .opening tag :: (tokensOfAll inner ++ [.closing tag.name])
def tokensOfAll : List Element → List Token
  | [] => []
  | element :: more => tokensOf element ++ tokensOfAll more
end

@[simp] theorem tokensOfAll_append (first second : List Element) :
    tokensOfAll (first ++ second) = tokensOfAll first ++ tokensOfAll second := by
  induction first with
  | nil => rfl
  | cons element first ih => simp [tokensOfAll, ih]

mutual
/-- The tags of an element add this element to what is complete. -/
theorem nest_tokensOf (element : Element) (before : List Element)
    (opened : List (Tag × List Element)) (rest : List Token) :
    nest before opened (tokensOf element ++ rest) = nest (before ++ [element]) opened rest := by
  cases element with
  | node tag inner =>
      have tagged : nest before opened (.opening tag :: (tokensOfAll inner ++
          .closing tag.name :: rest)) = nest (before ++ [.node tag inner]) opened rest := by
        rw [nest, nest_tokensOfAll inner, nest, if_pos rfl, List.nil_append]
      rw [tokensOf]
      split
      · rename_i root
        simp only [List.cons_append, List.nil_append, List.append_assoc]
        rw [nest, if_pos root, tagged]
      · simp only [List.cons_append, List.nil_append, List.append_assoc]
        exact tagged
theorem nest_tokensOfAll (elements before : List Element)
    (opened : List (Tag × List Element)) (rest : List Token) :
    nest before opened (tokensOfAll elements ++ rest) = nest (before ++ elements) opened rest := by
  cases elements with
  | nil => simp [tokensOfAll]
  | cons element more =>
      rw [tokensOfAll, List.append_assoc, nest_tokensOf element, nest_tokensOfAll more]
      simp
end

/-- The characters of rows, each with its line end. -/
def markup (rows : List String) : List Char :=
  rows.flatMap fun row => row.toList ++ ['\n']

/-- The rows are read as these elements. -/
def ReadsAs (rows : List String) (elements : List Element) : Prop :=
  scan .between (markup rows) = some (.between, tokensOfAll elements)

theorem scan_row {margin : String} (blank : ∀ c ∈ margin.toList, isSpace c = true) {text : String}
    {token : Token} (h : scan .between text.toList = some (.between, [token])) :
    scan .between (markup [margin ++ text]) = some (.between, [token]) := by
  have lineEnd : scan .between ['\n'] = some (.between, []) := scan_spaces (by simp [isSpace])
  have all := scan_append (scan_spaces blank) (scan_append h lineEnd)
  simpa [markup] using all

theorem scan_markup_append {first second : List String} {tokens more : List Token}
    (h : scan .between (markup first) = some (.between, tokens))
    (h' : scan .between (markup second) = some (.between, more)) :
    scan .between (markup (first ++ second)) = some (.between, tokens ++ more) := by
  rw [markup, List.flatMap_append]
  exact scan_append h h'

namespace ReadsAs

variable {rows more : List String} {elements others : List Element}

theorem nil : ReadsAs [] [] := rfl

theorem append (first : ReadsAs rows elements) (second : ReadsAs more others) :
    ReadsAs (rows ++ more) (elements ++ others) := by
  rw [ReadsAs, tokensOfAll_append]
  exact scan_markup_append first second

theorem flatten {parts : List (List String)} {each : List (List Element)}
    (h : List.Forall₂ ReadsAs parts each) : ReadsAs parts.flatten each.flatten := by
  induction h with
  | nil => exact nil
  | cons first _ ih => exact first.append ih

theorem flatten_drop {parts : List (List String)} {each : List (List Element)}
    (h : List.Forall₂ ReadsAs parts each) (n : Nat) :
    ReadsAs (parts.drop n).flatten (each.drop n).flatten :=
  flatten (List.forall₂_drop n h)

theorem indented (margin : String) (blank : ∀ c ∈ margin.toList, isSpace c = true)
    {name : String} (inner : IsInner name) {attributes : List String}
    {entries : List (String × String)} (written : List.Forall₂ Written attributes entries)
    (h : ReadsAs rows elements) :
    ReadsAs ((margin ++ openTag name attributes) :: rows ++ [margin ++ closeTag name])
      [.node ⟨name, entries⟩ elements] := by
  have first := scan_row blank (scan_openTag inner.1 written)
  have last := scan_row blank (scan_closeTag inner.1)
  have all := scan_markup_append (scan_markup_append first h) last
  simpa [ReadsAs, tokensOfAll, tokensOf, inner.2] using all

theorem element {name : String} (inner : IsInner name)
    {attributes : List String} {entries : List (String × String)}
    (written : List.Forall₂ Written attributes entries) (h : ReadsAs rows elements) :
    ReadsAs (openTag name attributes :: rows ++ [closeTag name])
      [.node ⟨name, entries⟩ elements] := by
  have all := indented "" (by simp) inner written h
  simpa using all

/-- The root element with the declaration in front of it. -/
theorem root {attributes : List String} {entries : List (String × String)}
    (written : List.Forall₂ Written attributes entries) (h : ReadsAs rows elements) :
    ReadsAs (declaration :: openTag "root" attributes :: rows ++ [closeTag "root"])
      [.node ⟨"root", entries⟩ elements] := by
  have blank : ∀ c ∈ "".toList, isSpace c = true := by simp
  have named : IsName "root" := by decide
  have zeroth := scan_row blank scan_declaration
  have first := scan_row blank (scan_openTag named written)
  have last := scan_row blank (scan_closeTag named)
  have all := scan_markup_append (scan_markup_append zeroth (scan_markup_append first h)) last
  simpa [ReadsAs, tokensOfAll, tokensOf] using all

end ReadsAs

end NassiChart.Document
