import NassiChart.Proofs.Decisions

/-! # Entries and arms of a decision

A decision shows an entry for every arm that belongs to it, and a `qCase` element for every arm that
its body draws.  Where every arm stands in a decision, with productions that are passed through in
between and nothing else, the two numbers differ by the arms in front of the body.
-/

namespace NassiChart.Diagram

open NassiChart.Grammar NassiChart.Document

/-- The nearest statement above that is not passed through is a decision. -/
def standsInDecision (diagram : Diagram) (id : StatementId) : Bool :=
  (diagram.holder? id).any fun above => (diagram.role above).kind.isHeader

/-- How many arms of a decision lie in front of its body. -/
def armsInHeader (diagram : Diagram) (id : StatementId) : Nat :=
  (((diagram.children id).take (diagram.statement id).bodyStart).flatMap
    (diagram.armsWithin id)).length

/-- How many `qCase` elements there are, without those of a decision inside. -/
def qCases (elements : List Element) : Nat :=
  (qCaseElements elements).length

variable {diagram : Diagram}

/-- An arm that stands in a decision stands in that to which it belongs. -/
theorem armsHeld_of_standsInDecision (linked : diagram.Linked)
    (placed : ∀ id < diagram.size, (diagram.role id).kind.isArm = true →
      diagram.standsInDecision id = true) (header : Nat) : diagram.ArmsHeld header := by
  intro arm inside isArm found
  obtain ⟨above, held, isHeader⟩ := (Option.any_eq_true _ _).mp (placed arm inside isArm)
  have kind : (diagram.role header).kind.isHeader = true :=
    List.find?_some (p := fun above => (diagram.role above).kind.isHeader) found
  have lower : header ≤ above := le_of_nearest? linked held (List.mem_of_find?_eq_some found)
    (bne_iff_ne.mpr (ne_passThrough_of_isHeader kind))
  have upper : above ≤ header :=
    le_of_nearest? linked found (List.mem_of_find?_eq_some held) isHeader
  rw [held, Nat.le_antisymm lower upper]

/-- There is no arm in front of the body if no child holds one before the first child that is
recognised as an arm. -/
theorem armsInHeader_eq_zero_iff (linked : diagram.Linked) {id : Nat} (inside : id < diagram.size)
    (header : (diagram.role id).kind.isHeader = true) {field : Field}
    (filledFor : diagram.FilledFor id (some field)) :
    diagram.armsInHeader id = 0 ↔ ∀ child ∈ (diagram.children id).takeWhile
      (fun child => !(diagram.role id).startsArms (diagram.role child)),
        diagram.armsWithin id child = [] := by
  rw [armsInHeader, (children_around_body linked inside header filledFor).1,
    List.length_eq_zero_iff, List.flatMap_eq_nil_iff]

theorem case_element {tree : Tree} (options : Options)
    (placed : ∀ id < (build tree).size, ((build tree).role id).kind.isArm = true →
      (build tree).standsInDecision id = true) {id : Nat} (drawn : (build tree).Drawn id)
    (header : ((build tree).role id).kind.isHeader = true) :
    ∃ shown comment control entries inner,
      elementsAt options (build tree) id =
        [.node ⟨"case", described shown comment options.palette.ordinary⟩ inner] ∧
      readEntries shown = some (control :: entries) ∧
      entries.length = qCases inner + (build tree).armsInHeader id := by
  have linked := build_linked tree
  have inside := DrawnFrom.inside linked (build_nonempty tree) drawn
  obtain ⟨shown, comment, inner, element, read, arms⟩ :=
    decision_element options drawn header (armsHeld_of_standsInDecision linked placed id)
  refine ⟨shown, comment, _, _, inner, element, read, ?_⟩
  have parts := List.take_append_drop ((build tree).statement id).bodyStart
    ((build tree).children id)
  rw [qCases, arms, ← List.map_flatMap, List.length_map, List.length_map,
    armsAt_eq linked inside header, ← parts, List.flatMap_append, List.length_append, parts,
    armsInHeader, Nat.add_comm]

/-- Where every arm stands in a decision, with productions that are passed through in between and
nothing else, the element of a drawn decision shows one entry after the control for each `qCase`
inside of it, and one for each arm in front of its body.  There is none in front of it if no child
holds an arm of the decision before the first one that is recognised as an arm. -/
theorem case_entries (tree : Tree) (options : Options)
    (placed : ∀ id < (build tree).size, ((build tree).role id).kind.isArm = true →
      (build tree).standsInDecision id = true) {id : Nat} (drawn : (build tree).Drawn id)
    (header : ((build tree).role id).kind.isHeader = true) :
    (build tree).rowsAt options id <:+: rows options (build tree).view ∧
    ∃ shown comment control entries inner,
      ReadsAs ((build tree).rowsAt options id)
        [.node ⟨"case", described shown comment options.palette.ordinary⟩ inner] ∧
      readEntries shown = some (control :: entries) ∧
      entries.length = qCases inner + (build tree).armsInHeader id ∧
      (entries.length = qCases inner ↔ ∀ child ∈ ((build tree).children id).takeWhile
        (fun child => !((build tree).role id).startsArms ((build tree).role child)),
          (build tree).armsWithin id child = []) := by
  have linked := build_linked tree
  have nonempty := build_nonempty tree
  refine ⟨drawn.rowsAt_infix linked nonempty options, ?_⟩
  obtain ⟨shown, comment, control, entries, inner, element, read, count⟩ :=
    case_element options placed drawn header
  have reads := readsAs_rowsAt options (build tree) id
  rw [element] at reads
  refine ⟨shown, comment, control, entries, inner, reads, read, count, ?_⟩
  obtain ⟨field, -, filledFor⟩ := drawn.filledFor_of_isHeader header
  have inside := DrawnFrom.inside linked nonempty drawn
  have agree : entries.length = qCases inner ↔ (build tree).armsInHeader id = 0 := by omega
  rw [agree, armsInHeader_eq_zero_iff linked inside header filledFor]

/-- Arms right below a decision. -/
def directArmsExport : String :=
  "\n+--<DECIDE_ON>\n|  +--ON\n|  +--#X\n" ++
    "|  +--<DECIDE_ON_branch>\n|  |  +--VALUE\n|  |  +--1\n"

theorem case_entries_direct : ∃ tree, Export.parse directArmsExport = .ok tree ∧
    ∃ shown comment control entries inner,
      ReadsAs ((build tree).rowsAt (.standard ⟨2000, 1, 1⟩) 1)
        [.node ⟨"case", described shown comment Color.white⟩ inner] ∧
      readEntries shown = some (control :: entries) ∧ entries.length = qCases inner := by
  let tree : Tree := ⟨#[⟨0, "<DECIDE_ON>", none, .expression [1, 2, 3]⟩,
    ⟨1, "ON", some 0, .terminal⟩, ⟨1, "#X", some 0, .terminal⟩,
    ⟨1, "<DECIDE_ON_branch>", some 0, .expression [4, 5]⟩, ⟨2, "VALUE", some 3, .terminal⟩,
    ⟨2, "1", some 3, .terminal⟩]⟩
  have parsed : Export.parse directArmsExport = .ok tree := by decide +kernel
  have draws : (build tree).Draws 0 1 := by decide +kernel
  obtain ⟨-, shown, comment, control, entries, inner, reads, read, -, same⟩ :=
    case_entries tree (.standard ⟨2000, 1, 1⟩) (by decide +kernel) (.tail .refl draws)
      (by decide +kernel)
  exact ⟨tree, parsed, shown, comment, control, entries, inner, reads, read,
    same.mpr (by decide +kernel)⟩

/-- An arm in a production that is passed through, and whose name does not continue that of the
decision. -/
def wrappedArmsExport : String :=
  "\n+--<DECIDE_ON>\n|  +--ON\n|  +--#X\n|  +--<arms>\n" ++
    "|  |  +--<DECIDE_ON_branch>\n|  |  |  +--VALUE\n|  |  |  +--1\n"

/-- The arm is taken for a part of the header: it has an entry and is not drawn. -/
theorem case_entries_wrapped : ∃ tree, Export.parse wrappedArmsExport = .ok tree ∧
    (∀ id < (build tree).size, ((build tree).role id).kind.isArm = true →
      (build tree).standsInDecision id = true) ∧
    (build tree).Drawn 1 ∧ ((build tree).role 1).kind.isHeader = true ∧
    ∃ shown comment control entries inner,
      elementsAt (.standard ⟨2000, 1, 1⟩) (build tree) 1 =
        [.node ⟨"case", described shown comment Color.white⟩ inner] ∧
      readEntries shown = some (control :: entries) ∧ entries.length ≠ qCases inner := by
  let tree : Tree := ⟨#[⟨0, "<DECIDE_ON>", none, .expression [1, 2, 3]⟩,
    ⟨1, "ON", some 0, .terminal⟩, ⟨1, "#X", some 0, .terminal⟩,
    ⟨1, "<arms>", some 0, .expression [4]⟩,
    ⟨2, "<DECIDE_ON_branch>", some 3, .expression [5, 6]⟩, ⟨3, "VALUE", some 4, .terminal⟩,
    ⟨3, "1", some 4, .terminal⟩]⟩
  have parsed : Export.parse wrappedArmsExport = .ok tree := by decide +kernel
  have draws : (build tree).Draws 0 1 := by decide +kernel
  have drawn : (build tree).Drawn 1 := .tail .refl draws
  have placed : ∀ id < (build tree).size, ((build tree).role id).kind.isArm = true →
      (build tree).standsInDecision id = true := by decide +kernel
  have header : ((build tree).role 1).kind.isHeader = true := by decide +kernel
  have hidden : (build tree).armsInHeader 1 = 1 := by decide +kernel
  obtain ⟨shown, comment, control, entries, inner, element, read, count⟩ :=
    case_element (.standard ⟨2000, 1, 1⟩) placed drawn header
  refine ⟨tree, parsed, placed, drawn, header, shown, comment, control, entries, inner, element,
    read, ?_⟩
  omega

end NassiChart.Diagram
