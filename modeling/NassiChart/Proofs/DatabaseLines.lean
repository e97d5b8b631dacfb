import NassiChart.Proofs.CommaLines
import NassiChart.Proofs.LoopBodies

/-! # The lines of a database statement

A database statement shows the texts in front of its assignments as one line and every text from
there on as a line of its own.  An assignment gathers what is in it into one text, which it hands on
to the statement around it, be that another assignment.  `contributed` is the list of texts that a
statement hands on in this way; the lines are made of these texts (`database_lines`), and every
token below the statement stands in them once and in order (`Spaced`).
-/

namespace NassiChart.Diagram

open NassiChart.Grammar NassiChart.Document

mutual
/-- The texts that a tree hands on. A token hands on its text, an assignment a single text, which
holds all that is in it, and any other production what is in it. -/
def contributions : Rose Role → List String
  | .node role trees => match role.kind with
    | .token => role.text?.toList
    | .assignment => [" ".intercalate (contributionsOfEach trees)]
    | _ => contributionsOfEach trees
def contributionsOfEach : List (Rose Role) → List String
  | [] => []
  | tree :: trees => contributions tree ++ contributionsOfEach trees
end

def contributed (diagram : Diagram) (id : StatementId) : List String :=
  contributions (diagram.rolesAt id)

/-- There is nothing in it but tokens, productions that are passed through, and assignments. -/
def IsListing (diagram : Diagram) (id : StatementId) : Prop :=
  ∀ inner ∈ (diagram.below id).preorder, (diagram.role inner).kind = .token ∨
    (diagram.role inner).kind = .passThrough ∨ (diagram.role inner).kind = .assignment

instance (diagram : Diagram) (id : StatementId) : Decidable (diagram.IsListing id) :=
  inferInstanceAs (Decidable (∀ inner ∈ _, _))

/-- The children in front of the assignments. -/
def frontOf (diagram : Diagram) (id : StatementId) : List StatementId :=
  (diagram.children id).takeWhile fun child => !(diagram.role child).startsAssignments

/-- The children from the one on that opens the assignments. -/
def assignmentsOf (diagram : Diagram) (id : StatementId) : List StatementId :=
  (diagram.children id).dropWhile fun child => !(diagram.role child).startsAssignments

/-- The words stand in the text, one after the other, with nothing but spaces around them. -/
inductive Spaced : List String → String → Prop where
  | nil : Spaced [] ""
  | space {words : List String} {text : String} (rest : Spaced words text) :
      Spaced words (" " ++ text)
  | word (word : String) {words : List String} {text : String} (rest : Spaced words text) :
      Spaced (word :: words) (word ++ text)

/-- The words are dealt out to the texts, in order, and stand in them with spaces around them. -/
def SpacedEach (words texts : List String) : Prop :=
  ∃ groups : List (List String), groups.flatten = words ∧ List.Forall₂ Spaced groups texts

variable {diagram : Diagram} {id : Nat}

theorem contributionsOfEach_eq_flatMap (trees : List (Rose Role)) :
    contributionsOfEach trees = trees.flatMap contributions := by
  induction trees with
  | nil => rfl
  | cons tree trees ih => rw [contributionsOfEach, ih, List.flatMap_cons]

theorem contributed_eq (linked : diagram.Linked) (inside : id < diagram.size) :
    diagram.contributed id = match (diagram.role id).kind with
      | .token => (diagram.role id).text?.toList
      | .assignment => [" ".intercalate ((diagram.children id).flatMap diagram.contributed)]
      | _ => (diagram.children id).flatMap diagram.contributed := by
  rw [contributed, rolesAt_eq linked inside, contributions, contributionsOfEach_eq_flatMap,
    List.flatMap_map]
  rfl

theorem IsListing.child (linked : diagram.Linked) (inside : id < diagram.size)
    (listing : diagram.IsListing id) {child : Nat} (member : child ∈ diagram.children id) :
    diagram.IsListing child := by
  intro inner listed
  apply listing inner
  rw [preorder_below linked inside]
  exact List.mem_cons_of_mem _ (List.mem_flatMap.mpr ⟨child, member, listed⟩)

theorem IsListing.kind (linked : diagram.Linked) (inside : id < diagram.size)
    (listing : diagram.IsListing id) : (diagram.role id).kind = .token ∨
      (diagram.role id).kind = .passThrough ∨ (diagram.role id).kind = .assignment := by
  apply listing id
  rw [preorder_below linked inside]
  exact List.mem_cons_self

/-- What holds of tokens, and of the other two kinds if it holds of what is in them, holds of a
listing. -/
theorem IsListing.induction (linked : diagram.Linked) {motive : Nat → Prop}
    (token : ∀ id < diagram.size, (diagram.role id).kind = .token → motive id)
    (passed : ∀ id < diagram.size, (diagram.role id).kind = .passThrough →
      (∀ child ∈ diagram.children id, motive child) → motive id)
    (assignment : ∀ id < diagram.size, (diagram.role id).kind = .assignment →
      (∀ child ∈ diagram.children id, motive child) → motive id)
    (inside : id < diagram.size) (listing : diagram.IsListing id) : motive id := by
  refine linked.upwards (motive := fun id => diagram.IsListing id → motive id) ?_ id inside listing
  intro id inside ih listing
  have below : ∀ child ∈ diagram.children id, motive child :=
    fun child member => ih child member (listing.child linked inside member)
  rcases listing.kind linked inside with kind | kind | kind
  · exact token id inside kind
  · exact passed id inside kind below
  · exact assignment id inside kind below

theorem Role.requests_of_assignment {role : Role} (kind : role.kind = .assignment) (field : Field)
    (children : List Role) :
    role.requests field children = List.replicate children.length (some .instruction) := by
  rw [requests, List.mapIdx_eq_replicate_iff]
  intro index inside
  simp [asks, kind]

/-- A listing emits what it hands on, for the field that it is asked for. -/
theorem emit_of_isListing (linked : diagram.Linked)
    (childless : ∀ id, (diagram.role id).kind = .token → diagram.children id = [])
    (inside : id < diagram.size) (listing : diagram.IsListing id) (field : Field) :
    emit (diagram.rolesAt id) field = entriesFor field (diagram.contributed id) := by
  revert field
  refine IsListing.induction linked (motive := fun id => ∀ field,
    emit (diagram.rolesAt id) field = entriesFor field (diagram.contributed id))
    ?_ ?_ ?_ inside listing
  · intro id inside token field
    rw [emit_of_token linked inside token (childless id token), contributed_eq linked inside, token]
  · intro id inside passed ih field
    rw [emit_of_passThrough linked inside passed, contributed_eq linked inside, passed,
      entriesFor, List.map_flatMap]
    exact List.flatMap_congr fun child member => ih child member field
  · -- An assignment asks for instructions, whatever it is asked for itself.
    intro id inside kind ih field
    have plain : (diagram.role id).kind ≠ .caseHeader .condition := by simp [kind]
    have reached : diagram.arrivalsAt id field =
        entriesFor .instruction ((diagram.children id).flatMap diagram.contributed) := by
      rw [arrivalsAt_of_replicate plain (Role.requests_of_assignment kind ..), entriesFor,
        List.map_flatMap]
      exact List.flatMap_congr fun child member => ih child member .instruction
    have gathered : (collected .assignment (diagram.arrivalsAt id field)).joined .instruction =
        " ".intercalate ((diagram.children id).flatMap diagram.contributed) := by
      rw [Buffers.joined, get_collected (by decide), reached, texts_entriesFor, if_pos rfl]
    have kept : passedOn .assignment (diagram.arrivalsAt id field) = [] := by
      rw [reached, passedOn_entriesFor, if_pos (by decide)]
    rw [emit_rolesAt linked inside, contributed_eq linked inside]
    simp only [leading, trailing, kind, kept, gathered]
    rfl

theorem Spaced.append {words others : List String} {text more : String} (first : Spaced words text)
    (rest : Spaced others more) : Spaced (words ++ others) (text ++ more) := by
  induction first with
  | nil => simpa using rest
  | space _ ih =>
      rw [String.append_assoc]
      exact .space ih
  | word word _ ih =>
      rw [List.cons_append, String.append_assoc]
      exact .word word ih

theorem Spaced.single (word : String) : Spaced [word] word := by
  simpa using Spaced.word word .nil

theorem SpacedEach.intercalate {words texts : List String} (each : SpacedEach words texts) :
    Spaced words (" ".intercalate texts) := by
  obtain ⟨groups, rfl, spaced⟩ := each
  induction spaced with
  | nil => exact .nil
  | @cons group text groups texts first rest ih =>
      cases rest with
      | nil => simpa using first
      | cons second others =>
          rw [String.intercalate_cons_cons, String.append_assoc, List.flatten_cons]
          exact first.append (.space ih)

theorem SpacedEach.single {words : List String} {text : String} (spaced : Spaced words text) :
    SpacedEach words [text] :=
  ⟨[words], by simp, .cons spaced .nil⟩

theorem SpacedEach.flatMap {ids : List Nat} {words texts : Nat → List String}
    (each : ∀ id ∈ ids, SpacedEach (words id) (texts id)) :
    SpacedEach (ids.flatMap words) (ids.flatMap texts) := by
  induction ids with
  | nil => exact ⟨[], rfl, .nil⟩
  | cons id ids ih =>
      obtain ⟨groups, joined, spaced⟩ := each id List.mem_cons_self
      obtain ⟨others, joinedRest, spacedRest⟩ :=
        ih fun id member => each id (List.mem_cons_of_mem _ member)
      refine ⟨groups ++ others, ?_, List.rel_append spaced spacedRest⟩
      rw [List.flatten_append, joined, joinedRest, List.flatMap_cons]

theorem SpacedEach.indent {words texts : List String} (each : SpacedEach words texts) :
    SpacedEach words (texts.map ("  " ++ ·)) := by
  obtain ⟨groups, joined, spaced⟩ := each
  refine ⟨groups, joined, List.forall₂_map_right_iff.mpr (spaced.imp fun group text first => ?_)⟩
  exact .space (.space first)

/-- What a listing hands on holds its tokens. -/
theorem spacedEach_contributed (linked : diagram.Linked)
    (childless : ∀ id, (diagram.role id).kind = .token → diagram.children id = [])
    (inside : id < diagram.size) (listing : diagram.IsListing id) :
    SpacedEach (diagram.written id) (diagram.contributed id) := by
  refine IsListing.induction linked
    (motive := fun id => SpacedEach (diagram.written id) (diagram.contributed id))
    ?_ ?_ ?_ inside listing
  · intro id inside token
    rw [written_eq linked inside, contributed_eq linked inside, token, childless id token,
      List.flatMap_nil, List.append_nil]
    cases (diagram.role id).text? with
    | none => exact ⟨[], rfl, .nil⟩
    | some text => exact .single (.single text)
  · intro id inside passed ih
    have noText : (diagram.role id).text? = none := Role.text?_of_ne (by simp [passed])
    rw [written_eq linked inside, contributed_eq linked inside, passed, noText,
      Option.toList_none, List.nil_append]
    exact .flatMap ih
  · intro id inside kind ih
    have noText : (diagram.role id).text? = none := Role.text?_of_ne (by simp [kind])
    rw [written_eq linked inside, contributed_eq linked inside, kind, noText,
      Option.toList_none, List.nil_append]
    exact .single (SpacedEach.flatMap ih).intercalate

theorem spacedEach_of_subset (linked : diagram.Linked)
    (childless : ∀ id, (diagram.role id).kind = .token → diagram.children id = [])
    (listing : ∀ child ∈ diagram.children id, diagram.IsListing child) {ids : List Nat}
    (listed : ids ⊆ diagram.children id) :
    SpacedEach (ids.flatMap diagram.written) (ids.flatMap diagram.contributed) :=
  .flatMap fun child member =>
    spacedEach_contributed linked childless (linked.children_inside (listed member))
      (listing child (listed member))

theorem Role.requests_of_database {role : Role} (kind : role.kind = .database) (field : Field)
    (children : List Role) : role.requests field children =
      List.replicate (children.findIdx startsAssignments) (some .instruction) ++
        List.replicate (children.length - children.findIdx startsAssignments)
          (some .assignments) := by
  rw [replicate_append_replicate _ _ _ List.findIdx_le_length]
  apply List.ext_getElem
  · simp [requests]
  · intro index inside _
    have bound : index < children.length := by simpa [requests] using inside
    simp only [requests, List.getElem_mapIdx, asks, kind, any_take_succ _ _ bound,
      decide_eq_true_eq, ← Nat.not_lt, ite_not]

theorem frontOf_append_assignmentsOf (diagram : Diagram) (id : StatementId) :
    diagram.frontOf id ++ diagram.assignmentsOf id = diagram.children id :=
  List.takeWhile_append_dropWhile

theorem frontOf_subset (diagram : Diagram) (id : StatementId) :
    diagram.frontOf id ⊆ diagram.children id :=
  (List.takeWhile_prefix _).subset

theorem assignmentsOf_subset (diagram : Diagram) (id : StatementId) :
    diagram.assignmentsOf id ⊆ diagram.children id :=
  (List.dropWhile_suffix _).subset

theorem length_frontOf (diagram : Diagram) (id : StatementId) :
    (diagram.frontOf id).length = (diagram.childRoles id).findIdx Role.startsAssignments := by
  have bound : (diagram.children id).findIdx (Role.startsAssignments ∘ diagram.role) ≤
      (diagram.children id).length := List.findIdx_le_length
  rw [frontOf, List.takeWhile_eq_take_findIdx_not, childRoles, List.findIdx_map, List.length_take]
  simp only [Bool.not_not]
  exact Nat.min_eq_left bound

theorem written_of_database (linked : diagram.Linked) (inside : id < diagram.size)
    (kind : (diagram.role id).kind = .database) :
    diagram.written id = (diagram.frontOf id).flatMap diagram.written ++
      (diagram.assignmentsOf id).flatMap diagram.written := by
  have noText : (diagram.role id).text? = none := Role.text?_of_ne (by simp [kind])
  rw [written_eq linked inside, noText, Option.toList_none, List.nil_append,
    ← List.flatMap_append, frontOf_append_assignmentsOf]

/-- What reaches a database statement: the texts in front of the assignments, and those from there
on. -/
theorem arrivalsAt_of_database (linked : diagram.Linked)
    (childless : ∀ id, (diagram.role id).kind = .token → diagram.children id = [])
    (kind : (diagram.role id).kind = .database)
    (listing : ∀ child ∈ diagram.children id, diagram.IsListing child) (field : Field) :
    diagram.arrivalsAt id field =
      entriesFor .instruction ((diagram.frontOf id).flatMap diagram.contributed) ++
        entriesFor .assignments ((diagram.assignmentsOf id).flatMap diagram.contributed) := by
  have whole := frontOf_append_assignmentsOf diagram id
  have plain : (diagram.role id).kind ≠ .caseHeader .condition := by simp [kind]
  have requests : (diagram.role id).requests field (diagram.childRoles id) =
      List.replicate (diagram.frontOf id).length (some .instruction) ++
        List.replicate (diagram.assignmentsOf id).length (some .assignments) := by
    have count : (diagram.childRoles id).length =
        (diagram.frontOf id).length + (diagram.assignmentsOf id).length := by
      rw [childRoles, List.length_map, ← List.length_append, whole]
    rw [Role.requests_of_database kind, ← length_frontOf, count, Nat.add_sub_cancel_left]
  have part : ∀ ids : List Nat, ids ⊆ diagram.children id → ∀ asked,
      (ids.flatMap fun child => emit (diagram.rolesAt child) asked) =
        entriesFor asked (ids.flatMap diagram.contributed) := by
    intro ids listed asked
    rw [entriesFor, List.map_flatMap]
    exact List.flatMap_congr fun child member =>
      emit_of_isListing linked childless (linked.children_inside (listed member))
        (listing child (listed member)) asked
  rw [arrivalsAt_of_requests plain whole.symm requests,
    part _ (frontOf_subset diagram id), part _ (assignmentsOf_subset diagram id)]

/-- The lines that a database statement shows. -/
def databaseLinesAt (diagram : Diagram) (id : StatementId) : List String :=
  " ".intercalate ((diagram.frontOf id).flatMap diagram.contributed) ::
    ((diagram.assignmentsOf id).flatMap diagram.contributed).map ("  " ++ ·)

theorem elementsAt_of_database (linked : diagram.Linked) (options : Options)
    (childless : ∀ id, (diagram.role id).kind = .token → diagram.children id = [])
    (inside : id < diagram.size) (kind : (diagram.role id).kind = .database)
    (listing : ∀ child ∈ diagram.children id, diagram.IsListing child) {field : Field}
    (filledFor : diagram.FilledFor id (some field)) :
    elementsAt options diagram id = [leaf "instruction" (commaLines (diagram.databaseLinesAt id))
      options.palette.database] := by
  have same : (diagram.statement id).kind = .database := kind
  have reached := arrivalsAt_of_database linked childless kind listing field
  have buffers := filledFor.buffers linked inside
  rw [reached, kind] at buffers
  have first : (diagram.statement id).buffers.joined .instruction =
      " ".intercalate ((diagram.frontOf id).flatMap diagram.contributed) := by
    rw [buffers, Buffers.joined, get_collected (by decide), List.filter_append, List.map_append,
      texts_entriesFor, texts_entriesFor, if_pos rfl, if_neg (by decide), List.append_nil]
  have others : (diagram.statement id).buffers.get .assignments =
      (diagram.assignmentsOf id).flatMap diagram.contributed := by
    rw [buffers, get_collected (by decide), List.filter_append, List.map_append,
      texts_entriesFor, texts_entriesFor, if_neg (by decide), if_pos rfl, List.nil_append]
  rw [elementsAt_eq linked options inside, statementElements, same]
  simp only [first, others]
  rfl

/-- For every drawn database statement with nothing in it but tokens, productions that are passed
through, and assignments: its element shows one line for what is handed on in front of the
assignments, and one indented line for each text that is handed on from there on.  The tokens in
front of the assignments stand in the first line and the tokens from there on in the other lines,
each token once and in the order of the document. -/
theorem database_lines (tree : Tree) (options : Options) {id : Nat} (drawn : (build tree).Drawn id)
    (kind : ((build tree).role id).kind = .database)
    (listing : ∀ child ∈ (build tree).children id, (build tree).IsListing child) :
    (build tree).rowsAt options id <:+: rows options (build tree).view ∧
    (∃ shown,
      ReadsAs ((build tree).rowsAt options id)
        [leaf "instruction" shown options.palette.database] ∧
      readEntries shown = some ((build tree).databaseLinesAt id)) ∧
    ∃ first others,
      (build tree).databaseLinesAt id = first :: others ∧
      (build tree).written id = ((build tree).frontOf id).flatMap (build tree).written ++
        ((build tree).assignmentsOf id).flatMap (build tree).written ∧
      Spaced (((build tree).frontOf id).flatMap (build tree).written) first ∧
      SpacedEach (((build tree).assignmentsOf id).flatMap (build tree).written) others := by
  have linked := build_linked tree
  have nonempty := build_nonempty tree
  have inside := DrawnFrom.inside linked nonempty drawn
  have childless := children_build_of_token tree
  have notToken : ((build tree).role id).kind ≠ .token := by
    rw [kind]
    exact StatementKind.noConfusion
  obtain ⟨field, -, filledFor⟩ := drawn.filledFor linked nonempty (build_filledFor tree) notToken
  have reads := readsAs_rowsAt options (build tree) id
  rw [elementsAt_of_database linked options childless inside kind listing filledFor] at reads
  have front := spacedEach_of_subset linked childless listing (frontOf_subset _ id)
  have rest := spacedEach_of_subset linked childless listing (assignmentsOf_subset _ id)
  exact ⟨drawn.rowsAt_infix linked nonempty options, ⟨_, reads, readEntries_commaLines ..⟩,
    _, _, rfl, written_of_database linked inside kind, front.intercalate, rest.indent⟩

/-- A database statement with assignments in an assignment, an assignment with nothing in it, and a
token after the assignments. -/
def nestedAssignmentsExport : String :=
  "\n+--<STORE>\n|  +--STORE\n|  +--<view>\n|  |  +--EMPLOYEES\n|  +--<assign_source>\n" ++
    "|  |  +--<assignment_all>\n|  |  |  +--NAME\n|  |  |  +--:=\n|  |  |  +--<assignment_all>\n" ++
    "|  |  |  |  +--\"X\"\n|  |  +--<assignment_all>\n|  +--END\n"

theorem database_lines_nested : ∃ tree, Export.parse nestedAssignmentsExport = .ok tree ∧
    ∃ shown,
      ReadsAs ((build tree).rowsAt (.standard ⟨2000, 1, 1⟩) 1)
        [leaf "instruction" shown Palette.standard.database] ∧
      readEntries shown = some ["STORE EMPLOYEES", "  NAME := \"X\"", "  ", "  END"] := by
  let tree : Tree := ⟨#[⟨0, "<STORE>", none, .expression [1, 2, 4, 11]⟩,
    ⟨1, "STORE", some 0, .terminal⟩,
    ⟨1, "<view>", some 0, .expression [3]⟩, ⟨2, "EMPLOYEES", some 2, .terminal⟩,
    ⟨1, "<assign_source>", some 0, .expression [5, 10]⟩,
    ⟨2, "<assignment_all>", some 4, .expression [6, 7, 8]⟩, ⟨3, "NAME", some 5, .terminal⟩,
    ⟨3, ":=", some 5, .terminal⟩, ⟨3, "<assignment_all>", some 5, .expression [9]⟩,
    ⟨4, "\"X\"", some 8, .terminal⟩, ⟨2, "<assignment_all>", some 4, .expression []⟩,
    ⟨1, "END", some 0, .terminal⟩]⟩
  have parsed : Export.parse nestedAssignmentsExport = .ok tree := by decide +kernel
  have draws : (build tree).Draws 0 1 := by decide +kernel
  obtain ⟨-, ⟨shown, reads, entries⟩, -⟩ :=
    database_lines tree (.standard ⟨2000, 1, 1⟩) (.tail .refl draws) (by decide +kernel)
      (by decide +kernel)
  have lines : (build tree).databaseLinesAt 1 =
      ["STORE EMPLOYEES", "  NAME := \"X\"", "  ", "  END"] := by decide +kernel
  rw [lines] at entries
  exact ⟨tree, parsed, shown, reads, entries⟩

end NassiChart.Diagram
