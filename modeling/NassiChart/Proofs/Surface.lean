import Mathlib.Data.List.Flatten
import NassiChart.Proofs.Drawn
import NassiChart.Proofs.Elements

/-! # Elements of a statement and its surface

What is read from the rows of a statement is put together from what is read for its children.  A
production that is passed through is drawn as its children are, so for what is drawn it can be
replaced by them.  `surface` does this all the way down: it lists the statements that one statement
stands for, in the order of the document.
-/

namespace NassiChart.Document

open NassiChart.Diagram

/-- The elements of a statement with everything below it. -/
def elementsAt (options : Options) (diagram : Diagram) (id : StatementId) : List Element :=
  elements options (diagram.viewAt id)

theorem elementsOfEach_eq_map (options : Options) (trees : List (Rose Statement)) :
    elementsOfEach options trees = trees.map (elements options) := by
  induction trees with
  | nil => rfl
  | cons tree trees ih => rw [elementsOfEach, ih, List.map_cons]

theorem elementsAt_eq {diagram : Diagram} (linked : diagram.Linked) (options : Options) {id : Nat}
    (inside : id < diagram.size) :
    elementsAt options diagram id = statementElements options (diagram.statement id)
      ((diagram.children id).map fun child => (diagram.statement child).kind)
      ((diagram.children id).map (elementsAt options diagram)) := by
  rw [elementsAt, viewAt_eq linked inside, elements, elementsOfEach_eq_map, List.map_map,
    List.map_map]
  refine congrArg₂ _ (List.map_congr_left fun child _ => ?_) rfl
  exact congrArg Statement.kind (value_map_below diagram.statement child)

theorem readsAs_rowsAt (options : Options) (diagram : Diagram) (id : StatementId) :
    ReadsAs (diagram.rowsAt options id) (elementsAt options diagram id) :=
  readsAs_rows options (diagram.viewAt id)

end NassiChart.Document

namespace NassiChart.Diagram

open NassiChart.Document

mutual
def surfaceOf (diagram : Diagram) : Rose StatementId → List StatementId
  | .node id trees =>
    if (diagram.role id).kind = .passThrough then surfaceOfEach diagram trees else [id]
def surfaceOfEach (diagram : Diagram) : List (Rose StatementId) → List StatementId
  | [] => []
  | tree :: trees => surfaceOf diagram tree ++ surfaceOfEach diagram trees
end

/-- The statement, or the statements in it if it is passed through. -/
def surface (diagram : Diagram) (id : StatementId) : List StatementId :=
  diagram.surfaceOf (diagram.below id)

/-- What is drawn for the children of a statement. -/
def elementsBelow (options : Options) (diagram : Diagram) (id : StatementId) : List Element :=
  (diagram.children id).flatMap (elementsAt options diagram)

theorem surfaceOfEach_eq_flatMap (diagram : Diagram) (trees : List (Rose StatementId)) :
    diagram.surfaceOfEach trees = trees.flatMap diagram.surfaceOf := by
  induction trees with
  | nil => rfl
  | cons tree trees ih => rw [surfaceOfEach, ih, List.flatMap_cons]

variable {diagram : Diagram} {id : Nat}

theorem below_eq (linked : diagram.Linked) (inside : id < diagram.size) :
    diagram.below id = .node id ((diagram.children id).map diagram.below) :=
  linked.unfold_eq inside

theorem surface_of_passThrough (linked : diagram.Linked) (inside : id < diagram.size)
    (passed : (diagram.role id).kind = .passThrough) :
    diagram.surface id = (diagram.children id).flatMap diagram.surface := by
  rw [surface, below_eq linked inside, surfaceOf, if_pos passed, surfaceOfEach_eq_flatMap,
    List.flatMap_map]
  rfl

theorem surface_of_ne (linked : diagram.Linked) (inside : id < diagram.size)
    (other : (diagram.role id).kind ≠ .passThrough) : diagram.surface id = [id] := by
  rw [surface, below_eq linked inside, surfaceOf, if_neg other]

theorem preorder_below (linked : diagram.Linked) (inside : id < diagram.size) :
    (diagram.below id).preorder =
      id :: (diagram.children id).flatMap fun child => (diagram.below child).preorder := by
  rw [below_eq linked inside, Rose.preorder, Rose.preorderAll_eq_flatMap, List.flatMap_map]

/-- The surface keeps the order of the document. -/
theorem surface_sublist (linked : diagram.Linked) (inside : id < diagram.size) :
    (diagram.surface id).Sublist (diagram.below id).preorder := by
  refine linked.upwards (motive := fun id =>
    (diagram.surface id).Sublist (diagram.below id).preorder) ?_ id inside
  intro id inside ih
  rw [preorder_below linked inside]
  by_cases passed : (diagram.role id).kind = .passThrough
  · rw [surface_of_passThrough linked inside passed]
    exact (List.Sublist.flatMap_right _ ih).cons id
  · rw [surface_of_ne linked inside passed]
    exact (List.nil_sublist _).cons_cons id

theorem surface_nodup (linked : diagram.Linked) (inside : id < diagram.size) :
    (diagram.surface id).Nodup :=
  (surface_sublist linked inside).nodup
    (linked.preorder_unfold_nodup inside (Nat.le_add_right diagram.size id))

theorem of_mem_surface (linked : diagram.Linked) (inside : id < diagram.size) {shown : Nat}
    (member : shown ∈ diagram.surface id) :
    shown < diagram.size ∧ (diagram.role shown).kind ≠ .passThrough := by
  refine linked.upwards (motive := fun id => shown ∈ diagram.surface id →
    shown < diagram.size ∧ (diagram.role shown).kind ≠ .passThrough) ?_ id inside member
  intro id inside ih member
  by_cases passed : (diagram.role id).kind = .passThrough
  · rw [surface_of_passThrough linked inside passed] at member
    obtain ⟨child, listed, deeper⟩ := List.mem_flatMap.mp member
    exact ih child listed deeper
  · rw [surface_of_ne linked inside passed, List.mem_singleton] at member
    exact member ▸ ⟨inside, passed⟩

/-- A statement is drawn as what is on its surface. -/
theorem elementsAt_eq_surface (linked : diagram.Linked) (options : Options)
    (inside : id < diagram.size) : elementsAt options diagram id =
      (diagram.surface id).flatMap (elementsAt options diagram) := by
  refine linked.upwards (motive := fun id => elementsAt options diagram id =
    (diagram.surface id).flatMap (elementsAt options diagram)) ?_ id inside
  intro id inside ih
  by_cases passed : (diagram.role id).kind = .passThrough
  · have kind : (diagram.statement id).kind = .passThrough := passed
    rw [surface_of_passThrough linked inside passed, List.flatMap_assoc,
      elementsAt_eq linked options inside, statementElements, kind]
    exact congrArg List.flatten (List.map_congr_left ih)
  · rw [surface_of_ne linked inside passed, List.flatMap_singleton]

end NassiChart.Diagram
