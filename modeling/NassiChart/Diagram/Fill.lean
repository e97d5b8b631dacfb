import NassiChart.Diagram.OfTree
import NassiChart.Diagram.Plan

/-!
# Filling a diagram with text

`fill` walks a diagram from the document down and routes the text of every token into the
statement that displays it. A token hands its text upwards under the field that it is asked for.
A few kinds report text of their own: an arm reports its condition to the decision around it, and
the two gathering kinds report what they collected as one line.
-/

namespace NassiChart.Diagram

open NassiChart.Grammar

/-- The condition that stands for "every arm tests its own". -/
def everyCondition : String := "*"

/-- The condition of the arm that is taken when no other is. -/
def noneCondition : String := "NONE"

def opening (diagram : Diagram) (cell : Cell) : Diagram :=
  match cell.kind with
  | .defaultArm => diagram.report cell.id .branches noneCondition
  | .caseHeader .condition => diagram.addText cell.id .control everyCondition
  | _ => diagram

/-- What a statement does after its children are filled. An arm reports its condition even if it
is empty, so that every arm has an entry in the header. -/
def closing (diagram : Diagram) (field : Field) (cell : Cell) : Diagram :=
  match cell.kind with
  | .token => match cell.label with
    | .token text => diagram.report cell.id field text
    | .production _ => diagram
  | .caseArm => diagram.report cell.id .branches (diagram.joined cell.id .condition)
  | .conditionGroup => diagram.report cell.id field (diagram.joined cell.id .condition)
  | .assignment => diagram.report cell.id field (diagram.joined cell.id .instruction)
  | _ => diagram

mutual
/-- Fill the statements of a tree whose root is asked for `field`. -/
def fillFrom : Rose Cell → Field → Diagram → Diagram
  | .node cell trees, field, diagram =>
    let plan := Plan.of field cell (trees.map Rose.value)
    let started := (diagram.setBodyStart cell.id plan.bodyStart).opening cell
    (fillAll trees plan.requests started).closing field cell
def fillAll : List (Rose Cell) → List (Option Field) → Diagram → Diagram
  | tree :: trees, some field :: requests, diagram =>
    fillAll trees requests (fillFrom tree field diagram)
  | _ :: trees, none :: requests, diagram => fillAll trees requests diagram
  | _, _, diagram => diagram
end

def fill (diagram : Diagram) : Diagram :=
  fillFrom diagram.cells .instruction diagram

def build (tree : Tree) : Diagram :=
  (ofTree tree).fill

end NassiChart.Diagram
