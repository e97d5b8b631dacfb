import NassiChart.Diagram.Basic

/-!
# What a statement asks of its children

Every kind of statement asks each of its children for one field, or for nothing, and decides which
of the children form its body. A `Plan` is that decision for one statement. It depends on the kind
of the statement and on the labels of its children alone, never on collected text.
-/

namespace NassiChart.Diagram

open NassiChart.Grammar

structure Cell where
  id : StatementId
  kind : StatementKind
  label : Label
  deriving DecidableEq, Repr

/-- The statement at a position, as the plans see it. -/
def cell (diagram : Diagram) (id : StatementId) : Cell :=
  let statement := diagram.statement id
  ⟨id, statement.kind, statement.label⟩

def cells (diagram : Diagram) : Rose Cell :=
  diagram.shape.map diagram.cell

structure Plan where
  /-- For each child the field that it is asked for, or `none` if it is left alone. -/
  requests : List (Option Field)
  bodyStart : Nat := 0
  deriving DecidableEq, Repr

def loopBodyName : String := "loop_statement_list"

def Cell.isLoopBody (cell : Cell) : Bool :=
  cell.label.isProduction loopBodyName

/-- What follows `start` in `name`, if the name starts with it. -/
def dropName? : (start name : List Char) → Option (List Char)
  | [], rest => some rest
  | _ :: _, [] => none
  | a :: start, c :: name => if a = c then dropName? start name else none

/-- A production is an arm of a decision if its name continues the name of the decision in one of
two ways. -/
def continuesAsArm (decision name : String) : Bool :=
  match dropName? decision.toList name.toList with
  | some rest => "_branch".toList.isPrefixOf rest || rest == "_none".toList
  | none => false

/-- The statement opens the arms of the decision `header`. -/
def Cell.isArmOf (header child : Cell) : Bool :=
  child.kind.isArm || match header.label, child.label with
    | .production decision, .production name => continuesAsArm decision name
    | _, _ => false

/-- The statement opens the assignments of a database statement. -/
def Cell.opensAssignments (cell : Cell) : Bool :=
  match cell.label with
  | .production name =>
    "_source".toList.isSuffixOf name.toList || "_how".toList.isSuffixOf name.toList
  | .token _ => false

namespace Plan

def uniform (field : Field) (children : List Cell) : Plan where
  requests := children.map fun _ => some field

/-- Children before the body are asked for `field`, the others for the body. -/
def headed (field : Field) (bodyStart : Nat) (children : List Cell) : Plan where
  requests := List.replicate bodyStart (some field) ++
    List.replicate (children.length - bodyStart) (some .body)
  bodyStart := bodyStart

/-- The keyword, the variable and the bounds come first. A fifth child that is not the loop's body
is the step. The rest is the body. -/
def forLoop (children : List Cell) : Plan :=
  let header := [Field.instruction, .forControl, .forFrom, .forTo] ++
    ((children.drop 4).take 1).filterMap fun child =>
      if child.isLoopBody then none else some .forStep
  { requests := ((header ++ List.replicate children.length .body).take children.length).map some
    bodyStart := min header.length children.length }

/-- The body starts at the first child that holds the statements of a loop, or else is the last
child. -/
def whileLoop (children : List Cell) : Plan :=
  headed .instruction
    ((children.findIdx? Cell.isLoopBody).getD (children.length - 1)) children

/-- The first child is the keyword, which is left out. The body starts at the first branch. -/
def alternative : List Cell → Plan
  | [] => { requests := [] }
  | _ :: rest =>
    let inner := headed .instruction (rest.findIdx (·.kind.isBranch)) rest
    { requests := none :: inner.requests, bodyStart := inner.bodyStart + 1 }

/-- What the children before the first arm are asked for. The operand of a decision on a value is
the last of them. -/
def caseHeaderFields : CaseSelector → Nat → List Field
  | .condition, count => List.replicate count .comments
  | .value, 0 => []
  | .value, count + 1 => List.replicate count .comments ++ [.control]

/-- The body starts at the first arm. Tokens from there on are left out. -/
def caseHeader (selector : CaseSelector) (header : Cell) (children : List Cell) : Plan :=
  let bodyStart := children.findIdx (Cell.isArmOf header)
  { requests := (caseHeaderFields selector bodyStart).map some ++
      (children.drop bodyStart).map fun child =>
        if child.kind = .token then none else some .body
    bodyStart := bodyStart }

/-- The second child holds the condition of the arm. -/
def caseArm (children : List Cell) : Plan where
  requests := children.zipIdx.map fun (_, index) =>
    if index = 1 then some .condition else some .instruction

/-- Assignments start at the child that opens them. -/
def database (children : List Cell) : Plan :=
  let split := children.findIdx Cell.opensAssignments
  { requests := List.replicate split (some .instruction) ++
      List.replicate (children.length - split) (some .assignments) }

/-- The plan of a statement that was itself asked for `field`. -/
def of (field : Field) (cell : Cell) (children : List Cell) : Plan :=
  match cell.kind with
  | .document | .passThrough => uniform field children
  | .instruction | .call | .jump _ | .trueBranch | .falseBranch | .silent | .defaultArm
  | .assignment => uniform .instruction children
  | .foreverLoop => uniform .body children
  | .forLoop => forLoop children
  | .whileLoop _ => whileLoop children
  | .alternative => alternative children
  | .caseHeader selector => caseHeader selector cell children
  | .caseArm => caseArm children
  | .conditionGroup => uniform .condition children
  | .database => database children
  | .token => { requests := [] }

end Plan

end NassiChart.Diagram
