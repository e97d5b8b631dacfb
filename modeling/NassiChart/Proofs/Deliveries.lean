import NassiChart.Proofs.Below

/-! # The deliveries of a walk

A walk hands out texts one after the other, each under a field.  `deliveriesFrom` records them along
the states that the walk goes through, with the statement that took each of them, and `callsFrom` the
statements that it visits, with the field that each is asked for.  The buffers that the walk leaves
are what has been delivered (`delivered_fillFrom`), and the deliveries are those of the visited
statements, in another order (`deliveriesFrom_perm`).
-/

namespace NassiChart.Diagram

open NassiChart.Grammar

/-- A text that a statement has handed out. -/
structure Delivery where
  source : StatementId
  field : Field
  text : String
  /-- The statement that took the text. Without one it was dropped. -/
  receiver : Option StatementId
  deriving DecidableEq, Repr

def openingDeliveries (diagram : Diagram) (cell : Cell) : List Delivery :=
  match cell.kind with
  | .defaultArm => [⟨cell.id, .branches, noneCondition, diagram.above? cell.id .branches⟩]
  | .caseHeader .condition =>
    [⟨cell.id, .control, everyCondition, diagram.receiver? cell.id .control⟩]
  | _ => []

def closingDeliveries (diagram : Diagram) (field : Field) (cell : Cell) : List Delivery :=
  match cell.kind with
  | .token => match cell.label with
    | .token text => [⟨cell.id, field, text, diagram.above? cell.id field⟩]
    | .production _ => []
  | .caseArm => [⟨cell.id, .branches, diagram.joined cell.id .condition,
      diagram.above? cell.id .branches⟩]
  | .conditionGroup => [⟨cell.id, field, diagram.joined cell.id .condition,
      diagram.above? cell.id field⟩]
  | .assignment => [⟨cell.id, field, diagram.joined cell.id .instruction,
      diagram.above? cell.id field⟩]
  | _ => []

mutual
/-- What is handed out while a tree is filled. -/
def deliveriesFrom : Rose Cell → Field → Diagram → List Delivery
  | .node cell trees, field, diagram =>
    let plan := Plan.of field cell (trees.map Rose.value)
    let bodied := diagram.setBodyStart cell.id plan.bodyStart
    let started := bodied.opening cell
    bodied.openingDeliveries cell ++ deliveriesOfAll trees plan.requests started ++
      (fillAll trees plan.requests started).closingDeliveries field cell
def deliveriesOfAll : List (Rose Cell) → List (Option Field) → Diagram → List Delivery
  | tree :: trees, some field :: requests, diagram =>
    deliveriesFrom tree field diagram ++ deliveriesOfAll trees requests (fillFrom tree field diagram)
  | _ :: trees, none :: requests, diagram => deliveriesOfAll trees requests diagram
  | _, _, _ => []
end

mutual
/-- The statements that are visited while a tree is filled, each with the field that it is asked
for. -/
def callsFrom : Rose Cell → Field → List (Cell × Field)
  | .node cell trees, field =>
    (cell, field) :: callsOfAll trees (Plan.of field cell (trees.map Rose.value)).requests
def callsOfAll : List (Rose Cell) → List (Option Field) → List (Cell × Field)
  | tree :: trees, some field :: requests => callsFrom tree field ++ callsOfAll trees requests
  | _ :: trees, none :: requests => callsOfAll trees requests
  | _, _ => []
end

/-- The entries that a statement has taken. -/
def received (log : List Delivery) (id : StatementId) : List Entry :=
  (log.filter fun delivery => delivery.receiver = some id).map fun delivery =>
    (delivery.field, delivery.text)

theorem received_append (first second : List Delivery) (id : Nat) :
    received (first ++ second) id = received first id ++ received second id := by
  rw [received, List.filter_append, List.map_append]
  rfl

/-- The buffers differ by what has been delivered. -/
def Delivered (log : List Delivery) (before after : Diagram) : Prop :=
  ∀ id, (after.statement id).buffers =
    (received log id).foldl (fun buffers entry => buffers.append entry.1 entry.2)
      (before.statement id).buffers

namespace Delivered

theorem nil {before after : Diagram}
    (same : ∀ id, (after.statement id).buffers = (before.statement id).buffers) :
    Delivered [] before after :=
  same

theorem append {first second : List Delivery} {before middle after : Diagram}
    (delivered : Delivered first before middle) (more : Delivered second middle after) :
    Delivered (first ++ second) before after := by
  intro id
  rw [more id, delivered id, received_append, List.foldl_append]

end Delivered

theorem delivered_of_gains {before after : Diagram} {route : Field → Option StatementId}
    {source : StatementId} {field : Field} {text : String}
    (gained : ∀ id, Gains route [(field, text)] before after id) :
    Delivered [⟨source, field, text, route field⟩] before after := by
  intro id
  have entries : received [⟨source, field, text, route field⟩] id =
      arriving route id [(field, text)] := by
    by_cases taken : route field = some id <;> simp [received, arriving, taken]
  have here := gained id
  rw [Gains, ← entries] at here
  rw [statement, statement, here]
  cases before.statement? id with
  | some statement => rfl
  | none =>
      -- Outside of the diagram there is no buffer to put anything into.
      have nowhere : ∀ entries : List Entry,
          entries.foldl (fun buffers entry => buffers.append entry.1 entry.2) vacant.buffers =
            vacant.buffers := by
        intro entries
        induction entries with
        | nil => rfl
        | cons entry entries ih => exact ih
      exact (nowhere _).symm

theorem delivered_report (diagram : Diagram) (id : StatementId) (field : Field) (text : String) :
    Delivered [⟨id, field, text, diagram.above? id field⟩] diagram
      (diagram.report id field text) :=
  delivered_of_gains (gains_report diagram id field text)

theorem delivered_opening (diagram : Diagram) (cell : Cell) :
    Delivered (diagram.openingDeliveries cell) diagram (diagram.opening cell) := by
  unfold openingDeliveries opening
  cases cell.kind with
  | defaultArm => exact delivered_report diagram cell.id _ _
  | caseHeader selector =>
      cases selector with
      | value => exact .nil fun _ => rfl
      | condition =>
          exact delivered_of_gains (gains_addText diagram cell.id .control everyCondition)
  | _ => exact .nil fun _ => rfl

theorem delivered_closing (diagram : Diagram) (field : Field) (cell : Cell) :
    Delivered (diagram.closingDeliveries field cell) diagram (diagram.closing field cell) := by
  unfold closingDeliveries closing
  cases cell.kind with
  | token =>
      cases cell.label with
      | token text => exact delivered_report diagram cell.id _ _
      | production name => exact .nil fun _ => rfl
  | caseArm => exact delivered_report diagram cell.id _ _
  | conditionGroup => exact delivered_report diagram cell.id _ _
  | assignment => exact delivered_report diagram cell.id _ _
  | _ => exact .nil fun _ => rfl

theorem buffers_setBodyStart (diagram : Diagram) (id start j : Nat) :
    ((diagram.setBodyStart id start).statement j).buffers = (diagram.statement j).buffers := by
  rw [statement, statement, setBodyStart, statement?_modify]
  split
  · cases diagram.statement? j <;> rfl
  · rfl

mutual
/-- What a walk adds to the buffers is what it hands out. -/
theorem delivered_fillFrom (tree : Rose Cell) (field : Field) (diagram : Diagram) :
    Delivered (deliveriesFrom tree field diagram) diagram (fillFrom tree field diagram) := by
  cases tree with
  | node cell trees =>
      rw [deliveriesFrom, fillFrom]
      generalize Plan.of field cell (trees.map Rose.value) = plan
      have bodied : Delivered [] diagram (diagram.setBodyStart cell.id plan.bodyStart) :=
        .nil (buffers_setBodyStart diagram cell.id plan.bodyStart)
      have started := bodied.append (delivered_opening _ cell)
      have filled := started.append (delivered_fillAll trees plan.requests _)
      exact filled.append (delivered_closing _ field cell)
theorem delivered_fillAll (trees : List (Rose Cell)) (requests : List (Option Field))
    (diagram : Diagram) :
    Delivered (deliveriesOfAll trees requests diagram) diagram
      (fillAll trees requests diagram) := by
  cases trees with
  | nil => cases requests <;> exact .nil fun _ => rfl
  | cons tree trees =>
      cases requests with
      | nil => exact .nil fun _ => rfl
      | cons request requests =>
          cases request with
          | none => exact delivered_fillAll trees requests diagram
          | some field =>
              exact (delivered_fillFrom tree field diagram).append
                (delivered_fillAll trees requests _)
end

mutual
theorem frame_fillFrom (tree : Rose Cell) (field : Field) (diagram : Diagram) :
    (fillFrom tree field diagram).frame = diagram.frame := by
  cases tree with
  | node cell trees =>
      rw [fillFrom]
      exact frame_closing ((frame_fillAll trees _ _).trans
        (frame_opening (frame_setBodyStart ..) cell)) field cell
theorem frame_fillAll (trees : List (Rose Cell)) (requests : List (Option Field))
    (diagram : Diagram) : (fillAll trees requests diagram).frame = diagram.frame := by
  cases trees with
  | nil => cases requests <;> rfl
  | cons tree trees =>
      cases requests with
      | nil => rfl
      | cons request requests =>
          cases request with
          | none => exact frame_fillAll trees requests diagram
          | some field =>
              exact (frame_fillAll trees requests _).trans (frame_fillFrom tree field diagram)
end

/-- The field under which a statement hands out a text, and the statement that takes it. -/
def route? (diagram : Diagram) (field : Field) (cell : Cell) :
    Option (Field × Option StatementId) :=
  match cell.kind with
  | .token => match cell.label with
    | .token _ => some (field, diagram.above? cell.id field)
    | .production _ => none
  | .conditionGroup | .assignment => some (field, diagram.above? cell.id field)
  | .caseArm | .defaultArm => some (.branches, diagram.above? cell.id .branches)
  | .caseHeader .condition => some (.control, diagram.receiver? cell.id .control)
  | _ => none

/-- These are the deliveries of a statement that is asked for a field: one at most, and that of a
token has its text. -/
def Hands (start : Diagram) (call : Cell × Field) (log : List Delivery) : Prop :=
  ∃ text, (call.1.kind = .token → ∀ written, call.1.label = .token written → text = written) ∧
    log = (start.route? call.2 call.1).toList.map fun route =>
      ⟨call.1.id, route.1, text, route.2⟩

theorem hands {start before after : Diagram} (same : before.frame = start.frame)
    (same' : after.frame = start.frame) (cell : Cell) (field : Field) :
    start.Hands (cell, field)
      (before.openingDeliveries cell ++ after.closingDeliveries field cell) := by
  unfold Hands route? openingDeliveries closingDeliveries
  rw [above?_of_frame same, above?_of_frame same', receiver?_of_frame same]
  cases kind : cell.kind with
  | token =>
      cases label : cell.label with
      | token text => exact ⟨text, by simp, rfl⟩
      | production name => exact ⟨"", by simp, rfl⟩
  | caseHeader selector => cases selector <;> exact ⟨everyCondition, by simp, rfl⟩
  | defaultArm => exact ⟨noneCondition, by simp, rfl⟩
  | caseArm => exact ⟨after.joined cell.id .condition, by simp, rfl⟩
  | conditionGroup => exact ⟨after.joined cell.id .condition, by simp, rfl⟩
  | assignment => exact ⟨after.joined cell.id .instruction, by simp, rfl⟩
  | _ => exact ⟨"", by simp, rfl⟩

mutual
/-- The deliveries of a walk are those of the statements that it visits. -/
theorem deliveriesFrom_perm {start : Diagram} (tree : Rose Cell) (field : Field)
    {diagram : Diagram} (same : diagram.frame = start.frame) :
    ∃ parts, List.Forall₂ start.Hands (callsFrom tree field) parts ∧
      (deliveriesFrom tree field diagram).Perm parts.flatten := by
  cases tree with
  | node cell trees =>
      rw [callsFrom, deliveriesFrom]
      generalize Plan.of field cell (trees.map Rose.value) = plan
      have bodied := (frame_setBodyStart diagram cell.id plan.bodyStart).trans same
      have started := frame_opening bodied cell
      have filled := (frame_fillAll trees plan.requests _).trans started
      obtain ⟨parts, each, ordered⟩ := deliveriesOfAll_perm trees plan.requests started
      refine ⟨_, .cons (hands bodied filled cell field) each, ?_⟩
      rw [List.flatten_cons, List.append_assoc, List.append_assoc]
      exact (List.perm_append_comm.trans (ordered.append_left _)).append_left _
theorem deliveriesOfAll_perm {start : Diagram} (trees : List (Rose Cell))
    (requests : List (Option Field)) {diagram : Diagram} (same : diagram.frame = start.frame) :
    ∃ parts, List.Forall₂ start.Hands (callsOfAll trees requests) parts ∧
      (deliveriesOfAll trees requests diagram).Perm parts.flatten := by
  cases trees with
  | nil => cases requests <;> exact ⟨[], .nil, .nil⟩
  | cons tree trees =>
      cases requests with
      | nil => exact ⟨[], .nil, .nil⟩
      | cons request requests =>
          cases request with
          | none => exact deliveriesOfAll_perm trees requests same
          | some field =>
              obtain ⟨first, each, ordered⟩ := deliveriesFrom_perm tree field same
              obtain ⟨others, each', ordered'⟩ := deliveriesOfAll_perm trees requests
                ((frame_fillFrom tree field diagram).trans same)
              refine ⟨first ++ others, List.rel_append each each', ?_⟩
              rw [List.flatten_append]
              exact ordered.append ordered'
end

end NassiChart.Diagram
