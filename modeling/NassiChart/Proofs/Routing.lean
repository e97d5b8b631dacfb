import NassiChart.Diagram.Fill
import NassiChart.Proofs.Emission
import NassiChart.Proofs.Lineage

/-! # The way of a text

Text changes the buffers of statements and nothing else, so links, kinds and declared fields are the
same all through a walk: they are the `frame` of the diagram.  The receiver of a field is a matter
of the frame alone.  `Gains` says what a statement takes up when entries are handed out along a
route, and composes over the parts of a walk.
-/

namespace NassiChart.Diagram

open NassiChart.Grammar

/-- A statement without what it has collected. -/
def Statement.frame (statement : Statement) : Statement :=
  { statement with buffers := .blank statement.buffers.fields, bodyStart := 0 }

/-- A diagram without what its statements have collected. -/
def frame (diagram : Diagram) : Diagram :=
  ⟨diagram.statements.map Statement.frame⟩

@[simp] theorem statement?_frame (diagram : Diagram) (id : Nat) :
    diagram.frame.statement? id = (diagram.statement? id).map Statement.frame := by
  simp [frame, statement?]

@[simp] theorem size_frame (diagram : Diagram) : diagram.frame.size = diagram.size := by
  simp [frame, size]

theorem statement_frame (diagram : Diagram) (id : Nat) :
    diagram.frame.statement id = (diagram.statement id).frame := by
  rw [statement, statement, statement?_frame]
  cases diagram.statement? id <;> rfl

@[simp] theorem parent?_frame (diagram : Diagram) : diagram.frame.parent? = diagram.parent? := by
  funext id
  rw [parent?, parent?, statement?_frame]
  cases diagram.statement? id <;> rfl

@[simp] theorem children_frame (diagram : Diagram) :
    diagram.frame.children = diagram.children := by
  funext id
  rw [children, children, statement_frame]
  rfl

theorem declares_eq (diagram : Diagram) (field : Field) (id : Nat) :
    diagram.declares field id =
      (diagram.statement? id).any fun statement => field ∈ statement.buffers.fields := by
  rw [declares]
  congr 1
  funext statement
  rw [Bool.eq_iff_iff, decide_eq_true_eq, Buffers.fields, List.mem_map, Buffers.declares,
    List.any_eq_true]
  simp only [beq_iff_eq]

@[simp] theorem declares_frame (diagram : Diagram) :
    diagram.frame.declares = diagram.declares := by
  funext field id
  rw [declares_eq, declares_eq, statement?_frame]
  cases diagram.statement? id with
  | none => rfl
  | some statement => simp [Statement.frame]

@[simp] theorem receiver?_frame (diagram : Diagram) :
    diagram.frame.receiver? = diagram.receiver? := by
  funext start field
  simp [receiver?, ancestors]

theorem frame_modify {diagram : Diagram} {change : Statement → Statement}
    (same : ∀ statement, (change statement).frame = statement.frame) (id : Nat) :
    (diagram.modify id change).frame = diagram.frame := by
  apply eq_of_statement?
  intro j
  rw [statement?_frame, statement?_frame, statement?_modify]
  split
  · cases diagram.statement? j with
    | none => rfl
    | some statement => exact congrArg some (same statement)
  · rfl

@[simp] theorem frame_appendText (diagram : Diagram) (id : Nat) (field : Field) (text : String) :
    (diagram.appendText id field text).frame = diagram.frame := by
  apply frame_modify
  intro statement
  simp [Statement.frame]

@[simp] theorem frame_setBodyStart (diagram : Diagram) (id start : Nat) :
    (diagram.setBodyStart id start).frame = diagram.frame := by
  apply frame_modify
  intro statement
  rfl

@[simp] theorem frame_addText (diagram : Diagram) (start : Nat) (field : Field) (text : String) :
    (diagram.addText start field text).frame = diagram.frame := by
  unfold addText handText
  split <;> simp

@[simp] theorem frame_report (diagram : Diagram) (id : Nat) (field : Field) (text : String) :
    (diagram.report id field text).frame = diagram.frame := by
  unfold report
  split <;> simp

/-- The statement that a text from `id` reaches if `id` itself does not take it. -/
def above? (diagram : Diagram) (id : StatementId) (field : Field) : Option StatementId :=
  (diagram.parent? id).bind fun parent => diagram.receiver? parent field

theorem above?_of_frame {diagram other : Diagram} (same : diagram.frame = other.frame) :
    diagram.above? = other.above? := by
  funext id field
  rw [above?, above?, ← parent?_frame, ← receiver?_frame, same, parent?_frame, receiver?_frame]

theorem receiver?_of_frame {diagram other : Diagram} (same : diagram.frame = other.frame) :
    diagram.receiver? = other.receiver? := by
  rw [← receiver?_frame, same, receiver?_frame]

/-- A statement that declares the field takes the text; otherwise it is on its way upwards. -/
theorem receiver?_eq {diagram : Diagram} (down : Descends diagram.parent?) (id : Nat)
    (field : Field) :
    diagram.receiver? id field =
      if diagram.declares field id then some id else diagram.above? id field := by
  rw [receiver?, ancestors, above?]
  cases link : diagram.parent? id with
  | none =>
      rw [lineage_of_none link]
      cases taken : diagram.declares field id with
      | true => rw [List.find?_cons_of_pos taken]; rfl
      | false => rw [List.find?_cons_of_neg (by simp [taken])]; rfl
  | some parent =>
      rw [lineage_of_some down link]
      cases taken : diagram.declares field id with
      | true => rw [List.find?_cons_of_pos taken]; rfl
      | false => rw [List.find?_cons_of_neg (by simp [taken])]; rfl

theorem mem_lineage_of_receiver? {diagram : Diagram} {start id : Nat} {field : Field}
    (found : diagram.receiver? start field = some id) :
    id ∈ lineage diagram.parent? start :=
  List.mem_of_find?_eq_some found

theorem lt_of_above? {diagram : Diagram} (down : Descends diagram.parent?) {id receiver : Nat}
    {field : Field} (found : diagram.above? id field = some receiver) : receiver < id := by
  obtain ⟨parent, link, found⟩ := Option.bind_eq_some_iff.mp found
  have smaller := down id parent link
  have upward := le_of_mem_lineage down (mem_lineage_of_receiver? found)
  omega

/-- The statement with more entries in its buffers. -/
def Statement.take (statement : Statement) (entries : List Entry) : Statement :=
  { statement with
    buffers := entries.foldl (fun buffers entry => buffers.append entry.1 entry.2)
      statement.buffers }

theorem Statement.take_append (statement : Statement) (first second : List Entry) :
    statement.take (first ++ second) = (statement.take first).take second := by
  simp [Statement.take]

/-- The entries that a route leads to a statement. -/
def arriving (route : Field → Option StatementId) (id : StatementId) (entries : List Entry) :
    List Entry :=
  entries.filter fun entry => route entry.1 = some id

theorem arriving_append (route : Field → Option Nat) (id : Nat) (first second : List Entry) :
    arriving route id (first ++ second) = arriving route id first ++ arriving route id second :=
  List.filter_append ..

/-- A statement takes up those of the entries that the route leads to it. -/
def Gains (route : Field → Option StatementId) (entries : List Entry) (before after : Diagram)
    (id : StatementId) : Prop :=
  after.statement? id = (before.statement? id).map (·.take (arriving route id entries))

namespace Gains

variable {route : Field → Option Nat} {first second : List Entry} {before middle after : Diagram}
  {id : Nat}

theorem nil (same : after.statement? id = before.statement? id) :
    Gains route [] before after id := by
  rw [Gains, same]
  cases before.statement? id <;> rfl

theorem append (gained : Gains route first before middle id)
    (more : Gains route second middle after id) :
    Gains route (first ++ second) before after id := by
  rw [Gains, more, gained, Option.map_map, arriving_append]
  congr 1
  funext statement
  exact (Statement.take_append ..).symm

/-- A statement that the route leads nothing to stays as it is. -/
theorem unreached (gained : Gains route first before after id)
    (away : ∀ entry ∈ first, route entry.1 ≠ some id) :
    after.statement? id = before.statement? id := by
  have nothing : arriving route id first = [] := by
    rw [arriving, List.filter_eq_nil_iff]
    intro entry member
    simp [away entry member]
  rw [Gains, nothing] at gained
  rw [gained]
  cases before.statement? id <;> rfl

theorem reroute {other : Field → Option Nat} (gained : Gains route first before after id)
    (same : arriving other id second = arriving route id first) :
    Gains other second before after id := by
  rw [Gains, same]
  exact gained

end Gains

theorem gains_appendText (diagram : Diagram) (field : Field) (text : String) {receiver : Nat}
    {route : Field → Option Nat} (found : route field = some receiver) (id : Nat) :
    Gains route [(field, text)] diagram (diagram.appendText receiver field text) id := by
  rw [Gains, appendText, statement?_modify, arriving]
  by_cases same : id = receiver
  · rw [if_pos same]
    simp [found, same, Statement.take]
  · rw [if_neg same]
    have away : ¬ receiver = id := fun h => same h.symm
    cases diagram.statement? id <;> simp [found, away, Statement.take]

theorem gains_dropped (diagram : Diagram) (field : Field) (text : String)
    {route : Field → Option Nat} (lost : route field = none) (id : Nat) :
    Gains route [(field, text)] diagram diagram id := by
  rw [Gains, arriving]
  cases diagram.statement? id <;> simp [lost, Statement.take]

theorem gains_addText (diagram : Diagram) (start : Nat) (field : Field) (text : String)
    (id : Nat) :
    Gains (diagram.receiver? start) [(field, text)] diagram (diagram.addText start field text)
      id := by
  unfold addText handText
  split
  · rename_i receiver found
    exact gains_appendText diagram field text found id
  · rename_i lost
    exact gains_dropped diagram field text lost id

theorem gains_report (diagram : Diagram) (child : Nat) (field : Field) (text : String)
    (id : Nat) :
    Gains (diagram.above? child) [(field, text)] diagram (diagram.report child field text) id := by
  unfold report
  cases link : diagram.parent? child with
  | none => exact gains_dropped diagram field text (by simp [above?, link]) id
  | some parent =>
      apply (gains_addText diagram parent field text id).reroute
      simp [arriving, above?, link]

end NassiChart.Diagram
