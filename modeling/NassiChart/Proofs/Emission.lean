import NassiChart.Diagram.Fill

/-!
# What a subtree hands upwards

The definition of a filled diagram on the bare tree of its statements, without an arena and without
walks along parents. `emit tree field` lists, in order, the texts that leave a subtree upwards when
it is asked for a field, each with the field it is meant for. A statement keeps the texts of its
own fields out of what its children emit and passes the others on. `filled` puts what every
statement keeps beside it.
-/

namespace NassiChart.Diagram

open NassiChart.Grammar

/-- A statement before anything is collected. -/
structure Role where
  origin : NodeId
  kind : StatementKind
  label : Label
  deriving DecidableEq, Repr

def Role.ofNode (node : NodeId × Label) : Role :=
  ⟨node.1, .ofLabel node.2, node.2⟩

def Statement.role (statement : Statement) : Role :=
  ⟨statement.origin, statement.kind, statement.label⟩

def role (diagram : Diagram) (id : StatementId) : Role :=
  (diagram.statement id).role

/-- A tree of roles with a document on top, unless its root is one already. -/
def withDocument (below : Rose Role) : Rose Role :=
  if below.value.kind = .document then below
  else .node { below.value with kind := .document } [below]

def roles (tree : Tree) : Rose Role :=
  withDocument (tree.outline.map Role.ofNode)

/-- A text with the field that it is meant for. -/
abbrev Entry := Field × String

namespace Role

def holdsLoop (role : Role) : Bool :=
  role.label == .production "loop_statement_list"

/-- `child` is where the arms of the decision `header` start. -/
def startsArms (header child : Role) : Bool :=
  child.kind.isArm || match header.label, child.label with
    | .production decision, .production name =>
      (decision ++ "_branch").toList.isPrefixOf name.toList || name == decision ++ "_none"
    | _, _ => false

/-- The statement is where the assignments of a database statement start. -/
def startsAssignments (role : Role) : Bool :=
  match role.label with
  | .production name =>
    "_source".toList.isSuffixOf name.toList || "_how".toList.isSuffixOf name.toList
  | .token _ => false

def bodyFrom (role : Role) (children : List Role) : Nat :=
  match role.kind with
  | .forLoop =>
    let start := if (children[4]?).any (!·.holdsLoop) then 5 else 4
    min start children.length
  | .whileLoop _ => (children.findIdx? holdsLoop).getD (children.length - 1)
  | .alternative =>
    (((children.drop 1).findIdx? (·.kind.isBranch)).map (· + 1)).getD children.length
  | .caseHeader _ => (children.findIdx? role.startsArms).getD children.length
  | _ => 0

/-- What the child at a position is asked for, if the statement is asked for `field`. -/
def asks (role : Role) (field : Field) (children : List Role) (index : Nat) (child : Role) :
    Option Field :=
  match role.kind with
  | .document | .passThrough => some field
  | .instruction | .call | .jump _ | .trueBranch | .falseBranch | .silent | .defaultArm
  | .assignment => some .instruction
  | .foreverLoop => some .body
  | .forLoop =>
    match index with
    | 0 => some .instruction
    | 1 => some .forControl
    | 2 => some .forFrom
    | 3 => some .forTo
    | 4 => if child.holdsLoop then some .body else some .forStep
    | _ => some .body
  | .whileLoop _ => if index < role.bodyFrom children then some .instruction else some .body
  | .alternative =>
    if index = 0 then none
    else if index < role.bodyFrom children then some .instruction else some .body
  | .caseHeader selector =>
    if role.bodyFrom children ≤ index then
      if child.kind = .token then none else some .body
    else if selector = .value ∧ index + 1 = role.bodyFrom children then some .control
    else some .comments
  | .caseArm => if index = 1 then some .condition else some .instruction
  | .conditionGroup => some .condition
  | .database =>
    if (children.take (index + 1)).any startsAssignments then some .assignments
    else some .instruction
  | .token => none

def requests (role : Role) (field : Field) (children : List Role) : List (Option Field) :=
  children.mapIdx (role.asks field children)

end Role

/-- The buffers of a statement that was reached by these entries. -/
def collected (kind : StatementKind) (entries : List Entry) : Buffers :=
  ⟨kind.fields.map fun field => (field, (entries.filter (·.1 = field)).map (·.2))⟩

/-- The entries that a statement does not keep. -/
def passedOn (kind : StatementKind) (entries : List Entry) : List Entry :=
  entries.filter fun entry => entry.1 ∉ kind.fields

/-- What reaches a statement from below, given what each of its children emits. A decision on
conditions adds `*` of its own, between its header and its arms. -/
def arrivals (role : Role) (children : List Role) (parts : List (List Entry)) : List Entry :=
  match role.kind with
  | .caseHeader .condition =>
    (parts.take (role.bodyFrom children)).flatten ++ (.control, "*") ::
      (parts.drop (role.bodyFrom children)).flatten
  | _ => parts.flatten

/-- What a statement emits before anything from below. -/
def leading (role : Role) : List Entry :=
  match role.kind with
  | .defaultArm => [(.branches, "NONE")]
  | _ => []

/-- What a statement emits after everything from below, with what it has collected. -/
def trailing (role : Role) (field : Field) (buffers : Buffers) : List Entry :=
  match role.kind with
  | .token => match role.label with
    | .token text => [(field, text)]
    | .production _ => []
  | .caseArm => [(.branches, buffers.joined .condition)]
  | .conditionGroup => [(field, buffers.joined .condition)]
  | .assignment => [(field, buffers.joined .instruction)]
  | _ => []

mutual
/-- The entries that leave a tree upwards when it is asked for `field`. -/
def emit : Rose Role → Field → List Entry
  | .node role trees, field =>
    let children := trees.map Rose.value
    let reached := arrivals role children (emitEach trees (role.requests field children))
    leading role ++ passedOn role.kind reached ++
      trailing role field (collected role.kind reached)
def emitEach : List (Rose Role) → List (Option Field) → List (List Entry)
  | tree :: trees, some field :: requests => emit tree field :: emitEach trees requests
  | _ :: trees, none :: requests => [] :: emitEach trees requests
  | _, _ => []
end

/-- A statement with what it has collected and the number of children before its body. -/
structure Outcome where
  role : Role
  buffers : Buffers
  bodyStart : Nat
  deriving DecidableEq, Repr

def Statement.outcome (statement : Statement) : Outcome :=
  ⟨statement.role, statement.buffers, statement.bodyStart⟩

def Outcome.blank (role : Role) : Outcome :=
  ⟨role, .blank role.kind.fields, 0⟩

/-- Nothing has been collected in the diagram yet. -/
def IsBlank (diagram : Diagram) : Prop :=
  ∀ id, (diagram.statement id).outcome = .blank (diagram.role id)

mutual
/-- The outcomes for a tree that is asked for a field, or left alone. -/
def filled : Rose Role → Option Field → Rose Outcome
  | .node role trees, some field =>
    let children := trees.map Rose.value
    let requests := role.requests field children
    let reached := arrivals role children (emitEach trees requests)
    .node ⟨role, collected role.kind reached, role.bodyFrom children⟩
      (filledEach trees requests)
  | tree, none => tree.map .blank
def filledEach : List (Rose Role) → List (Option Field) → List (Rose Outcome)
  | tree :: trees, request :: requests => filled tree request :: filledEach trees requests
  | _, _ => []
end

theorem filled_none (tree : Rose Role) : filled tree none = tree.map .blank := by
  rw [filled]

theorem filledEach_cons (tree : Rose Role) (trees : List (Rose Role)) (request : Option Field)
    (requests : List (Option Field)) :
    filledEach (tree :: trees) (request :: requests) =
      filled tree request :: filledEach trees requests := by
  simp only [filledEach]

/-- A statement asks for the field that it is asked for, or for one of its own. -/
theorem Role.asks_field {role : Role} {field asked : Field} {children : List Role} {index : Nat}
    {child : Role} (h : role.asks field children index child = some asked) :
    asked = field ∨ asked ∈ role.kind.fields := by
  cases hk : role.kind <;> simp only [Role.asks, hk] at h <;>
    (repeat' split at h) <;> simp_all [StatementKind.fields]

theorem Role.asks_ne_control {role : Role} (kind : role.kind = .caseHeader .condition)
    {field : Field} {children : List Role} {index : Nat} {child : Role} :
    role.asks field children index child ≠ some .control := by
  simp only [Role.asks, kind]
  split
  · split <;> simp
  · simp

theorem Role.of_mem_requests {role : Role} {field asked : Field} {children : List Role}
    (member : some asked ∈ role.requests field children) :
    ∃ index child, role.asks field children index child = some asked := by
  obtain ⟨index, inside, request⟩ := List.mem_mapIdx.mp member
  exact ⟨index, _, request⟩

theorem mem_arrivals {role : Role} {children : List Role} {parts : List (List Entry)}
    {entry : Entry} (member : entry ∈ arrivals role children parts) :
    entry ∈ parts.flatten ∨ entry.1 ∈ role.kind.fields := by
  unfold arrivals at member
  split at member
  · rename_i kind
    rw [List.mem_append, List.mem_cons] at member
    rcases member with before | rfl | after
    · left
      obtain ⟨part, inside, mem⟩ := List.mem_flatten.mp before
      exact List.mem_flatten.mpr ⟨part, List.mem_of_mem_take inside, mem⟩
    · right
      simp [kind, StatementKind.fields]
    · left
      obtain ⟨part, inside, mem⟩ := List.mem_flatten.mp after
      exact List.mem_flatten.mpr ⟨part, List.mem_of_mem_drop inside, mem⟩
  · exact .inl member

theorem leading_field {role : Role} {entry : Entry} (member : entry ∈ leading role) :
    entry.1 = .branches := by
  unfold leading at member
  split at member
  · simp_all
  · cases member

theorem trailing_field {role : Role} {field : Field} {buffers : Buffers} {entry : Entry}
    (member : entry ∈ trailing role field buffers) :
    entry.1 = field ∨ entry.1 = .branches := by
  unfold trailing at member
  (repeat' split at member) <;> simp_all

mutual
/-- A tree emits entries for the field that it is asked for, and conditions of arms. -/
theorem emit_field (tree : Rose Role) {field : Field} {entry : Entry}
    (member : entry ∈ emit tree field) : entry.1 = field ∨ entry.1 = .branches := by
  cases tree with
  | node role trees =>
      simp only [emit, List.mem_append] at member
      rcases member with (first | passed) | last
      · exact .inr (leading_field first)
      · obtain ⟨reached, foreign⟩ := List.mem_filter.mp passed
        have foreign := of_decide_eq_true foreign
        cases mem_arrivals reached with
        | inr own => exact absurd own foreign
        | inl below =>
            cases emitEach_field trees below with
            | inr branches => exact .inr branches
            | inl asked =>
                obtain ⟨index, child, request⟩ := Role.of_mem_requests asked
                cases Role.asks_field request with
                | inl same => exact .inl same
                | inr own => exact absurd own foreign
      · exact trailing_field last
theorem emitEach_field (trees : List (Rose Role)) {requests : List (Option Field)} {entry : Entry}
    (member : entry ∈ (emitEach trees requests).flatten) :
    some entry.1 ∈ requests ∨ entry.1 = .branches := by
  cases trees with
  | nil => simp [emitEach] at member
  | cons tree trees =>
      cases requests with
      | nil => simp [emitEach] at member
      | cons request requests =>
          cases request with
          | none =>
              simp only [emitEach, List.flatten_cons, List.nil_append] at member
              cases emitEach_field trees member with
              | inl asked => exact .inl (List.mem_cons_of_mem _ asked)
              | inr branches => exact .inr branches
          | some field =>
              simp only [emitEach, List.flatten_cons, List.mem_append] at member
              cases member with
              | inl first =>
                  cases emit_field tree first with
                  | inl same => exact .inl (by simp [same])
                  | inr branches => exact .inr branches
              | inr rest =>
                  cases emitEach_field trees rest with
                  | inl asked => exact .inl (List.mem_cons_of_mem _ asked)
                  | inr branches => exact .inr branches
end

end NassiChart.Diagram
