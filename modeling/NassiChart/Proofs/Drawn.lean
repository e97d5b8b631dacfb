import Mathlib.Logic.Relation
import NassiChart.Document.Render
import NassiChart.Proofs.Below

/-! # Drawn statements

A statement draws all of its children, those of its body, or none, by its kind.  A statement is
drawn if the document at the top leads to it through such lists.  The rows of a drawn statement are
a part of the document, and every drawn statement but a token has been filled: the children that a
walk leaves out are either not drawn or drawn as nothing.
-/

namespace NassiChart.Diagram

open NassiChart.Grammar NassiChart.Document

/-- How many of its children a statement draws. -/
inductive Extent where
  | all
  | body
  | nothing
  deriving DecidableEq, Repr

def StatementKind.extent : StatementKind → Extent
  | document | foreverLoop | trueBranch | falseBranch | caseArm | defaultArm | passThrough => .all
  | forLoop | whileLoop _ | alternative | caseHeader _ => .body
  | instruction | call | jump _ | database | conditionGroup | assignment | silent | token => .nothing

/-- Of a list with one entry for each child, the entries of the children that are drawn. -/
def Statement.drawnAmong {α : Type} (statement : Statement) (entries : List α) : List α :=
  match statement.kind.extent with
  | .all => entries
  | .body => entries.drop statement.bodyStart
  | .nothing => []

def Statement.drawn (statement : Statement) : List StatementId :=
  statement.drawnAmong statement.children

/-- The statement draws this child. -/
def Draws (diagram : Diagram) (id child : StatementId) : Prop :=
  child ∈ (diagram.statement id).drawn

instance (diagram : Diagram) (id child : StatementId) : Decidable (diagram.Draws id child) :=
  inferInstanceAs (Decidable (_ ∈ _))

/-- The second statement is reached from the first through lists of drawn children. -/
abbrev DrawnFrom (diagram : Diagram) : StatementId → StatementId → Prop :=
  Relation.ReflTransGen diagram.Draws

def Drawn (diagram : Diagram) (id : StatementId) : Prop :=
  diagram.DrawnFrom diagram.root id

theorem Statement.drawnAmong_map {α β : Type} (statement : Statement) (f : α → β)
    (entries : List α) :
    statement.drawnAmong (entries.map f) = (statement.drawnAmong entries).map f := by
  unfold drawnAmong
  split
  · rfl
  · exact List.map_drop.symm
  · rfl

theorem Statement.mem_of_mem_drawnAmong {α : Type} {statement : Statement} {entries : List α}
    {entry : α} (member : entry ∈ statement.drawnAmong entries) : entry ∈ entries := by
  unfold drawnAmong at member
  split at member
  · exact member
  · exact List.mem_of_mem_drop member
  · cases member

theorem Draws.mem_children {diagram : Diagram} {id child : Nat} (draws : diagram.Draws id child) :
    child ∈ diagram.children id :=
  Statement.mem_of_mem_drawnAmong draws

theorem DrawnFrom.inside {diagram : Diagram} (linked : diagram.Linked) {id other : Nat}
    (inside : id < diagram.size) (drawn : diagram.DrawnFrom id other) : other < diagram.size := by
  cases drawn with
  | refl => exact inside
  | tail _ draws => exact linked.children_inside draws.mem_children

theorem DrawnFrom.le {diagram : Diagram} (linked : diagram.Linked) {id other : Nat}
    (drawn : diagram.DrawnFrom id other) : id ≤ other := by
  induction drawn with
  | refl => exact Nat.le_refl id
  | tail _ draws ih =>
      have larger := linked.down _ _ (linked.mem_children.mp draws.mem_children)
      exact Nat.le_trans ih (Nat.le_of_lt larger)

/-- What is drawn below the outermost document is reached through one of its children. -/
theorem drawn_and_ne_zero_iff {diagram : Diagram} (linked : diagram.Linked) {id : Nat} :
    diagram.Drawn id ∧ id ≠ 0 ↔ ∃ child, diagram.Draws 0 child ∧ diagram.DrawnFrom child id := by
  constructor
  · rintro ⟨drawn, later⟩
    cases Relation.ReflTransGen.cases_head drawn with
    | inl same => exact absurd same.symm later
    | inr step => exact step
  · rintro ⟨child, draws, drawn⟩
    have larger := linked.down _ _ (linked.mem_children.mp draws.mem_children)
    exact ⟨.head draws drawn, Nat.ne_of_gt (Nat.lt_of_lt_of_le larger (drawn.le linked))⟩

/-- What the drawn children are drawn as stands in the rows of the statement. -/
theorem drawnAmong_infix_statementRows (options : Options) (statement : Statement)
    (kinds : List StatementKind) (parts : List (List String)) :
    (statement.drawnAmong parts).flatten <:+: statementRows options statement kinds parts := by
  have between : ∀ before inner after : List String, inner <:+: before ++ inner ++ after :=
    fun before inner after => ⟨before, after, rfl⟩
  have inWrapper : ∀ margin name inner, inner <:+: wrapped margin name inner :=
    fun margin name inner => between [margin ++ openTag name []] inner _
  unfold Statement.drawnAmong statementRows StatementKind.extent
  cases statement.kind with
  | document =>
      have inside := inWrapper "  " "children" parts.flatten
      exact inside.trans (between [declaration, openTag "root" (rootAttributes options)] _ _)
  | forLoop => exact (inWrapper "  " "qFor" _).trans (between [_] _ _)
  | foreverLoop => exact (inWrapper "  " "qForever" _).trans (between [_] _ _)
  | whileLoop subject => exact (inWrapper "  " "qWhile" _).trans (between [_] _ _)
  | alternative =>
      simp only [alternativeRows, List.append_assoc]
      rw [← List.append_assoc]
      exact between _ _ _
  | trueBranch => exact inWrapper "" "qTrue" _
  | falseBranch => exact inWrapper "" "qFalse" _
  | caseHeader selector => exact between [_] _ _
  | caseArm => exact inWrapper "" "qCase" _
  | defaultArm => exact inWrapper "" "qCase" _
  | passThrough => exact List.infix_rfl
  | _ => exact List.nil_infix

theorem rowsOfEach_eq_map (options : Options) (trees : List (Rose Statement)) :
    rowsOfEach options trees = trees.map (rows options) := by
  induction trees with
  | nil => rfl
  | cons tree trees ih => rw [rowsOfEach, ih, List.map_cons]

/-- The rows of a statement with everything below it. -/
def rowsAt (diagram : Diagram) (options : Options) (id : StatementId) : List String :=
  rows options (diagram.viewAt id)

variable {diagram : Diagram}

theorem rowsAt_eq (linked : diagram.Linked) (options : Options) {id : Nat}
    (inside : id < diagram.size) :
    diagram.rowsAt options id = statementRows options (diagram.statement id)
      ((diagram.children id).map fun child => (diagram.statement child).kind)
      ((diagram.children id).map (diagram.rowsAt options)) := by
  rw [rowsAt, viewAt_eq linked inside, rows, rowsOfEach_eq_map, List.map_map, List.map_map]
  refine congrArg₂ _ (List.map_congr_left fun child _ => ?_) rfl
  exact congrArg Statement.kind (value_map_below diagram.statement child)

theorem rowsAt_infix_of_draws (linked : diagram.Linked) (options : Options) {id child : Nat}
    (inside : id < diagram.size) (draws : diagram.Draws id child) :
    diagram.rowsAt options child <:+: diagram.rowsAt options id := by
  have parts := drawnAmong_infix_statementRows options (diagram.statement id)
    ((diagram.children id).map fun child => (diagram.statement child).kind)
    ((diagram.children id).map (diagram.rowsAt options))
  rw [Statement.drawnAmong_map] at parts
  rw [rowsAt_eq linked options inside]
  exact (List.infix_of_mem_flatten (List.mem_map_of_mem draws)).trans parts

/-- What is drawn for a statement is a part of the document. -/
theorem Drawn.rowsAt_infix (linked : diagram.Linked) (nonempty : 0 < diagram.size)
    (options : Options) {id : Nat} (drawn : diagram.Drawn id) :
    diagram.rowsAt options id <:+: rows options diagram.view := by
  induction drawn with
  | refl => exact List.infix_rfl
  | tail above draws ih =>
      have inside := DrawnFrom.inside linked nonempty above
      exact (rowsAt_infix_of_draws linked options inside draws).trans ih

theorem Role.asks_ne_branches {role : Role} {field : Field} (other : field ≠ .branches)
    {children : List Role} {index : Nat} {child : Role} :
    role.asks field children index child ≠ some .branches := by
  cases hk : role.kind <;> simp only [Role.asks, hk] <;> (repeat' split) <;> simp_all

theorem Role.bodyFrom_of_extent_all {role : Role} (extent : role.kind.extent = .all)
    (children : List Role) : role.bodyFrom children = 0 := by
  cases hk : role.kind <;> simp_all [StatementKind.extent, Role.bodyFrom]

/-- The keyword of an alternative is not in its body. -/
theorem Role.bodyFrom_pos_of_alternative {role : Role} (kind : role.kind = .alternative)
    {children : List Role} (nonempty : children ≠ []) : 0 < role.bodyFrom children := by
  simp only [Role.bodyFrom, kind]
  cases (children.drop 1).findIdx? (·.kind.isBranch) with
  | none => exact List.length_pos_of_ne_nil nonempty
  | some index => exact Nat.succ_pos index

/-- From the start of the body on, only tokens are left out. -/
theorem Role.asks_of_bodyFrom_le {role : Role} {children : List Role}
    {index : Nat} {child : Role} (notToken : role.kind ≠ .token) (inside : index < children.length)
    (late : role.bodyFrom children ≤ index) (drawn : child.kind ≠ .token) (field : Field) :
    ∃ asked, role.asks field children index child = some asked := by
  rw [← Option.isSome_iff_exists]
  cases hk : role.kind with
  | token => exact absurd hk notToken
  | alternative =>
      have keyword := Role.bodyFrom_pos_of_alternative hk (List.ne_nil_of_length_pos
        (Nat.lt_of_le_of_lt (Nat.zero_le index) inside))
      have later : index ≠ 0 := by omega
      simp only [Role.asks, hk, later, if_false]
      split <;> rfl
  | caseHeader selector =>
      simp only [Role.asks, hk, late, drawn, if_true, if_false]
      rfl
  | _ =>
      simp only [Role.asks, hk]
      (repeat' split) <;> rfl

theorem Draws.kind_ne_token {diagram : Diagram} {id child : Nat}
    (draws : diagram.Draws id child) : (diagram.role id).kind ≠ .token := by
  intro token
  have kind : (diagram.statement id).kind = .token := token
  simp [Draws, Statement.drawn, Statement.drawnAmong, StatementKind.extent, kind] at draws

/-- A drawn child of a filled statement has been filled, unless it is a token. -/
theorem FilledFor.of_draws (linked : diagram.Linked) {id child : Nat}
    (inside : id < diagram.size) {field : Field} (filledFor : diagram.FilledFor id (some field))
    (other : field ≠ .branches) (draws : diagram.Draws id child)
    (drawn : (diagram.role child).kind ≠ .token) :
    ∃ asked, asked ≠ .branches ∧ diagram.FilledFor child (some asked) := by
  have start : (diagram.statement id).bodyStart =
      (diagram.role id).bodyFrom (diagram.childRoles id) :=
    congrArg Outcome.bodyStart (filledFor.outcome linked inside)
  obtain ⟨index, here, late⟩ : ∃ index, (diagram.children id)[index]? = some child ∧
      ((diagram.role id).bodyFrom (diagram.childRoles id) ≤ index) := by
    unfold Draws Statement.drawn Statement.drawnAmong at draws
    split at draws
    · rename_i extent
      obtain ⟨index, here⟩ := List.mem_iff_getElem?.mp draws
      refine ⟨index, here, ?_⟩
      rw [Role.bodyFrom_of_extent_all extent]
      exact Nat.zero_le index
    · obtain ⟨offset, here⟩ := List.mem_iff_getElem?.mp draws
      rw [List.getElem?_drop] at here
      exact ⟨_, here, start ▸ Nat.le_add_right ..⟩
    · cases draws
  have bound : index < (diagram.childRoles id).length := by
    rw [childRoles, List.length_map]
    exact (List.getElem?_eq_some_iff.mp here).1
  obtain ⟨asked, request⟩ :=
    Role.asks_of_bodyFrom_le draws.kind_ne_token bound late drawn field
  refine ⟨asked, ?_, request ▸ filledFor.child linked inside here⟩
  rintro rfl
  exact Role.asks_ne_branches other request

/-- A drawn statement has been filled, and not for conditions of arms, unless it is a token. -/
theorem Drawn.filledFor (linked : diagram.Linked) (nonempty : 0 < diagram.size)
    (root : diagram.FilledFor 0 (some .instruction)) {id : Nat} (drawn : diagram.Drawn id)
    (notToken : (diagram.role id).kind ≠ .token) :
    ∃ asked, asked ≠ .branches ∧ diagram.FilledFor id (some asked) := by
  induction drawn with
  | refl => exact ⟨.instruction, by decide, root⟩
  | @tail id child above draws ih =>
      have inside := DrawnFrom.inside linked nonempty above
      obtain ⟨field, other, filledFor⟩ := ih draws.kind_ne_token
      exact filledFor.of_draws linked inside other draws notToken

end NassiChart.Diagram
