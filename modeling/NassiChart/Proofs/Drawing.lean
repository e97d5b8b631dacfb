import NassiChart.Proofs.Drawn

/-! # What a tree of roles is drawn as

The rows of a filled statement are a matter of its outcome and those below it, and so of its tree of
roles alone.  Two things that a filled tree knows leave no trace in them: the field that it was
asked for, which only says what to call the texts that it hands upwards, and the positions of its
nodes in the grammar tree.  `rowsAt_of_filledFor` puts this together for one statement of a diagram.
-/

namespace NassiChart.Diagram

open NassiChart.Grammar NassiChart.Document

/-- A statement with this outcome and without links. -/
def Outcome.statement (outcome : Outcome) : Statement where
  kind := outcome.role.kind
  origin := outcome.role.origin
  label := outcome.role.label
  parent := none
  children := []
  buffers := outcome.buffers
  bodyStart := outcome.bodyStart

def rowsOf (options : Options) (outcomes : Rose Outcome) : List String :=
  rows options (outcomes.map Outcome.statement)

theorem rowsOf_node (options : Options) (outcome : Outcome) (trees : List (Rose Outcome)) :
    rowsOf options (.node outcome trees) = statementRows options outcome.statement
      (trees.map (·.value.role.kind)) (trees.map (rowsOf options)) := by
  rw [rowsOf, Rose.map, rows, rowsOfEach_eq_map, Rose.mapAll_eq_map, List.map_map, List.map_map]
  refine congrArg₂ _ (List.map_congr_left fun tree _ => ?_) rfl
  exact congrArg Statement.kind (Rose.value_map Outcome.statement tree)

/-- Links leave no trace in the rows of a statement. -/
theorem statementRows_outcome (options : Options) (statement : Statement)
    (kinds : List StatementKind) (parts : List (List String)) :
    statementRows options statement.outcome.statement kinds parts =
      statementRows options statement kinds parts := by
  obtain ⟨kind, origin, label, parent, children, buffers, bodyStart⟩ := statement
  cases kind <;> rfl

theorem rowsAt_eq_rowsOf {diagram : Diagram} (linked : diagram.Linked) (options : Options)
    {id : Nat} (inside : id < diagram.size) :
    diagram.rowsAt options id = rowsOf options (diagram.outcomesAt id) := by
  refine linked.upwards (motive := fun id =>
    diagram.rowsAt options id = rowsOf options (diagram.outcomesAt id)) ?_ id inside
  intro id inside ih
  rw [rowsAt_eq linked options inside, outcomesAt_eq linked inside, rowsOf_node,
    statementRows_outcome, List.map_map, List.map_map]
  refine congrArg₂ _ (List.map_congr_left fun child _ => ?_) (List.map_congr_left ih)
  have value : (diagram.outcomesAt child).value = (diagram.statement child).outcome :=
    value_map_below (fun j => (diagram.statement j).outcome) child
  exact congrArg (·.role.kind) value.symm

/-- The statement asks its children for what it is asked for, and shows no text of its own. -/
def StatementKind.IsOpen (kind : StatementKind) : Prop :=
  kind = .document ∨ kind = .passThrough

instance (kind : StatementKind) : Decidable kind.IsOpen :=
  inferInstanceAs (Decidable (_ ∨ _))

theorem Role.requests_of_not_isOpen {role : Role} (closed : ¬ role.kind.IsOpen)
    (field other : Field) (children : List Role) :
    role.requests field children = role.requests other children := by
  unfold requests
  congr 1
  funext index child
  cases hk : role.kind <;> simp_all [Role.asks, StatementKind.IsOpen]

theorem Role.requests_of_isOpen {role : Role} (opened : role.kind.IsOpen) (field : Field)
    (children : List Role) :
    role.requests field children = List.replicate children.length (some field) := by
  rw [requests, List.mapIdx_eq_replicate_iff]
  intro index inside
  rcases opened with kind | kind <;> simp [Role.asks, kind]

theorem filledEach_replicate (trees : List (Rose Role)) (field : Field) :
    filledEach trees (List.replicate trees.length (some field)) =
      trees.map fun tree => filled tree (some field) := by
  induction trees with
  | nil => rfl
  | cons tree trees ih => rw [List.length_cons, List.replicate_succ, filledEach_cons, ih,
      List.map_cons]

/-- What a tree of roles is drawn as, whatever it is asked for. -/
def drawing (options : Options) (tree : Rose Role) : List String :=
  rowsOf options (filled tree (some .instruction))

theorem statementRows_of_isOpen (options : Options) {role : Role} (opened : role.kind.IsOpen)
    (buffers others : Buffers) (start next : Nat) (kinds more : List StatementKind)
    (parts : List (List String)) :
    statementRows options (Outcome.statement ⟨role, buffers, start⟩) kinds parts =
      statementRows options (Outcome.statement ⟨role, others, next⟩) more parts := by
  rcases opened with kind | kind <;> simp only [statementRows, Outcome.statement, kind]

mutual
theorem rowsOf_filled (options : Options) (tree : Rose Role) (field : Field) :
    rowsOf options (filled tree (some field)) = drawing options tree := by
  cases tree with
  | node role trees =>
      by_cases opened : role.kind.IsOpen
      · have each := rowsOf_filledAll options trees field
        rw [drawing, filled, filled]
        simp only [rowsOf_node, Role.requests_of_isOpen opened, List.length_map,
          filledEach_replicate, List.map_map] at each ⊢
        rw [each]
        apply statementRows_of_isOpen options opened
      · rw [drawing, filled, filled, Role.requests_of_not_isOpen opened field .instruction]
theorem rowsOf_filledAll (options : Options) (trees : List (Rose Role)) (field : Field) :
    (trees.map fun tree => filled tree (some field)).map (rowsOf options) =
      (trees.map fun tree => filled tree (some .instruction)).map (rowsOf options) := by
  cases trees with
  | nil => rfl
  | cons tree trees =>
      have first := rowsOf_filled options tree field
      have rest := rowsOf_filledAll options trees field
      rw [List.map_cons, List.map_cons, List.map_cons, List.map_cons, first, rest]
      rfl
end

def Role.unplaced (role : Role) : Role :=
  { role with origin := 0 }

def Outcome.unplaced (outcome : Outcome) : Outcome :=
  { outcome with role := outcome.role.unplaced }

namespace Role

/-- The change leaves alone what a statement reads of its children to plan for them. -/
structure KeepsPlans (change : Role → Role) : Prop where
  kind : ∀ role, (change role).kind = role.kind
  holdsLoop : ∀ role, (change role).holdsLoop = role.holdsLoop
  startsArms : ∀ header child, startsArms header (change child) = header.startsArms child
  startsAssignments : ∀ role, (change role).startsAssignments = role.startsAssignments

namespace KeepsPlans

variable {change : Role → Role} (keeps : KeepsPlans change)

include keeps

theorem bodyFrom (role : Role) (children : List Role) :
    role.bodyFrom (children.map change) = role.bodyFrom children := by
  have loops : Role.holdsLoop ∘ change = Role.holdsLoop := funext keeps.holdsLoop
  have arms : role.startsArms ∘ change = role.startsArms := funext (keeps.startsArms role)
  have branches : (·.kind.isBranch) ∘ change = (·.kind.isBranch) :=
    funext fun child => congrArg _ (keeps.kind child)
  cases hk : role.kind with
  | forLoop =>
      simp only [Role.bodyFrom, hk, List.getElem?_map, List.length_map]
      cases children[4]? with
      | none => rfl
      | some fifth => simp only [Option.map_some, Option.any_some, keeps.holdsLoop]
  | whileLoop subject => simp only [Role.bodyFrom, hk, List.findIdx?_map, List.length_map, loops]
  | alternative =>
      simp only [Role.bodyFrom, hk, ← List.map_drop, List.findIdx?_map, List.length_map, branches]
  | caseHeader selector => simp only [Role.bodyFrom, hk, List.findIdx?_map, List.length_map, arms]
  | _ => simp only [Role.bodyFrom, hk]

theorem requests (role : Role) (field : Field) (children : List Role) :
    role.requests field (children.map change) = role.requests field children := by
  have opens : Role.startsAssignments ∘ change = Role.startsAssignments :=
    funext keeps.startsAssignments
  apply List.ext_getElem
  · simp [Role.requests]
  · intro index _ _
    simp only [Role.requests, List.getElem_mapIdx, List.getElem_map, asks, keeps.bodyFrom,
      ← List.map_take, List.any_map, opens, keeps.holdsLoop, keeps.kind]

end KeepsPlans

theorem unplaced_keepsPlans : KeepsPlans unplaced :=
  ⟨fun _ => rfl, fun _ => rfl, fun _ _ => rfl, fun _ => rfl⟩

theorem bodyFrom_unplaced (role : Role) (children : List Role) :
    role.unplaced.bodyFrom (children.map unplaced) = role.bodyFrom children :=
  unplaced_keepsPlans.bodyFrom role.unplaced children

theorem requests_unplaced (role : Role) (field : Field) (children : List Role) :
    role.unplaced.requests field (children.map unplaced) = role.requests field children :=
  unplaced_keepsPlans.requests role.unplaced field children

end Role

theorem map_value_map {α β : Type} (f : α → β) (trees : List (Rose α)) :
    (Rose.mapAll f trees).map Rose.value = (trees.map Rose.value).map f := by
  rw [Rose.mapAll_eq_map, List.map_map, List.map_map]
  exact List.map_congr_left fun tree _ => Rose.value_map f tree

mutual
theorem emit_unplaced (tree : Rose Role) (field : Field) :
    emit (tree.map Role.unplaced) field = emit tree field := by
  cases tree with
  | node role trees =>
      rw [Rose.map, emit, emit, map_value_map, Role.requests_unplaced, emitEach_unplaced]
      simp only [arrivals, Role.bodyFrom_unplaced]
      rfl
theorem emitEach_unplaced (trees : List (Rose Role)) (requests : List (Option Field)) :
    emitEach (Rose.mapAll Role.unplaced trees) requests = emitEach trees requests := by
  cases trees with
  | nil => cases requests <;> rfl
  | cons tree trees =>
      cases requests with
      | nil => rfl
      | cons request requests =>
          cases request with
          | none => rw [Rose.mapAll, emitEach, emitEach, emitEach_unplaced trees requests]
          | some field =>
              rw [Rose.mapAll, emitEach, emitEach, emit_unplaced tree field,
                emitEach_unplaced trees requests]
end

mutual
theorem filled_unplaced (tree : Rose Role) (request : Option Field) :
    filled (tree.map Role.unplaced) request = (filled tree request).map Outcome.unplaced := by
  cases tree with
  | node role trees =>
      cases request with
      | none =>
          rw [filled_none, filled_none, Rose.map_map, Rose.map_map]
          rfl
      | some field =>
          rw [Rose.map, filled, filled, Rose.map, map_value_map, Role.requests_unplaced,
            emitEach_unplaced, filledEach_unplaced, Role.bodyFrom_unplaced]
          simp only [arrivals, Role.bodyFrom_unplaced]
          rfl
theorem filledEach_unplaced (trees : List (Rose Role)) (requests : List (Option Field)) :
    filledEach (Rose.mapAll Role.unplaced trees) requests =
      Rose.mapAll Outcome.unplaced (filledEach trees requests) := by
  cases trees with
  | nil => rfl
  | cons tree trees =>
      cases requests with
      | nil => rfl
      | cons request requests =>
          rw [Rose.mapAll, filledEach_cons, filledEach_cons, Rose.mapAll,
            filled_unplaced tree request, filledEach_unplaced trees requests]
end

mutual
theorem rowsOf_unplaced (options : Options) (outcomes : Rose Outcome) :
    rowsOf options (outcomes.map Outcome.unplaced) = rowsOf options outcomes := by
  cases outcomes with
  | node outcome trees =>
      rw [Rose.map, rowsOf_node, rowsOf_node, Rose.mapAll_eq_map, List.map_map, List.map_map,
        rowsOf_unplacedAll]
      obtain ⟨⟨origin, kind, label⟩, buffers, bodyStart⟩ := outcome
      have kinds : trees.map ((·.value.role.kind) ∘ Rose.map Outcome.unplaced) =
          trees.map (·.value.role.kind) := by
        refine List.map_congr_left fun tree _ => ?_
        rw [Function.comp_apply, Rose.value_map]
        rfl
      rw [kinds]
      cases kind <;> rfl
theorem rowsOf_unplacedAll (options : Options) (trees : List (Rose Outcome)) :
    trees.map (rowsOf options ∘ Rose.map Outcome.unplaced) = trees.map (rowsOf options) := by
  cases trees with
  | nil => rfl
  | cons tree trees =>
      rw [List.map_cons, List.map_cons, rowsOf_unplacedAll options trees, Function.comp_apply,
        rowsOf_unplaced options tree]
end

/-- Trees of roles that differ in positions only are drawn alike. -/
theorem drawing_congr (options : Options) {tree other : Rose Role}
    (same : tree.map Role.unplaced = other.map Role.unplaced) :
    drawing options tree = drawing options other := by
  have whole : ∀ tree : Rose Role,
      drawing options (tree.map Role.unplaced) = drawing options tree := by
    intro tree
    rw [drawing, filled_unplaced, rowsOf_unplaced]
    rfl
  rw [← whole tree, same, whole other]

/-- The rows of a filled statement are what its tree of roles is drawn as. -/
theorem rowsAt_of_filledFor {diagram : Diagram} (linked : diagram.Linked) (options : Options)
    {id : Nat} (inside : id < diagram.size) {field : Field}
    (filledFor : diagram.FilledFor id (some field)) :
    diagram.rowsAt options id = drawing options (diagram.rolesAt id) := by
  rw [rowsAt_eq_rowsOf linked options inside, filledFor, rowsOf_filled]

end NassiChart.Diagram
