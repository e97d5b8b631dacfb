import NassiChart.Proofs.Filling
import NassiChart.Proofs.Planting

/-! # The diagram of a grammar tree

What the walk over the arena leaves in the statements is what the emissions on the bare tree say,
and no statement lies outside of that tree (`build_outcomes`).

An arena whose links agree can be read from any of its nodes downwards: `below` is the tree of the
positions under one statement, and it is the statement followed by the trees of its children.  What
`filled` says about a whole tree of roles therefore holds of every statement by itself, for the
request that reached it (`FilledFor`).
-/

namespace NassiChart.Diagram

open NassiChart.Grammar

/-- The links of the diagram agree. -/
abbrev Linked (diagram : Diagram) : Prop :=
  Links diagram.size diagram.parent? diagram.children

/-- The positions of a statement and of everything below it. -/
def below (diagram : Diagram) (id : StatementId) : Rose StatementId :=
  Rose.unfold diagram.children diagram.size id

/-- A statement with everything below it. -/
def viewAt (diagram : Diagram) (id : StatementId) : Rose Statement :=
  (diagram.below id).map diagram.statement

/-- The roles of a statement and of everything below it. -/
def rolesAt (diagram : Diagram) (id : StatementId) : Rose Role :=
  (diagram.below id).map diagram.role

def childRoles (diagram : Diagram) (id : StatementId) : List Role :=
  (diagram.children id).map diagram.role

variable {diagram : Diagram} {id : Nat}

theorem map_below {α : Type} (linked : diagram.Linked) (inside : id < diagram.size)
    (f : Nat → α) : (diagram.below id).map f =
      .node (f id) ((diagram.children id).map fun child => (diagram.below child).map f) :=
  linked.map_unfold inside f

@[simp] theorem value_map_below {α : Type} (f : Nat → α) (child : Nat) :
    ((diagram.below child).map f).value = f child := by
  rw [Rose.value_map, below, Rose.value_unfold]

theorem viewAt_eq (linked : diagram.Linked) (inside : id < diagram.size) :
    diagram.viewAt id =
      .node (diagram.statement id) ((diagram.children id).map diagram.viewAt) :=
  map_below linked inside diagram.statement

theorem rolesAt_eq (linked : diagram.Linked) (inside : id < diagram.size) :
    diagram.rolesAt id = .node (diagram.role id) ((diagram.children id).map diagram.rolesAt) :=
  map_below linked inside diagram.role

@[simp] theorem value_rolesAt (diagram : Diagram) (id : Nat) :
    (diagram.rolesAt id).value = diagram.role id :=
  value_map_below diagram.role id

theorem map_value_rolesAt (diagram : Diagram) (ids : List Nat) :
    (ids.map diagram.rolesAt).map Rose.value = ids.map diagram.role := by
  rw [List.map_map]
  exact List.map_congr_left fun child _ => value_rolesAt diagram child

theorem filledEach_eq_zipWith (trees : List (Rose Role)) (requests : List (Option Field)) :
    filledEach trees requests = List.zipWith filled trees requests := by
  induction trees generalizing requests with
  | nil => rfl
  | cons tree trees ih =>
      cases requests with
      | nil => rfl
      | cons request requests => rw [filledEach_cons, ih, List.zipWith_cons_cons]

/-- The outcomes of a statement and of everything below it. -/
def outcomesAt (diagram : Diagram) (id : StatementId) : Rose Outcome :=
  diagram.outcomes (diagram.below id)

/-- A statement and everything below it has been filled for a request. -/
def FilledFor (diagram : Diagram) (id : StatementId) (request : Option Field) : Prop :=
  diagram.outcomesAt id = filled (diagram.rolesAt id) request

theorem get_collected {kind : StatementKind} {field : Field} (own : field ∈ kind.fields)
    (entries : List Entry) :
    (collected kind entries).get field = (entries.filter (·.1 = field)).map (·.2) := by
  have found : ∀ fields : List Field, field ∈ fields →
      (fields.map fun field => (field, (entries.filter (·.1 = field)).map (·.2))).lookup field =
        some ((entries.filter (·.1 = field)).map (·.2)) := by
    intro fields member
    induction fields with
    | nil => cases member
    | cons first fields ih =>
        rw [List.map_cons, List.lookup_cons]
        by_cases same : field = first
        · simp [same]
        · rw [beq_false_of_ne same]
          exact ih (List.mem_of_ne_of_mem same member)
  rw [Buffers.get, collected, found kind.fields own]
  rfl

/-- What reaches a statement that is asked for a field. -/
def arrivalsAt (diagram : Diagram) (id : StatementId) (field : Field) : List Entry :=
  arrivals (diagram.role id) (diagram.childRoles id)
    (emitEach ((diagram.children id).map diagram.rolesAt)
      ((diagram.role id).requests field (diagram.childRoles id)))

/-- A statement emits what reaches it and is not its own, and what it says itself. -/
theorem emit_rolesAt (linked : diagram.Linked) (inside : id < diagram.size) (field : Field) :
    emit (diagram.rolesAt id) field = leading (diagram.role id) ++
      passedOn (diagram.role id).kind (diagram.arrivalsAt id field) ++
      trailing (diagram.role id) field
        (collected (diagram.role id).kind (diagram.arrivalsAt id field)) := by
  rw [rolesAt_eq linked inside, emit, map_value_rolesAt]
  rfl

theorem filled_rolesAt (linked : diagram.Linked) (inside : id < diagram.size) (field : Field) :
    filled (diagram.rolesAt id) (some field) =
      .node ⟨diagram.role id, collected (diagram.role id).kind (diagram.arrivalsAt id field),
          (diagram.role id).bodyFrom (diagram.childRoles id)⟩
        (List.zipWith filled ((diagram.children id).map diagram.rolesAt)
          ((diagram.role id).requests field (diagram.childRoles id))) := by
  rw [rolesAt_eq linked inside, filled, map_value_rolesAt, filledEach_eq_zipWith]
  rfl

theorem outcomesAt_eq (linked : diagram.Linked) (inside : id < diagram.size) :
    diagram.outcomesAt id = .node (diagram.statement id).outcome
      ((diagram.children id).map diagram.outcomesAt) :=
  map_below linked inside fun j => (diagram.statement j).outcome

namespace FilledFor

variable {field : Field}

theorem outcome (linked : diagram.Linked) (inside : id < diagram.size)
    (filledFor : diagram.FilledFor id (some field)) :
    (diagram.statement id).outcome =
      ⟨diagram.role id, collected (diagram.role id).kind (diagram.arrivalsAt id field),
        (diagram.role id).bodyFrom (diagram.childRoles id)⟩ := by
  rw [FilledFor, outcomesAt_eq linked inside, filled_rolesAt linked inside] at filledFor
  exact (Rose.node.inj filledFor).1

/-- A filled statement holds what reached it. -/
theorem buffers (linked : diagram.Linked) (inside : id < diagram.size)
    (filledFor : diagram.FilledFor id (some field)) : (diagram.statement id).buffers =
      collected (diagram.role id).kind (diagram.arrivalsAt id field) :=
  congrArg Outcome.buffers (filledFor.outcome linked inside)

theorem bodyStart (linked : diagram.Linked) (inside : id < diagram.size)
    (filledFor : diagram.FilledFor id (some field)) : (diagram.statement id).bodyStart =
      (diagram.role id).bodyFrom (diagram.childRoles id) :=
  congrArg Outcome.bodyStart (filledFor.outcome linked inside)

/-- The children of a filled statement have been filled for what its role asks of them. -/
theorem child (linked : diagram.Linked) (inside : id < diagram.size)
    (filledFor : diagram.FilledFor id (some field)) {index child : Nat}
    (here : (diagram.children id)[index]? = some child) :
    diagram.FilledFor child ((diagram.role id).asks field (diagram.childRoles id) index
      (diagram.role child)) := by
  rw [FilledFor, outcomesAt_eq linked inside, filled_rolesAt linked inside] at filledFor
  have each := congrArg (fun trees => trees[index]?) (Rose.node.inj filledFor).2
  have request : ((diagram.role id).requests field (diagram.childRoles id))[index]? =
      some ((diagram.role id).asks field (diagram.childRoles id) index (diagram.role child)) := by
    simp [Role.requests, childRoles, here]
  simp only [List.getElem?_map, List.getElem?_zipWith, here, Option.map_some, request] at each
  exact Option.some.inj each

end FilledFor

theorem ofTree_sound (tree : Tree) : (ofTree tree).Sound :=
  (ofOutline_spec tree.outline).1

theorem ofTree_nonempty (tree : Tree) : 0 < (ofTree tree).size :=
  (ofOutline_spec tree.outline).2.inside

theorem rolesAt_ofTree (tree : Tree) : (ofTree tree).rolesAt 0 = roles tree :=
  (ofOutline_spec tree.outline).2.unfold (ofTree_sound tree).links (roles tree) (Nat.le_refl _)

theorem kind_root (tree : Tree) : ((ofTree tree).role 0).kind = .document := by
  rw [← value_rolesAt, rolesAt_ofTree, roles, withDocument]
  split
  · assumption
  · rfl

theorem filled_build (tree : Tree) :
    Filled (ofTree tree) (ofTree tree).size 0 .instruction (ofTree tree) (build tree) :=
  fillsSubtree (ofTree_sound tree).links (ofTree_sound tree).blank (ofTree_nonempty tree)
    (Nat.le_refl _) .instruction (ofTree tree) rfl fun _ _ => rfl

@[simp] theorem role_frame (diagram : Diagram) : diagram.frame.role = diagram.role := by
  funext id
  rw [role, statement_frame]
  rfl

/-- Nothing but buffers and the starts of bodies changes when the diagram is filled. -/
theorem frame_build (tree : Tree) : (build tree).frame = (ofTree tree).frame :=
  (filled_build tree).frame

@[simp] theorem size_build (tree : Tree) : (build tree).size = (ofTree tree).size := by
  rw [← size_frame, frame_build, size_frame]

@[simp] theorem children_build (tree : Tree) :
    (build tree).children = (ofTree tree).children := by
  rw [← children_frame, frame_build, children_frame]

@[simp] theorem parent?_build (tree : Tree) : (build tree).parent? = (ofTree tree).parent? := by
  rw [← parent?_frame, frame_build, parent?_frame]

@[simp] theorem role_build (tree : Tree) : (build tree).role = (ofTree tree).role := by
  rw [← role_frame, frame_build, role_frame]

@[simp] theorem below_build (tree : Tree) : (build tree).below = (ofTree tree).below := by
  funext id
  rw [below, below, children_build, size_build]

theorem build_linked (tree : Tree) : (build tree).Linked := by
  rw [Linked, size_build, parent?_build, children_build]
  exact (ofTree_sound tree).links

theorem build_nonempty (tree : Tree) : 0 < (build tree).size := by
  rw [size_build]
  exact ofTree_nonempty tree

theorem kind_statement_root (tree : Tree) : ((build tree).statement 0).kind = .document := by
  have kind := kind_root tree
  rwa [← role_build] at kind

theorem rolesAt_build (tree : Tree) : (build tree).rolesAt 0 = roles tree := by
  rw [← rolesAt_ofTree, rolesAt, rolesAt, below_build, role_build]

theorem build_filledFor (tree : Tree) : (build tree).FilledFor 0 (some .instruction) := by
  rw [FilledFor, outcomesAt, rolesAt, below_build, role_build]
  exact (filled_build tree).inside

end NassiChart.Diagram
