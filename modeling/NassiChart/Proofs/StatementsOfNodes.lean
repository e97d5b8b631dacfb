import Mathlib.Data.Set.Function
import NassiChart.Proofs.AddedTexts
import NassiChart.Proofs.Context
import NassiChart.Proofs.Deliveries
import NassiChart.Proofs.Insertion

/-! # The statements of the nodes

A family of children is made at a time, and the last child's family first, so a statement does not
stand at the position of its node.  `statementOf` finds it by its origin: it takes the nodes to all
statements but a document put above them, and the links of the nodes to those of their statements.
Text changes none of this.
-/

namespace NassiChart.Diagram

open NassiChart.Grammar NassiChart.Grammar.Tree

variable {tree : Tree}

/-- The statement for the root node: the document, or the first one below it. -/
def top (tree : Tree) : StatementId :=
  if tree.label 0 = .production "program" then 0 else 1

theorem kind_nodeRole_eq_document_iff {n : Nat} :
    (nodeRole tree n).kind = .document ↔ tree.label n = .production "program" :=
  StatementKind.ofLabel_eq_document_iff

/-- A document that was put above the nodes has the statement of the root as its only child. -/
theorem children_root_of_wrapped (other : tree.label 0 ≠ .production "program") :
    (ofTree tree).children 0 = [1] ∧ (ofTree tree).rolesAt 1 = nodeRoles tree 0 := by
  have links := (ofTree_sound tree).links
  have whole := rolesAt_ofTree tree
  rw [rolesAt_eq links (ofTree_nonempty tree), roles_eq, withDocument, value_nodeRoles,
    if_neg (mt kind_nodeRole_eq_document_iff.mp other)] at whole
  obtain ⟨only, listed, here⟩ := List.map_eq_singleton_iff.mp (Rose.node.inj whole).2
  have link : (ofTree tree).parent? only = some 0 :=
    links.mem_children.mp (listed ▸ List.mem_singleton_self only)
  have inside := links.inside only 0 link
  have later := links.down only 0 link
  -- Statement `1` has a parent too, which can only be the document.
  obtain ⟨above, link'⟩ := links.rooted 1 Nat.one_pos (by omega)
  obtain rfl : above = 0 := Nat.lt_one_iff.mp (links.down 1 above link')
  have member := links.mem_children.mpr link'
  rw [listed, List.mem_singleton] at member
  exact ⟨member ▸ listed, member ▸ here⟩

theorem rolesAt_top (tree : Tree) : (ofTree tree).rolesAt (top tree) = nodeRoles tree 0 := by
  unfold top
  split
  · rename_i program
    rw [rolesAt_ofTree, roles_eq, withDocument, value_nodeRoles,
      if_pos (kind_nodeRole_eq_document_iff.mpr program)]
  · rename_i other
    exact (children_root_of_wrapped other).2

/-- The statements from the one for the root node down. -/
def made (tree : Tree) : List StatementId :=
  ((ofTree tree).below (top tree)).preorder

theorem preorder_below_root (tree : Tree) : ((ofTree tree).below 0).preorder =
    if tree.label 0 = .production "program" then made tree else 0 :: made tree := by
  unfold made top
  split
  · rfl
  · rename_i other
    have links := (ofTree_sound tree).links
    rw [below, links.unfold_eq (ofTree_nonempty tree), (children_root_of_wrapped other).1]
    simp only [Rose.preorder, List.map_cons, List.map_nil, Rose.preorderAll, List.append_nil]
    rfl

theorem preorder_below_root_perm (tree : Tree) :
    ((ofTree tree).below 0).preorder.Perm (List.range (ofTree tree).size) :=
  (ofTree_sound tree).links.preorder_unfold_perm (ofTree_nonempty tree)

/-- All statements are made for nodes, apart from a document that was put above them. -/
theorem mem_made_iff {id : Nat} : id ∈ made tree ↔
    id < (ofTree tree).size ∧ (tree.label 0 = .production "program" ∨ id ≠ 0) := by
  have all := preorder_below_root_perm tree
  have once := all.nodup_iff.mpr List.nodup_range
  rw [← List.mem_range, ← all.mem_iff]
  rw [preorder_below_root] at once ⊢
  split at once
  · rename_i program
    simp [program]
  · rename_i other
    have absent := (List.nodup_cons.mp once).1
    simp only [other, if_false, List.mem_cons, false_or]
    constructor
    · intro member
      exact ⟨.inr member, fun first => absent (first ▸ member)⟩
    · rintro ⟨first | member, later⟩
      · exact absurd first later
      · exact member

/-- The statements of the nodes stand in the order of the nodes. -/
theorem map_origin_made (tree : Tree) :
    (made tree).map (fun id => ((ofTree tree).role id).origin) = tree.shape.preorder := by
  have origins := congrArg (fun roles => roles.preorder.map Role.origin) (rolesAt_top tree)
  simp only [rolesAt, nodeRoles, Rose.preorder_map, List.map_map] at origins
  have own : Role.origin ∘ nodeRole tree = id := rfl
  rw [own, List.map_id] at origins
  exact origins

def statementOf (tree : Tree) (n : NodeId) : StatementId :=
  ((made tree).find? fun id => ((ofTree tree).role id).origin == n).getD 0

section

variable (sound : tree.Sound)

include sound

theorem mem_shape_iff {n : Nat} : n ∈ tree.shape.preorder ↔ n < tree.size := by
  rw [← List.mem_range]
  exact (sound.links.preorder_unfold_perm sound.nonempty).mem_iff

theorem statementOf_spec {n : Nat} (inside : n < tree.size) :
    statementOf tree n ∈ made tree ∧ ((ofTree tree).role (statementOf tree n)).origin = n := by
  have listed := (mem_shape_iff sound).mpr inside
  rw [← map_origin_made] at listed
  obtain ⟨id, member, same⟩ := List.mem_map.mp listed
  have found : ((made tree).find? fun id => ((ofTree tree).role id).origin == n).isSome = true :=
    List.find?_isSome.mpr ⟨id, member, beq_iff_eq.mpr same⟩
  obtain ⟨first, here⟩ := Option.isSome_iff_exists.mp found
  have origin := List.find?_some here
  rw [statementOf, here]
  exact ⟨List.mem_of_find?_eq_some here, beq_iff_eq.mp origin⟩

theorem origin_lt_size {id : Nat} (member : id ∈ made tree) :
    ((ofTree tree).role id).origin < tree.size := by
  rw [← mem_shape_iff sound, ← map_origin_made]
  exact List.mem_map_of_mem member

theorem statementOf_origin {id : Nat} (member : id ∈ made tree) :
    statementOf tree ((ofTree tree).role id).origin = id := by
  have once : ((made tree).map fun id => ((ofTree tree).role id).origin).Nodup := by
    rw [map_origin_made]
    exact sound.links.preorder_unfold_nodup sound.nonempty (Nat.le_refl _)
  obtain ⟨other, same⟩ := statementOf_spec sound (origin_lt_size sound member)
  exact List.inj_on_of_nodup_map once other member same

theorem bijOn_statementOf :
    Set.BijOn (statementOf tree) {n | n < tree.size} {id | id ∈ made tree} := by
  refine ⟨fun n inside => (statementOf_spec sound inside).1, ?_, ?_⟩
  · intro n inside m inside' same
    rw [← (statementOf_spec sound inside).2, same, (statementOf_spec sound inside').2]
  · intro id member
    exact ⟨_, origin_lt_size sound member, statementOf_origin sound member⟩

theorem rolesAt_of_mem_made {id : Nat} (member : id ∈ made tree) :
    (ofTree tree).rolesAt id = nodeRoles tree ((ofTree tree).role id).origin := by
  obtain ⟨inside, place⟩ := mem_made_iff.mp member
  have value := value_rolesAt (ofTree tree) id
  have bound : id < (build tree).size := by rwa [size_build]
  have placed := rolesAt_build_eq sound bound
  rw [rolesAt, below_build, role_build, ← rolesAt] at placed
  cases placed with
  | inl wrapped =>
      obtain ⟨first, other, -⟩ := wrapped
      cases place with
      | inl program => exact absurd (kind_nodeRole_eq_document_iff.mpr program) other
      | inr later => exact absurd first later
  | inr node =>
      obtain ⟨n, -, whole⟩ := node
      rw [whole, value_nodeRoles] at value
      rw [whole, ← value]
      rfl

theorem rolesAt_statementOf {n : Nat} (inside : n < tree.size) :
    (ofTree tree).rolesAt (statementOf tree n) = nodeRoles tree n := by
  obtain ⟨member, same⟩ := statementOf_spec sound inside
  rw [rolesAt_of_mem_made sound member, same]

theorem role_statementOf {n : Nat} (inside : n < tree.size) :
    (ofTree tree).role (statementOf tree n) = nodeRole tree n := by
  rw [← value_rolesAt, rolesAt_statementOf sound inside, value_nodeRoles]

theorem children_statementOf {n : Nat} (inside : n < tree.size) :
    (ofTree tree).children (statementOf tree n) = (tree.children n).map (statementOf tree) := by
  have links := (ofTree_sound tree).links
  have bound := (mem_made_iff.mp (statementOf_spec sound inside).1).1
  have below := rolesAt_statementOf sound inside
  rw [rolesAt_eq links bound, nodeRoles_eq sound inside] at below
  have origins := congrArg (List.map fun roles => roles.value.origin) (Rose.node.inj below).2
  simp only [List.map_map, Function.comp_def, value_rolesAt, value_nodeRoles] at origins
  have own : (fun m => (nodeRole tree m).origin) = id := rfl
  rw [own, List.map_id] at origins
  have each : ∀ child ∈ (ofTree tree).children (statementOf tree n),
      statementOf tree ((ofTree tree).role child).origin = child := by
    intro child member
    have later := Nat.zero_lt_of_lt (links.down child _ (links.mem_children.mp member))
    apply statementOf_origin sound
    exact mem_made_iff.mpr ⟨links.children_inside member, .inr (Nat.ne_of_gt later)⟩
  rw [← origins, List.map_map]
  exact ((List.map_congr_left each).trans (List.map_id' _)).symm

theorem parent?_statementOf {n above : Nat} (link : tree.parent? n = some above) :
    (ofTree tree).parent? (statementOf tree n) = some (statementOf tree above) := by
  have inside := Nat.lt_trans (sound.down n above link) (sound.links.inside n above link)
  apply (ofTree_sound tree).links.mem_children.mp
  rw [children_statementOf sound inside]
  exact List.mem_map_of_mem (sound.links.mem_children.mpr link)

theorem statementOf_root : statementOf tree 0 = top tree := by
  have value := value_rolesAt (ofTree tree) (top tree)
  have own : top tree ∈ made tree := by
    rw [made]
    cases shape : (ofTree tree).below (top tree) with
    | node id trees =>
        have root : ((ofTree tree).below (top tree)).value = top tree := by
          rw [below, Rose.value_unfold]
        rw [shape] at root
        obtain rfl : id = top tree := root
        exact List.mem_cons_self
  rw [rolesAt_top, value_nodeRoles] at value
  have same := statementOf_origin sound own
  rw [← value] at same
  exact same

theorem size_ofTree : (ofTree tree).size =
    if tree.label 0 = .production "program" then tree.size else tree.size + 1 := by
  have nodes : (made tree).length = tree.size := by
    have walk := (sound.links.preorder_unfold_perm sound.nonempty).length_eq
    have same := congrArg List.length (map_origin_made tree)
    rw [List.length_map] at same
    rw [same]
    exact walk.trans List.length_range
  have all := (preorder_below_root_perm tree).length_eq
  rw [preorder_below_root, List.length_range] at all
  rw [← all]
  split
  · exact nodes
  · rw [List.length_cons, nodes]

end

/-- What a statement is besides its text: its kind and origin, and how it is linked. -/
def Statement.standing (statement : Statement) :
    StatementKind × NodeId × Option StatementId × List StatementId :=
  (statement.kind, statement.origin, statement.parent, statement.children)

/-- The same statements, linked in the same way. -/
def SameStanding (diagram other : Diagram) : Prop :=
  diagram.size = other.size ∧
    ∀ id, (diagram.statement id).standing = (other.statement id).standing

theorem sameStanding_of_frame {diagram other : Diagram} (same : diagram.frame = other.frame) :
    diagram.SameStanding other := by
  refine ⟨by rw [← size_frame, same, size_frame], fun id => ?_⟩
  have here := congrArg (fun diagram => (diagram.statement id).standing) same
  simp only [statement_frame] at here
  exact here

theorem frame_fill (diagram : Diagram) : diagram.fill.frame = diagram.frame :=
  frame_fillFrom ..

/-- Every statement but the first is listed by one statement, and once. -/
theorem existsUnique_listed {diagram : Diagram} (linked : diagram.Linked) {id : Nat}
    (later : 0 < id) (inside : id < diagram.size) :
    ∃! above, above < diagram.size ∧ id ∈ diagram.children above := by
  obtain ⟨above, link⟩ := linked.rooted id later inside
  have smaller := linked.down id above link
  refine ⟨above, ⟨Nat.lt_trans smaller inside, linked.mem_children.mpr link⟩, ?_⟩
  rintro other ⟨-, member⟩
  exact Option.some.inj ((linked.mem_children.mp member).symm.trans link)

theorem children_nodup {diagram : Diagram} (linked : diagram.Linked) (id : Nat) :
    (diagram.children id).Nodup := by
  rw [linked.listed]
  exact List.nodup_range.filter _

/-- A diagram has one statement for every node of its tree, with the kind of the node's label, and a
document on top of them unless the root is one.  The statements are linked as their nodes are, a
parent comes before its children, and neither filling a diagram nor handing texts to it changes what
its statements are or how they are linked. -/
theorem ofTree_statements (tree : Tree) (grown : tree.IsGrown) :
    (ofTree tree).size =
      (if tree.label 0 = .production "program" then tree.size else tree.size + 1) ∧
    (ofTree tree).parent? 0 = none ∧ ((ofTree tree).statement 0).kind = .document ∧
    (∃ place : NodeId → StatementId,
      Set.BijOn place {n | n < tree.size} {id | id < (ofTree tree).size ∧
        (tree.label 0 = .production "program" ∨ id ≠ 0)} ∧
      (∀ n < tree.size, ((ofTree tree).statement (place n)).origin = n ∧
        ((ofTree tree).statement (place n)).kind = .ofLabel (tree.label n) ∧
        (ofTree tree).children (place n) = (tree.children n).map place) ∧
      (∀ n above, tree.parent? n = some above →
        (ofTree tree).parent? (place n) = some (place above)) ∧
      (if tree.label 0 = .production "program" then place 0 = 0
        else (ofTree tree).children 0 = [place 0] ∧
          (ofTree tree).parent? (place 0) = some 0)) ∧
    (∀ id above, (ofTree tree).parent? id = some above → above < id) ∧
    (∀ id, 0 < id → id < (ofTree tree).size →
      ∃! above, above < (ofTree tree).size ∧ id ∈ (ofTree tree).children above) ∧
    (∀ id, 0 ∉ (ofTree tree).children id ∧ ((ofTree tree).children id).Nodup) ∧
    (build tree).SameStanding (ofTree tree) ∧
    ∀ diagram : Diagram, diagram.fill.SameStanding diagram ∧
      ∀ additions, (diagram.afterAll additions).SameStanding diagram := by
  have sound := grown.sound
  have links := (ofTree_sound tree).links
  have root := statementOf_root sound
  refine ⟨size_ofTree sound, links.root_parent, kind_root tree, ?_, links.down,
    fun id => existsUnique_listed links, ?_, sameStanding_of_frame (frame_build tree), ?_⟩
  · refine ⟨statementOf tree, ?_, ?_, fun n above => parent?_statementOf sound, ?_⟩
    · have bijective := bijOn_statementOf sound
      simp only [mem_made_iff] at bijective
      exact bijective
    · intro n inside
      have role := role_statementOf sound inside
      exact ⟨congrArg Role.origin role, congrArg Role.kind role, children_statementOf sound inside⟩
    · rw [root, top]
      split
      · rfl
      · rename_i other
        have only := (children_root_of_wrapped other).1
        exact ⟨only, links.mem_children.mp (only ▸ List.mem_singleton_self 1)⟩
  · intro id
    refine ⟨fun member => ?_, children_nodup links id⟩
    exact absurd (links.down 0 id (links.mem_children.mp member)) (Nat.not_lt_zero id)
  · exact fun diagram => ⟨sameStanding_of_frame (frame_fill diagram),
      fun additions => sameStanding_of_frame (frame_afterAll diagram additions)⟩

/-- A tree whose nodes were not inserted in the order of the document, and whose root is no
document. -/
theorem ofTree_statements_scattered : scattered.IsGrown ∧ (ofTree scattered).size = 7 ∧
    ∃ place : NodeId → StatementId, (ofTree scattered).children 0 = [place 0] ∧
      (ofTree scattered).children (place 1) = [place 2, place 3, place 5] ∧
      ((ofTree scattered).statement (place 5)).kind = .token := by
  have fresh : (Node.expression 2 "<a>").IsFresh := rfl
  have admits : (singleton (.expression 2 "<a>")).Admits scatteredCalls := by decide +kernel
  have grown : scattered.IsGrown := (grownFrom_run fresh admits).grown
  have other : scattered.label 0 ≠ .production "program" := by decide +kernel
  obtain ⟨size, -, -, ⟨place, -, statements, -, root⟩, -⟩ := ofTree_statements scattered grown
  have nodes : scattered.size = 6 := by decide +kernel
  rw [if_neg other, nodes] at size
  rw [if_neg other] at root
  obtain ⟨-, -, below⟩ := statements 1 (by decide +kernel)
  obtain ⟨-, kind, -⟩ := statements 5 (by decide +kernel)
  have listed : scattered.children 1 = [2, 3, 5] := by decide +kernel
  have token : scattered.label 5 = .token "z" := by decide +kernel
  rw [listed] at below
  rw [token] at kind
  exact ⟨grown, size, place, root.1, below, kind⟩

end NassiChart.Diagram
