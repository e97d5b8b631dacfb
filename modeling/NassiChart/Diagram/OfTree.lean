import NassiChart.Diagram.Basic
import NassiChart.Grammar.Tree

/-!
# The diagram of a grammar tree

`Diagram.ofTree` makes one statement for every grammar node, with the same children in the same
order. The statement at the top is always a document: if the root of the grammar tree has another
kind, a document is put above it.

Statements are numbered in the order in which they are made. The children of a statement are made
together, and what lies below them follows from the last child to the first, so the numbers are
not the order of the document.
-/

namespace NassiChart.Diagram

open NassiChart.Grammar

def Statement.ofNode (parent : StatementId) (node : NodeId × Label) : Statement :=
  .fresh (.ofLabel node.2) node.1 node.2 (some parent)

/-- The diagram with new statements for `nodes` at its end, which become the children of
`parent`. -/
def addChildren (diagram : Diagram) (parent : StatementId) (nodes : List (NodeId × Label)) :
    Diagram :=
  let linked := diagram.modify parent fun statement =>
    { statement with children := List.range' diagram.size nodes.length }
  ⟨linked.statements ++ nodes.map (Statement.ofNode parent)⟩

mutual
/-- Make the statements below `id`, the statement for the root of the tree. -/
def plant : Rose (NodeId × Label) → (id : StatementId) → Diagram → Diagram
  | .node _ trees, id, diagram =>
    plantAll trees diagram.size (diagram.addChildren id (trees.map Rose.value))
/-- `plant` for statements `first`, `first + 1`, and so on, the last of them before the others. -/
def plantAll : List (Rose (NodeId × Label)) → (first : StatementId) → Diagram → Diagram
  | [], _, diagram => diagram
  | tree :: trees, first, diagram => plant tree first (plantAll trees (first + 1) diagram)
end

def ofRoot (root : NodeId × Label) : Diagram :=
  ⟨#[.fresh .document root.1 root.2 none]⟩

/-- The diagram of an outline, with nothing collected yet. -/
def ofOutline (outline : Rose (NodeId × Label)) : Diagram :=
  let root := outline.value
  if StatementKind.ofLabel root.2 = .document then
    plant outline 0 (ofRoot root)
  else
    plant outline 1 ((ofRoot root).addChildren 0 [root])

def ofTree (tree : Tree) : Diagram :=
  ofOutline tree.outline

theorem statement?_eq_none {diagram : Diagram} {id : Nat} (outside : diagram.size ≤ id) :
    diagram.statement? id = none :=
  Array.getElem?_eq_none outside

theorem statement?_inside {diagram : Diagram} {id : Nat} (inside : id < diagram.size) :
    diagram.statement? id = some (diagram.statement id) := by
  simp [statement, statement?, Array.getElem?_eq_getElem inside]

theorem statement_eq_of_statement? {diagram other : Diagram} {id : Nat}
    (same : diagram.statement? id = other.statement? id) :
    diagram.statement id = other.statement id := by
  rw [statement, statement, same]

theorem eq_of_statement? {diagram other : Diagram}
    (same : ∀ id, diagram.statement? id = other.statement? id) : diagram = other := by
  cases diagram
  cases other
  exact congrArg Diagram.mk (Array.ext_getElem? same)

theorem statement?_modify (diagram : Diagram) (id j : Nat) (change : Statement → Statement) :
    (diagram.modify id change).statement? j =
      if j = id then (diagram.statement? j).map change else diagram.statement? j := by
  simp only [modify, statement?, Array.getElem?_modify, eq_comm]

theorem size_addChildren (diagram : Diagram) (above : Nat) (nodes : List (NodeId × Label)) :
    (diagram.addChildren above nodes).size = diagram.size + nodes.length := by
  rw [addChildren, size, ← Array.length_toList, Array.toList_appendList]
  simp [modify, size]

theorem statement?_addChildren_of_lt (diagram : Diagram) {above : Nat}
    (nodes : List (NodeId × Label)) {id : Nat} (old : id < diagram.size) :
    (diagram.addChildren above nodes).statement? id =
      if id = above then (diagram.statement? id).map fun statement =>
        { statement with children := List.range' diagram.size nodes.length }
      else diagram.statement? id := by
  rw [← statement?_modify, addChildren, statement?, ← Array.getElem?_toList,
    Array.toList_appendList, List.getElem?_append_left]
  · rw [Array.getElem?_toList]
    rfl
  · simpa [modify, size] using old

theorem statement?_addChildren_of_le (diagram : Diagram) {above : Nat}
    (nodes : List (NodeId × Label)) (index : Nat) :
    (diagram.addChildren above nodes).statement? (diagram.size + index) =
      nodes[index]?.map (Statement.ofNode above) := by
  rw [addChildren, statement?, ← Array.getElem?_toList, Array.toList_appendList,
    List.getElem?_append_right]
  · simp [modify, size]
  · simp [modify, size]

end NassiChart.Diagram
