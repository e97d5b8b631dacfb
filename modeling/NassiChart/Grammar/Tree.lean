import NassiChart.Rose
import NassiChart.Grammar.Node

/-!
# Derivation trees

A `Tree` keeps its nodes in the order of insertion, the root first. `insert` attaches a node
relative to a cursor: to the cursor itself if that is shallower than the node, otherwise to the
nearest ancestor of the cursor that is. A terminal takes no children, and a node that is no deeper
than the root has no place.
-/

namespace NassiChart.Grammar

/-- A derivation tree. Node `0` is the root. -/
structure Tree where
  nodes : Array Node
  deriving DecidableEq, Repr

inductive InsertError where
  /-- No ancestor of the cursor is shallower than the node. -/
  | aboveRoot (level : Nat)
  deriving DecidableEq, Repr

def InsertError.message : InsertError → String
  | .aboveRoot level => s!"node at level {level} has no ancestor to attach to"

namespace Tree

def singleton (root : Node) : Tree :=
  ⟨#[{ root with parent := none }]⟩

def size (tree : Tree) : Nat :=
  tree.nodes.size

def root (_ : Tree) : NodeId := 0

def node? (tree : Tree) (id : NodeId) : Option Node :=
  tree.nodes[id]?

/-- The parent of a node. The root and positions outside the tree have none. -/
def parent? (tree : Tree) (id : NodeId) : Option NodeId :=
  (tree.node? id).bind (·.parent)

/-- The children of a node, in order of insertion. -/
def children (tree : Tree) (id : NodeId) : List NodeId :=
  ((tree.node? id).map (·.children)).getD []

def ancestors (tree : Tree) (id : NodeId) : List NodeId :=
  lineage tree.parent? id

/-- The node at `id` is less deep than `level`. -/
def isShallower (tree : Tree) (level : Nat) (id : NodeId) : Bool :=
  (tree.node? id).any (·.level < level)

/-- The nearest of `cursor` and its ancestors that is less deep than `level`. -/
def receiver? (tree : Tree) (cursor : NodeId) (level : Nat) : Option NodeId :=
  (tree.ancestors cursor).find? (tree.isShallower level)

/-- The tree with `child` as the last node and the last child of `parent`. -/
def attach (tree : Tree) (parent : NodeId) (child : Node) : Tree :=
  ⟨(tree.nodes.modify parent (·.addChild tree.size)).push { child with parent := some parent }⟩

/-- Insert `child` relative to `cursor`. The result holds the new node's position and the new
tree, or `none` when the receiver is a terminal, which drops the child. -/
def insert (tree : Tree) (cursor : NodeId) (child : Node) :
    Except InsertError (Option (NodeId × Tree)) :=
  match tree.receiver? cursor child.level with
  | none => .error (.aboveRoot child.level)
  | some parent =>
    if (tree.node? parent).any (·.isExpression) then
      .ok (some (tree.size, tree.attach parent child))
    else
      .ok none

/-- The label of a node. Positions outside the tree are labelled as an empty token. -/
def label (tree : Tree) (id : NodeId) : Label :=
  ((tree.node? id).map (·.label)).getD (.token "")

/-- The positions as an ordered tree. -/
def shape (tree : Tree) : Rose NodeId :=
  Rose.unfold tree.children tree.size tree.root

/-- The tree as an ordered tree of positions and labels: all that a diagram is made from. -/
def outline (tree : Tree) : Rose (NodeId × Label) :=
  tree.shape.map fun id => (id, tree.label id)

end Tree

end NassiChart.Grammar
