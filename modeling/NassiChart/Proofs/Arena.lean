import NassiChart.Proofs.Excerpt

/-! # The arena of an ordered tree

`Tree.arena` lays the nodes of an ordered tree out in pre-order and writes down every link as a
number: a child list holds the positions at which the subtrees start.  Nothing is inserted in this
description.  Growing the tree node by node, as `Tree.ofRose` does, makes the same arena.
-/

namespace NassiChart.Grammar

/-- The node with these links.  Terminals have no children. -/
def Node.linked (parent : Option NodeId) (children : List NodeId) (node : Node) : Node where
  level := node.level
  text := node.text
  parent := parent
  form := match node.form with
    | .expression _ => .expression children
    | .terminal => .terminal

/-- The positions of the roots of trees that are laid out one after the other from `first` on. -/
def starts (first : NodeId) : List (Rose Node) → List NodeId
  | [] => []
  | tree :: trees => first :: starts (first + tree.preorder.length) trees

mutual
/-- The nodes of a tree in pre-order, the first of them at position `first`. -/
def laidOut (parent : Option NodeId) (first : NodeId) : Rose Node → List Node
  | .node node trees =>
    node.linked parent (starts (first + 1) trees) :: laidOutAll first (first + 1) trees
def laidOutAll (parent first : NodeId) : List (Rose Node) → List Node
  | [] => []
  | tree :: trees =>
    laidOut (some parent) first tree ++ laidOutAll parent (first + tree.preorder.length) trees
end

/-- The tree with these nodes, in pre-order. -/
def Tree.arena (nodes : Rose Node) : Tree :=
  ⟨(laidOut none 0 nodes).toArray⟩

example : Tree.arena (.node (.expression 0 "<a>")
    [.node (.expression 1 "<b>") [.node (.terminal 2 "x") []], .node (.terminal 1 "y") []]) =
    ⟨#[⟨0, "<a>", none, .expression [1, 3]⟩, ⟨1, "<b>", some 0, .expression [2]⟩,
      ⟨2, "x", some 1, .terminal⟩, ⟨1, "y", some 0, .terminal⟩]⟩ := by decide

mutual
theorem length_laidOut (parent : Option Nat) (first : Nat) (tree : Rose Node) :
    (laidOut parent first tree).length = tree.preorder.length := by
  cases tree with
  | node node trees => rw [laidOut, Rose.preorder, List.length_cons, List.length_cons,
      length_laidOutAll]
theorem length_laidOutAll (parent first : Nat) (trees : List (Rose Node)) :
    (laidOutAll parent first trees).length = (Rose.preorderAll trees).length := by
  cases trees with
  | nil => rfl
  | cons tree trees => rw [laidOutAll, Rose.preorderAll, List.length_append, List.length_append,
      length_laidOut, length_laidOutAll]
end

/-- Adding children one by one appends them to the child list. -/
theorem Node.foldl_addChild (node : Node) (ids : List Nat) :
    ids.foldl Node.addChild node = node.linked node.parent (node.children ++ ids) := by
  induction ids generalizing node with
  | nil => cases form : node.form <;> cases node <;> simp_all [linked, children]
  | cons id ids ih =>
      rw [List.foldl_cons, ih]
      cases form : node.form <;> simp [linked, children, addChild, form]

theorem modify_append_left {α : Type} {xs ys : List α} {i : Nat} (inside : i < xs.length)
    (f : α → α) : (xs ++ ys).modify i f = xs.modify i f ++ ys := by
  induction xs generalizing i with
  | nil => cases inside
  | cons x xs ih =>
      cases i with
      | zero => rfl
      | succ i => exact congrArg (x :: ·) (ih (Nat.lt_of_succ_lt_succ inside))

theorem modify_concat {α : Type} {xs : List α} {i : Nat} (last : i = xs.length) (x : α)
    (f : α → α) : (xs ++ [x]).modify i f = xs ++ [f x] := by
  subst last
  exact List.modifyTailIdx_add (List.modifyHead f) 0 xs [x]

namespace Tree

theorem toList_attach (tree : Tree) (above : Nat) (child : Node) :
    (tree.attach above child).nodes.toList =
      tree.nodes.toList.modify above (·.addChild tree.size) ++
        [{ child with parent := some above }] := by
  rw [attach, Array.toList_push, Array.toList_modify]

mutual
/-- Grafting lays the nodes out behind those that are there, and tells `above` about the root. -/
theorem toList_graft (nodes : Rose Node) (above : Nat) (tree : Tree)
    (fresh : ∀ node ∈ nodes.preorder, node.IsFresh) :
    (graft nodes above tree).nodes.toList =
      tree.nodes.toList.modify above (·.addChild tree.size) ++
        laidOut (some above) tree.size nodes := by
  cases nodes with
  | node node trees =>
      obtain ⟨childless, below⟩ := List.forall_mem_cons.mp fresh
      have size := size_attach tree above node
      have last : tree.size = (tree.nodes.toList.modify above (·.addChild tree.size)).length := by
        rw [List.length_modify]
        rfl
      have links : ({ node with parent := some above } : Node).children = [] := childless
      rw [graft, toList_graftAll trees (by omega) below, toList_attach, size, modify_concat last,
        Node.foldl_addChild, links, List.append_assoc]
      rfl
theorem toList_graftAll (trees : List (Rose Node)) {above : Nat} {tree : Tree}
    (inside : above < tree.size) (fresh : ∀ node ∈ Rose.preorderAll trees, node.IsFresh) :
    (graftAll trees above tree).nodes.toList =
      tree.nodes.toList.modify above ((starts tree.size trees).foldl Node.addChild) ++
        laidOutAll above tree.size trees := by
  cases trees with
  | nil =>
      have same : tree.nodes.toList.modify above id = tree.nodes.toList := List.modify_id ..
      rw [laidOutAll, List.append_nil]
      exact same.symm
  | cons first rest =>
      obtain ⟨fresh, later⟩ := List.forall_mem_append.mp fresh
      have grafted := toList_graft first above tree fresh
      have size : (graft first above tree).size = tree.size + first.preorder.length := by
        have lengths := congrArg List.length grafted
        rw [List.length_append, List.length_modify, length_laidOut] at lengths
        exact lengths
      have bound : above < (tree.nodes.toList.modify above (·.addChild tree.size)).length := by
        rw [List.length_modify]
        exact inside
      rw [graftAll, toList_graftAll rest (by omega) later, grafted, size,
        modify_append_left bound, List.modify_modify_eq, laidOutAll, List.append_assoc]
      rfl
end

/-- Growing a tree from new nodes lays them out in pre-order. -/
theorem ofRose_eq_arena (nodes : Rose Node) (fresh : ∀ node ∈ nodes.preorder, node.IsFresh) :
    ofRose nodes = arena nodes := by
  cases nodes with
  | node root trees =>
      obtain ⟨childless, below⟩ := List.forall_mem_cons.mp fresh
      have links : ({ root with parent := none } : Node).children = [] := childless
      have inside : 0 < (singleton root).size := Nat.one_pos
      have grown := toList_graftAll trees inside below
      have laid : (ofRose (.node root trees)).nodes.toList = laidOut none 0 (.node root trees) := by
        rw [ofRose, grown]
        change List.foldl Node.addChild { root with parent := none } (starts 1 trees) ::
          laidOutAll 0 1 trees = _
        rw [Node.foldl_addChild, links]
        rfl
      rw [arena, ← laid]

end Tree

end NassiChart.Grammar
