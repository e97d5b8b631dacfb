/-!
# Ordered trees and links

Both arenas of this library, the grammar tree and the diagram, keep their nodes in an array and
link them by index. A `Rose α` is a finite ordered tree: a value and a list of subtrees; `unfold`
reads the links of an arena back into such a tree, on which everything else recurses.

`lineage` lists a node and its ancestors, nearest first. In both arenas a parent has a smaller
index than its children, so `id + 1` steps always reach the root.
-/

namespace NassiChart

/-- A finite ordered tree with a value at every node. -/
inductive Rose (α : Type) where
  | node (value : α) (children : List (Rose α))

namespace Rose

variable {α β γ : Type}

def value : Rose α → α
  | node a _ => a

mutual
/-- The tree of the same shape with `f` applied to every value. -/
def map (f : α → β) : Rose α → Rose β
  | node a ts => node (f a) (mapAll f ts)
def mapAll (f : α → β) : List (Rose α) → List (Rose β)
  | [] => []
  | t :: ts => map f t :: mapAll f ts
end

mutual
/-- The values in pre-order: a node, then its subtrees from first to last. -/
def preorder : Rose α → List α
  | node a ts => a :: preorderAll ts
def preorderAll : List (Rose α) → List α
  | [] => []
  | t :: ts => preorder t ++ preorderAll ts
end

/-- The tree that grows from `a` when `next` lists the children of each value, cut off below
depth `depth`. An arena of `n` nodes in which every child comes after its parent has no path
longer than `n`, so depth `n` cuts nothing off. -/
def unfold (next : α → List α) : (depth : Nat) → α → Rose α
  | 0, a => node a []
  | depth + 1, a => node a ((next a).map (unfold next depth))

/-- Mapping over a list of trees is mapping over each of them. -/
theorem mapAll_eq_map (f : α → β) (ts : List (Rose α)) : mapAll f ts = ts.map (map f) := by
  induction ts with
  | nil => rfl
  | cons t ts ih => rw [mapAll, ih, List.map_cons]

/-- The pre-order of a list of trees is that of each of them, one after the other. -/
theorem preorderAll_eq_flatMap (ts : List (Rose α)) : preorderAll ts = ts.flatMap preorder := by
  induction ts with
  | nil => rfl
  | cons t ts ih => rw [preorderAll, ih, List.flatMap_cons]

@[simp] theorem value_map (f : α → β) (tree : Rose α) : (tree.map f).value = f tree.value := by
  cases tree
  rfl

@[simp] theorem value_unfold (next : α → List α) (depth : Nat) (a : α) :
    (unfold next depth a).value = a := by
  cases depth <;> rfl

mutual
theorem map_congr {f g : α → β} (tree : Rose α) (same : ∀ a ∈ tree.preorder, f a = g a) :
    tree.map f = tree.map g := by
  cases tree with
  | node a trees =>
      have root := same a (by simp [preorder])
      have below := mapAll_congr trees fun b member => same b (by simp [preorder, member])
      rw [map, map, root, below]
theorem mapAll_congr {f g : α → β} (trees : List (Rose α))
    (same : ∀ a ∈ preorderAll trees, f a = g a) : mapAll f trees = mapAll g trees := by
  cases trees with
  | nil => rfl
  | cons tree trees =>
      have first := map_congr tree fun a member => same a (by simp [preorderAll, member])
      have rest := mapAll_congr trees fun a member => same a (by simp [preorderAll, member])
      rw [mapAll, mapAll, first, rest]
end

mutual
theorem map_map (f : α → β) (g : β → γ) (tree : Rose α) :
    (tree.map f).map g = tree.map (g ∘ f) := by
  cases tree with
  | node a trees => rw [map, map, map, mapAll_mapAll, Function.comp_apply]
theorem mapAll_mapAll (f : α → β) (g : β → γ) (trees : List (Rose α)) :
    mapAll g (mapAll f trees) = mapAll (g ∘ f) trees := by
  cases trees with
  | nil => rfl
  | cons tree trees => rw [mapAll, mapAll, mapAll, map_map, mapAll_mapAll]
end

mutual
theorem preorder_map (f : α → β) (tree : Rose α) : (tree.map f).preorder = tree.preorder.map f := by
  cases tree with
  | node a trees => rw [map, preorder, preorder, preorderAll_mapAll, List.map_cons]
theorem preorderAll_mapAll (f : α → β) (trees : List (Rose α)) :
    preorderAll (mapAll f trees) = (preorderAll trees).map f := by
  cases trees with
  | nil => rfl
  | cons tree trees =>
      rw [mapAll, preorderAll, preorderAll, preorder_map, preorderAll_mapAll, List.map_append]
end

end Rose

/-- `id`, its parent, the parent of that, and so on, at most `steps` of them. -/
def climb (parent : Nat → Option Nat) : (steps : Nat) → (id : Nat) → List Nat
  | 0, _ => []
  | steps + 1, id => id :: match parent id with
    | none => []
    | some above => climb parent steps above

/-- `id` and its ancestors, nearest first, where every parent has a smaller index. -/
def lineage (parent : Nat → Option Nat) (id : Nat) : List Nat :=
  climb parent (id + 1) id

end NassiChart
