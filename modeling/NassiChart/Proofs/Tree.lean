import NassiChart.Grammar.Tree
import NassiChart.Proofs.Links

/-! # Derivation trees that were grown node by node

`Tree.Sound` is what `insert` keeps: parent links and child lists tell the same tree, and every
parent is an expression that is less deep than its child.  It holds whatever cursor a node is
inserted at, so it does not say in which order the nodes were met; that is the business of the
reader.
-/

namespace NassiChart.Grammar

namespace Node

/-- No child was added to the node yet. -/
def IsFresh (node : Node) : Prop :=
  node.children = []

theorem classify_isFresh (level : Nat) (text : String) : (classify level text).IsFresh := by
  unfold classify
  split <;> rfl

@[simp] theorem classify_level (level : Nat) (text : String) :
    (classify level text).level = level := by
  unfold classify
  split <;> rfl

@[simp] theorem classify_text (level : Nat) (text : String) :
    (classify level text).text = text := by
  unfold classify
  split <;> rfl

@[simp] theorem classify_isExpression (level : Nat) (text : String) :
    (classify level text).isExpression = namesProduction text.toList := by
  unfold classify
  split <;> simp_all [expression, terminal, isExpression]

@[simp] theorem addChild_level (node : Node) (child : NodeId) :
    (node.addChild child).level = node.level := by
  unfold addChild
  split <;> rfl

@[simp] theorem addChild_text (node : Node) (child : NodeId) :
    (node.addChild child).text = node.text := by
  unfold addChild
  split <;> rfl

@[simp] theorem addChild_parent (node : Node) (child : NodeId) :
    (node.addChild child).parent = node.parent := by
  unfold addChild
  split <;> rfl

@[simp] theorem addChild_isExpression (node : Node) (child : NodeId) :
    (node.addChild child).isExpression = node.isExpression := by
  cases form : node.form <;> simp [addChild, isExpression, form]

theorem addChild_children {node : Node} (expression : node.isExpression = true)
    (child : NodeId) : (node.addChild child).children = node.children ++ [child] := by
  cases form : node.form with
  | expression children => simp [addChild, Node.children, form]
  | terminal => simp [isExpression, form] at expression

end Node

namespace Tree

@[simp] theorem size_attach (tree : Tree) (above : Nat) (child : Node) :
    (tree.attach above child).size = tree.size + 1 := by
  simp [attach, size]

theorem lt_size_of_node? {tree : Tree} {id : Nat} {node : Node}
    (found : tree.node? id = some node) : id < tree.size := by
  simp only [node?] at found
  exact (Array.getElem?_eq_some_iff.mp found).1

theorem exists_node? {tree : Tree} {id : Nat} (inside : id < tree.size) :
    ∃ node, tree.node? id = some node :=
  ⟨_, Array.getElem?_eq_getElem inside⟩

theorem node?_attach (tree : Tree) (above : Nat) (child : Node) (id : Nat) :
    (tree.attach above child).node? id =
      if id = tree.size then some { child with parent := some above }
      else if id = above then (tree.node? above).map (·.addChild tree.size)
      else tree.node? id := by
  have sizes : (tree.nodes.modify above (·.addChild tree.size)).size = tree.size := by
    rw [Array.size_modify, size]
  simp only [attach, node?]
  rw [Array.getElem?_push, sizes, Array.getElem?_modify]
  by_cases new : id = tree.size
  · rw [if_pos new, if_pos new]
  · rw [if_neg new, if_neg new]
    by_cases same : above = id
    · rw [if_pos same, if_pos same.symm, same]
    · rw [if_neg same, if_neg (Ne.symm same)]

theorem parent?_attach (tree : Tree) (above : Nat) (child : Node) (id : Nat) :
    (tree.attach above child).parent? id =
      if id = tree.size then some above else tree.parent? id := by
  simp only [parent?, node?_attach]
  split
  · rfl
  · split
    · rename_i same
      subst same
      cases tree.node? id <;> simp
    · rfl

theorem children_attach (tree : Tree) {above : Nat} {holder child : Node}
    (found : tree.node? above = some holder) (expression : holder.isExpression = true)
    (fresh : child.IsFresh) (id : Nat) : (tree.attach above child).children id =
      if id = above then tree.children above ++ [tree.size] else tree.children id := by
  have inside := lt_size_of_node? found
  simp only [children, node?_attach, found]
  by_cases new : id = tree.size
  · have apart : id ≠ above := by omega
    have absent : tree.node? id = none := by
      simp only [node?, Array.getElem?_eq_none_iff]
      exact Nat.le_of_eq new.symm
    simp only [if_pos new, if_neg apart, absent, Option.map_some, Option.map_none,
      Option.getD_some, Option.getD_none]
    exact fresh
  · simp only [if_neg new]
    split
    · simp [Node.addChild_children expression]
    · rfl

/-- The links of the tree agree, and every child is deeper than its parent, an expression. -/
structure Sound (tree : Tree) : Prop where
  nonempty : 0 < tree.size
  links : Links tree.size tree.parent? tree.children
  nested : ∀ (id above : Nat) node holder, tree.parent? id = some above → tree.node? id = some node →
    tree.node? above = some holder → holder.isExpression = true ∧ holder.level < node.level

theorem Sound.down {tree : Tree} (sound : tree.Sound) : Descends tree.parent? :=
  sound.links.down

theorem singleton_sound {root : Node} (fresh : root.IsFresh) : (singleton root).Sound where
  nonempty := by simp [singleton, size]
  links := by
    have noParent : ∀ id, (singleton root).parent? id = none := by
      intro id
      cases id <;> simp [singleton, parent?, node?]
    refine ⟨?_, ?_, ?_, ?_⟩
    · intro id above link
      simp [noParent] at link
    · intro id above link
      simp [noParent] at link
    · intro id later inside
      simp only [singleton, size, List.size_toArray, List.length_singleton] at inside
      omega
    · intro id
      simp only [noParent, reduceCtorEq, decide_false, List.filter_false]
      cases id with
      | zero => exact fresh
      | succ id => simp [singleton, children, node?]
  nested := by
    intro id above node holder link
    cases id <;> simp [singleton, parent?, node?] at link

/-- Attaching keeps the tree sound if the holder is a less deep expression. -/
theorem Sound.attach {tree : Tree} (sound : tree.Sound) {above : Nat} {holder child : Node}
    (found : tree.node? above = some holder) (expression : holder.isExpression = true)
    (shallower : holder.level < child.level) (fresh : child.IsFresh) :
    (tree.attach above child).Sound where
  nonempty := by rw [size_attach]; omega
  links := by
    have inside := lt_size_of_node? found
    have parents := parent?_attach tree above child
    refine ⟨?_, ?_, ?_, ?_⟩
    · intro id top link
      rw [parents] at link
      split at link
      · cases link
        omega
      · exact sound.links.down id top link
    · intro id top link
      rw [parents] at link
      rw [size_attach]
      split at link
      · omega
      · have := sound.links.inside id top link
        omega
    · intro id later bound
      rw [parents]
      rw [size_attach] at bound
      split
      · exact ⟨above, rfl⟩
      · exact sound.links.rooted id later (by omega)
    · intro id
      rw [children_attach tree found expression fresh, size_attach, List.range_succ,
        List.filter_append]
      have old : (List.range tree.size).filter
          (fun k => (tree.attach above child).parent? k = some id) = tree.children id := by
        rw [sound.links.listed]
        refine List.filter_congr fun k member => ?_
        have apart : k ≠ tree.size := Nat.ne_of_lt (List.mem_range.mp member)
        rw [parents, if_neg apart]
      rw [old]
      by_cases same : id = above
      · simp [same, parents]
      · simp [same, Ne.symm same, parents]
  nested := by
    intro id top node upper link foundNode foundUpper
    have inside := lt_size_of_node? found
    rw [parent?_attach] at link
    rw [node?_attach] at foundNode foundUpper
    by_cases new : id = tree.size
    · rw [if_pos new] at link foundNode
      cases link
      cases foundNode
      rw [if_neg (by omega), if_pos rfl, found, Option.map_some, Option.some.injEq] at foundUpper
      subst foundUpper
      simpa using ⟨expression, shallower⟩
    · rw [if_neg new] at link foundNode
      have topInside : top < tree.size := by
        have := sound.links.down id top link
        have := sound.links.inside id top link
        omega
      -- Attaching changes neither level nor form of a node that was there.
      have unchanged : ∀ (j : Nat) after, j < tree.size → (if j = above then
          (tree.node? above).map (·.addChild tree.size) else tree.node? j) = some after →
          ∃ before, tree.node? j = some before ∧ after.level = before.level ∧
            after.isExpression = before.isExpression := by
        intro j after _ met
        split at met
        · rename_i same
          obtain ⟨before, at_, rfl⟩ := Option.map_eq_some_iff.mp met
          exact ⟨before, same ▸ at_, by simp, by simp⟩
        · exact ⟨after, met, rfl, rfl⟩
      rw [if_neg (by omega)] at foundUpper
      obtain ⟨node', was, level, -⟩ := unchanged id node
        (sound.links.inside id top link) foundNode
      obtain ⟨upper', was', level', form'⟩ := unchanged top upper topInside foundUpper
      rw [level, level', form']
      exact sound.nested id top node' upper' link was was'

theorem isShallower_iff {tree : Tree} {id level : Nat} :
    tree.isShallower level id = true ↔ ∃ node, tree.node? id = some node ∧ node.level < level := by
  simp [isShallower, Option.any_eq_true]

theorem Sound.isShallower_of_mem_ancestors {tree : Tree} (sound : tree.Sound) {above id level : Nat}
    (member : above ∈ tree.ancestors id) (shallower : tree.isShallower level id = true) :
    tree.isShallower level above = true := by
  induction id using Nat.strongRecOn with
  | ind id ih =>
      rcases (mem_lineage_iff sound.down).mp member with rfl | ⟨next, link, rest⟩
      · exact shallower
      · obtain ⟨node, found, lower⟩ := isShallower_iff.mp shallower
        have smaller := sound.down id next link
        have inside : next < tree.size := by
          have := lt_size_of_node? found
          omega
        obtain ⟨holder, found'⟩ := exists_node? inside
        obtain ⟨-, upper⟩ := sound.nested id next node holder link found found'
        exact ih next smaller rest (isShallower_iff.mpr ⟨holder, found', by omega⟩)

end Tree

end NassiChart.Grammar
