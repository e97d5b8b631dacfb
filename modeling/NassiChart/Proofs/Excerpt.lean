import NassiChart.Proofs.Grown

/-! # A part of a derivation tree on its own

`Tree.excerpt` takes the nodes below one node out of a tree and grows a new tree from them, with that
node as the root at level zero.  The new tree holds the same nodes in the same places, each less deep
by the level of the node: `excerpt_isExcerpt`.
-/

namespace NassiChart.Grammar

def NodeForm.bare : NodeForm → NodeForm
  | .expression _ => .expression []
  | .terminal => .terminal

/-- A node without its links. -/
def Node.bare (node : Node) : Node :=
  { node with parent := none, form := node.form.bare }

/-- The node with the levels counted from `base`. -/
def Node.lowered (base : Nat) (node : Node) : Node :=
  { node with level := node.level - base }

namespace Tree

/-- A node of the tree without its links.  Positions outside the tree hold an empty token. -/
def bare (tree : Tree) (id : NodeId) : Node :=
  ((tree.node? id).map Node.bare).getD (.terminal 0 "")

/-- The positions of a node and of everything below it. -/
def below (tree : Tree) (id : NodeId) : Rose NodeId :=
  Rose.unfold tree.children tree.size id

/-- A node with everything below it, without links. -/
def bareAt (tree : Tree) (id : NodeId) : Rose Node :=
  (tree.below id).map tree.bare

theorem map_below {α : Type} {tree : Tree} (sound : tree.Sound) {id : Nat}
    (inside : id < tree.size) (f : Nat → α) : (tree.below id).map f =
      .node (f id) ((tree.children id).map fun child => (tree.below child).map f) :=
  sound.links.map_unfold inside f

end Tree

namespace Node

@[simp] theorem bare_isExpression (node : Node) : node.bare.isExpression = node.isExpression := by
  cases form : node.form <;> simp [bare, NodeForm.bare, isExpression, form]

@[simp] theorem bare_label (node : Node) : node.bare.label = node.label := by
  rw [label, label, bare_isExpression]
  rfl

@[simp] theorem bare_bare (node : Node) : node.bare.bare = node.bare := by
  cases form : node.form <;> simp [bare, NodeForm.bare, form]

@[simp] theorem bare_addChild (node : Node) (child : Nat) :
    (node.addChild child).bare = node.bare := by
  cases form : node.form <;> simp [addChild, bare, NodeForm.bare, form]

theorem isFresh_of_bare_eq {node : Node} (same : node.bare = node) : node.IsFresh := by
  rw [← same]
  cases form : node.form <;> simp [bare, NodeForm.bare, IsFresh, children, form]

end Node

mutual
/-- No node has links of its own, and nodes with children are expressions and less deep than they
are. -/
def Nested : Rose Node → Prop
  | .node node trees => node.bare = node ∧ NestedBelow node trees
def NestedBelow (above : Node) : List (Rose Node) → Prop
  | [] => True
  | tree :: trees => (above.isExpression = true ∧ above.level < tree.value.level) ∧
      Nested tree ∧ NestedBelow above trees
end

theorem nestedBelow_iff {above : Node} {trees : List (Rose Node)} :
    NestedBelow above trees ↔ ∀ tree ∈ trees,
      (above.isExpression = true ∧ above.level < tree.value.level) ∧ Nested tree := by
  induction trees with
  | nil => simp [NestedBelow]
  | cons tree trees ih => simp [NestedBelow, ih, and_assoc]

mutual
theorem nested_lowered {base : Nat} (tree : Rose Node) (nested : Nested tree)
    (deep : base ≤ tree.value.level) : Nested (tree.map (Node.lowered base)) := by
  cases tree with
  | node node trees =>
      refine ⟨congrArg (Node.lowered base) nested.1, ?_⟩
      exact nestedBelow_lowered trees nested.2 deep
theorem nestedBelow_lowered {base : Nat} {above : Node} (trees : List (Rose Node))
    (nested : NestedBelow above trees) (deep : base ≤ above.level) :
    NestedBelow (above.lowered base) (Rose.mapAll (Node.lowered base) trees) := by
  cases trees with
  | nil => trivial
  | cons tree trees =>
      obtain ⟨⟨expression, lower⟩, first, rest⟩ := nested
      refine ⟨⟨expression, ?_⟩, nested_lowered tree first (Nat.le_trans deep (Nat.le_of_lt lower)),
        nestedBelow_lowered trees rest deep⟩
      rw [Rose.value_map]
      exact Nat.sub_lt_sub_right deep lower
end

namespace Tree

theorem bare_of_node? {tree : Tree} {id : Nat} {node : Node} (found : tree.node? id = some node) :
    tree.bare id = node.bare := by
  rw [bare, found]
  rfl

theorem label_bare (tree : Tree) (id : Nat) : (tree.bare id).label = tree.label id := by
  rw [bare, label]
  cases tree.node? id with
  | none => rfl
  | some node => exact node.bare_label

theorem label_of_isExpression {tree : Tree} {id : Nat}
    (expression : (tree.bare id).isExpression = true) :
    ∃ name, tree.label id = .production name :=
  ⟨_, by rw [← label_bare, Node.label, if_pos expression]⟩

theorem label_of_not_isExpression {tree : Tree} {id : Nat}
    (terminal : ¬ (tree.bare id).isExpression = true) : ∃ text, tree.label id = .token text :=
  ⟨_, by rw [← label_bare, Node.label, if_neg terminal]⟩

theorem lt_size_of_production {tree : Tree} {id : Nat} {name : String}
    (label : tree.label id = .production name) : id < tree.size := by
  by_contra outside
  have absent : tree.node? id = none := Array.getElem?_eq_none (Nat.le_of_not_lt outside)
  rw [Tree.label, absent] at label
  cases label

theorem bareAt_eq {tree : Tree} (sound : tree.Sound) {id : Nat} (inside : id < tree.size) :
    tree.bareAt id = .node (tree.bare id) ((tree.children id).map tree.bareAt) :=
  map_below sound inside tree.bare

theorem value_map_below {α : Type} (tree : Tree) (f : Nat → α) (id : Nat) :
    ((tree.below id).map f).value = f id := by
  rw [Rose.value_map, below, Rose.value_unfold]

theorem value_bareAt (tree : Tree) (id : Nat) : (tree.bareAt id).value = tree.bare id :=
  tree.value_map_below tree.bare id

theorem nested_bareAt {tree : Tree} (sound : tree.Sound) {id : Nat} (inside : id < tree.size) :
    Nested (tree.bareAt id) := by
  refine sound.links.upwards (motive := fun id => Nested (tree.bareAt id)) ?_ id inside
  intro id inside ih
  obtain ⟨node, found⟩ := exists_node? inside
  rw [bareAt_eq sound inside, bare_of_node? found]
  refine ⟨node.bare_bare, nestedBelow_iff.mpr fun tree' member => ?_⟩
  obtain ⟨child, listed, rfl⟩ := List.mem_map.mp member
  obtain ⟨lower, found'⟩ := exists_node? (sound.links.children_inside listed)
  have link := sound.links.mem_children.mp listed
  obtain ⟨expression, deeper⟩ := sound.nested child id lower node link found' found
  rw [value_bareAt, bare_of_node? found', Node.bare_isExpression]
  exact ⟨⟨expression, deeper⟩, ih child listed⟩

mutual
/-- The tree with more nodes below `above`, inserted in pre-order. -/
def graft : Rose Node → (above : NodeId) → Tree → Tree
  | .node node trees, above, tree => graftAll trees tree.size (tree.attach above node)
def graftAll : List (Rose Node) → (above : NodeId) → Tree → Tree
  | [], _, tree => tree
  | first :: rest, above, tree => graftAll rest above (graft first above tree)
end

def ofRose : Rose Node → Tree
  | .node root trees => graftAll trees 0 (singleton root)

/-- A node with everything below it as a tree of its own. -/
def excerpt (tree : Tree) (id : NodeId) : Tree :=
  ofRose ((tree.bareAt id).map (Node.lowered (tree.bare id).level))

mutual
/-- The node at a position and everything below it are the nodes of a tree. -/
def Holds (tree : Tree) : Rose Node → NodeId → Prop
  | .node node trees, id =>
    id < tree.size ∧ tree.bare id = node ∧ HoldsEach tree trees (tree.children id)
def HoldsEach (tree : Tree) : List (Rose Node) → List NodeId → Prop
  | [], ids => ids = []
  | first :: rest, ids =>
    ∃ id more, ids = id :: more ∧ Holds tree first id ∧ HoldsEach tree rest more
end

theorem Holds.inside {tree : Tree} {nodes : Rose Node} {id : Nat} (held : tree.Holds nodes id) :
    id < tree.size := by
  cases nodes
  exact held.1

theorem children_outside {tree : Tree} {id : Nat} (outside : tree.size ≤ id) :
    tree.children id = [] := by
  have absent : tree.node? id = none := Array.getElem?_eq_none outside
  rw [children, absent]
  rfl

theorem children_of_node? {tree other : Tree} {id : Nat} (same : other.node? id = tree.node? id) :
    other.children id = tree.children id := by
  rw [children, children, same]

theorem bare_of_node?_eq {tree other : Tree} {id : Nat} (same : other.node? id = tree.node? id) :
    other.bare id = tree.bare id := by
  rw [bare, bare, same]

mutual
/-- What is below a node does not depend on the nodes before it. -/
theorem Holds.congr {tree other : Tree} (sound : tree.Sound) (grown : tree.size ≤ other.size)
    (nodes : Rose Node) {id : Nat} (held : tree.Holds nodes id)
    (same : ∀ j, id ≤ j → j < tree.size → other.node? j = tree.node? j) :
    other.Holds nodes id := by
  cases nodes with
  | node node trees =>
      obtain ⟨inside, here, each⟩ := held
      have root := same id (Nat.le_refl id) inside
      refine ⟨Nat.lt_of_lt_of_le inside grown, (bare_of_node?_eq root).trans here, ?_⟩
      rw [children_of_node? root]
      apply HoldsEach.congr sound grown trees each
      intro child listed j later bound
      have larger := sound.down child id (sound.links.mem_children.mp listed)
      exact same j (by omega) bound
theorem HoldsEach.congr {tree other : Tree} (sound : tree.Sound) (grown : tree.size ≤ other.size)
    (nodes : List (Rose Node)) {ids : List Nat} (held : tree.HoldsEach nodes ids)
    (same : ∀ id ∈ ids, ∀ j, id ≤ j → j < tree.size → other.node? j = tree.node? j) :
    other.HoldsEach nodes ids := by
  cases nodes with
  | nil => exact held
  | cons first rest =>
      obtain ⟨id, more, rfl, here, each⟩ := held
      refine ⟨id, more, rfl, ?_, ?_⟩
      · exact Holds.congr sound grown first here (same id List.mem_cons_self)
      · exact HoldsEach.congr sound grown rest each
          fun child listed => same child (List.mem_cons_of_mem _ listed)
end

mutual
theorem Holds.bareAt_eq {tree : Tree} (sound : tree.Sound) (nodes : Rose Node) {id : Nat}
    (held : tree.Holds nodes id) : tree.bareAt id = nodes := by
  cases nodes with
  | node node trees =>
      obtain ⟨inside, here, each⟩ := held
      rw [Tree.bareAt_eq sound inside, here, HoldsEach.map_bareAt sound trees each]
theorem HoldsEach.map_bareAt {tree : Tree} (sound : tree.Sound) (nodes : List (Rose Node))
    {ids : List Nat} (held : tree.HoldsEach nodes ids) : ids.map tree.bareAt = nodes := by
  cases nodes with
  | nil =>
      obtain rfl : ids = [] := held
      rfl
  | cons first rest =>
      obtain ⟨id, more, rfl, here, each⟩ := held
      rw [List.map_cons, Holds.bareAt_eq sound first here, HoldsEach.map_bareAt sound rest each]
end

/-- The later tree has all nodes of the earlier one, and only `above` may have more children. -/
structure Grows (above : NodeId) (before after : Tree) : Prop where
  grown : before.size ≤ after.size
  kept : ∀ id < before.size, id ≠ above → after.node? id = before.node? id
  bare : ∀ id < before.size, after.bare id = before.bare id

/-- Growing below a node goes on below the same node, or below one that is new. -/
theorem Grows.trans {above other : Nat} {before middle after : Tree}
    (step : Grows above before middle) (further : Grows other middle after)
    (place : other = above ∨ before.size ≤ other) : Grows above before after where
  grown := Nat.le_trans step.grown further.grown
  kept := by
    intro id old apart
    have bound := Nat.lt_of_lt_of_le old step.grown
    refine (further.kept id bound ?_).trans (step.kept id old apart)
    rintro rfl
    cases place with
    | inl same => exact apart same
    | inr new => exact absurd new (Nat.not_le_of_lt old)
  bare := by
    intro id old
    have bound := Nat.lt_of_lt_of_le old step.grown
    exact (further.bare id bound).trans (step.bare id old)

theorem grows_attach (tree : Tree) (above : Nat) (child : Node) :
    Grows above tree (tree.attach above child) := by
  have old : ∀ id < tree.size, id ≠ tree.size := fun id inside => Nat.ne_of_lt inside
  refine ⟨?_, ?_, ?_⟩
  · rw [size_attach]
    exact Nat.le_succ _
  · intro id inside other
    rw [node?_attach, if_neg (old id inside), if_neg other]
  · intro id inside
    rw [Tree.bare, Tree.bare, node?_attach, if_neg (old id inside)]
    split
    · rename_i same
      rw [same]
      cases tree.node? above <;> simp
    · rfl

theorem bare_attach_size (tree : Tree) (above : Nat) (child : Node) :
    (tree.attach above child).bare tree.size = child.bare := by
  rw [bare, node?_attach, if_pos rfl]
  rfl

/-- Where and how a tree may be grafted below a node. -/
structure Takes (tree : Tree) (above : NodeId) (child : Rose Node) : Prop where
  inside : above < tree.size
  expression : (tree.bare above).isExpression = true
  lower : (tree.bare above).level < child.value.level
  nested : Nested child

theorem Takes.exists_holder {tree : Tree} {above : Nat} {child : Rose Node}
    (takes : tree.Takes above child) : ∃ holder, tree.node? above = some holder ∧
      holder.isExpression = true ∧ holder.level < child.value.level := by
  obtain ⟨inside, expression, lower, -⟩ := takes
  obtain ⟨holder, found⟩ := exists_node? inside
  rw [bare_of_node? found] at expression lower
  exact ⟨holder, found, holder.bare_isExpression.symm.trans expression, lower⟩

mutual
/-- Grafting makes the nodes the last subtree of `above`, and touches nothing else. -/
theorem graft_spec (nodes : Rose Node) {above : Nat} {tree : Tree} (grown : tree.IsGrown)
    (takes : tree.Takes above nodes) :
    (graft nodes above tree).IsGrown ∧ Grows above tree (graft nodes above tree) ∧
      (graft nodes above tree).children above = tree.children above ++ [tree.size] ∧
      (graft nodes above tree).Holds nodes tree.size := by
  cases nodes with
  | node node trees =>
      obtain ⟨holder, found, expression, lower⟩ := takes.exists_holder
      obtain ⟨inside, -, -, unlinked, nested⟩ := takes
      have fresh := Node.isFresh_of_bare_eq unlinked
      -- What is below the new node comes after it, so the old nodes stay as `attach` leaves them.
      let attached := tree.attach above node
      have attachedGrown : attached.IsGrown := grown.attach found expression lower fresh
      have size : attached.size = tree.size + 1 := size_attach tree above node
      have step : Grows above tree attached := grows_attach tree above node
      have family : ∀ id, attached.children id =
          if id = above then tree.children above ++ [tree.size] else tree.children id :=
        children_attach tree found expression fresh
      have root : attached.bare tree.size = node := (bare_attach_size ..).trans unlinked
      have inRoot : tree.size < attached.size := by omega
      obtain ⟨after, further, ids, listed, late, each⟩ :=
        graftAll_spec trees attachedGrown inRoot (root.symm ▸ nested)
      have apart : above ≠ tree.size := Nat.ne_of_lt inside
      have childless : attached.children tree.size = [] :=
        (family tree.size).trans ((if_neg apart.symm).trans (children_outside (Nat.le_refl _)))
      refine ⟨after, step.trans further (.inr (Nat.le_refl _)), ?_, ?_, ?_, ?_⟩
      · have kept := further.kept above (Nat.lt_trans inside inRoot) apart
        exact (children_of_node? kept).trans ((family above).trans (if_pos rfl))
      · exact Nat.lt_of_lt_of_le inRoot further.grown
      · exact (further.bare tree.size inRoot).trans root
      · rw [graft, listed, childless, List.nil_append]
        exact each
theorem graftAll_spec (trees : List (Rose Node)) {above : Nat} {tree : Tree}
    (grown : tree.IsGrown) (inside : above < tree.size)
    (nested : NestedBelow (tree.bare above) trees) :
    (graftAll trees above tree).IsGrown ∧ Grows above tree (graftAll trees above tree) ∧
      ∃ ids, (graftAll trees above tree).children above = tree.children above ++ ids ∧
        (∀ id ∈ ids, tree.size ≤ id) ∧ (graftAll trees above tree).HoldsEach trees ids := by
  cases trees with
  | nil =>
      refine ⟨grown, ⟨Nat.le_refl _, fun _ _ _ => rfl, fun _ _ => rfl⟩, [], ?_, ?_, rfl⟩
      · exact (List.append_nil _).symm
      · exact fun id member => absurd member List.not_mem_nil
  | cons first rest =>
      obtain ⟨⟨expression, lower⟩, inner, nested⟩ := nested
      obtain ⟨middle, step, listed, held⟩ :=
        graft_spec first grown ⟨inside, expression, lower, inner⟩
      have inside' := Nat.lt_of_lt_of_le inside step.grown
      rw [← step.bare above inside] at nested
      obtain ⟨after, further, ids, listed', late, each⟩ :=
        graftAll_spec rest middle inside' nested
      refine ⟨after, step.trans further (.inl rfl), tree.size :: ids, ?_, ?_, ?_⟩
      · rw [graftAll, listed', listed, List.append_assoc]
        rfl
      · intro id member
        rcases List.mem_cons.mp member with rfl | member
        · exact Nat.le_refl _
        · exact Nat.le_trans step.grown (late id member)
      · refine ⟨tree.size, ids, rfl, ?_, each⟩
        apply held.congr middle.sound further.grown
        intro j later bound
        exact further.kept j bound (by omega)
end

/-- A tree that is grown from nodes holds them, each in its place. -/
theorem ofRose_spec {nodes : Rose Node} (nested : Nested nodes) :
    (ofRose nodes).IsGrown ∧ (ofRose nodes).bareAt 0 = nodes := by
  cases nodes with
  | node root trees =>
      obtain ⟨unlinked, nested⟩ := nested
      have fresh := Node.isFresh_of_bare_eq unlinked
      have start : (singleton root).IsGrown := .singleton fresh
      have here : (singleton root).bare 0 = root := unlinked
      have childless : (singleton root).children 0 = [] := fresh
      obtain ⟨grown, grows, ids, listed, -, each⟩ :=
        graftAll_spec trees start Nat.one_pos (here.symm ▸ nested)
      rw [childless, List.nil_append] at listed
      have held : (ofRose (.node root trees)).Holds (.node root trees) 0 :=
        ⟨Nat.lt_of_lt_of_le Nat.one_pos grows.grown, (grows.bare 0 Nat.one_pos).trans here,
          listed.symm ▸ each⟩
      exact ⟨grown, Holds.bareAt_eq grown.sound _ held⟩

/-- The first tree is the part of the second one below a node, with the node as its root at level
zero. -/
structure IsExcerpt (alone tree : Tree) (id : NodeId) : Prop where
  grown : alone.IsGrown
  nodes : alone.bareAt 0 = (tree.bareAt id).map (Node.lowered (tree.bare id).level)

theorem excerpt_isExcerpt {tree : Tree} (sound : tree.Sound) {id : Nat} (inside : id < tree.size) :
    (tree.excerpt id).IsExcerpt tree id := by
  have nested := nested_lowered (tree.bareAt id) (nested_bareAt sound inside)
    (Nat.le_of_eq (congrArg Node.level (tree.value_bareAt id)).symm)
  obtain ⟨grown, nodes⟩ := ofRose_spec nested
  exact ⟨grown, nodes⟩

theorem map_label (tree : Tree) (id : Nat) :
    (tree.bareAt id).map Node.label = (tree.below id).map tree.label := by
  rw [bareAt, Rose.map_map]
  exact Rose.map_congr _ fun child _ => label_bare tree child

/-- An excerpt has the labels of the nodes that it was made from. -/
theorem IsExcerpt.labels {alone tree : Tree} {id : Nat} (excerpt : alone.IsExcerpt tree id) :
    (alone.below 0).map alone.label = (tree.below id).map tree.label := by
  rw [← map_label, ← map_label, excerpt.nodes, Rose.map_map]
  rfl

end Tree

end NassiChart.Grammar
