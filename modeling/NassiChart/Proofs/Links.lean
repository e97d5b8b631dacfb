import Mathlib.Data.List.Sort
import NassiChart.Proofs.Lineage

/-! # Links between the nodes of an arena

`Links` says that the two kinds of link of an arena agree: every node but the first has a parent
before it, and a child list holds exactly the nodes with that parent, in increasing order.  Then
unfolding the child lists below a node visits its descendants, and visits them in index order as
soon as every node is attached somewhere on the lineage of the node before it.
-/

namespace NassiChart

/-- Parent links and child lists of `size` nodes that tell the same tree with root `0`. -/
structure Links (size : Nat) (parent : Nat → Option Nat) (children : Nat → List Nat) : Prop where
  down : Descends parent
  inside : ∀ id above, parent id = some above → id < size
  rooted : ∀ id, 0 < id → id < size → ∃ above, parent id = some above
  listed : ∀ id, children id = (List.range size).filter (parent · = some id)

/-- Every node is attached to the node before it, or to an ancestor of that. -/
def InDocumentOrder (parent : Nat → Option Nat) : Prop :=
  ∀ id above, parent (id + 1) = some above → above ∈ lineage parent id

namespace Links

variable {size : Nat} {parent : Nat → Option Nat} {children : Nat → List Nat}

theorem mem_children (links : Links size parent children) {id child : Nat} :
    child ∈ children id ↔ parent child = some id := by
  rw [links.listed, List.mem_filter, List.mem_range, decide_eq_true_eq]
  exact ⟨And.right, fun link => ⟨links.inside child id link, link⟩⟩

theorem root_parent (links : Links size parent children) : parent 0 = none := by
  cases link : parent 0 with
  | none => rfl
  | some above => exact absurd (links.down 0 above link) (Nat.not_lt_zero above)

theorem root_mem_lineage (links : Links size parent children) {id : Nat} (inside : id < size) :
    0 ∈ lineage parent id := by
  induction id using Nat.strongRecOn with
  | ind id ih =>
      cases id with
      | zero => exact self_mem_lineage 0
      | succ id =>
          obtain ⟨above, link⟩ := links.rooted (id + 1) (Nat.succ_pos id) inside
          have smaller := links.down _ _ link
          exact (mem_lineage_iff links.down).mpr (.inr ⟨above, link, ih above smaller (by omega)⟩)

/-- No depth from `size` on cuts anything off. -/
theorem unfold_eq_unfold (links : Links size parent children) {id depth other : Nat}
    (inside : id < size) (deep : size ≤ depth + id) (deep' : size ≤ other + id) :
    Rose.unfold children depth id = Rose.unfold children other id := by
  induction depth generalizing id other with
  | zero => omega
  | succ depth ih =>
      obtain ⟨other, rfl⟩ : ∃ n, other = n + 1 := ⟨other - 1, by omega⟩
      rw [Rose.unfold, Rose.unfold]
      refine congrArg (Rose.node id) (List.map_congr_left fun child member => ?_)
      have link := links.mem_children.mp member
      have larger := links.down child id link
      exact ih (links.inside child id link) (by omega) (by omega)

theorem unfold_eq (links : Links size parent children) {id : Nat} (inside : id < size) :
    Rose.unfold children size id =
      .node id ((children id).map fun child => Rose.unfold children size child) := by
  have deep : size ≤ size + id := Nat.le_add_right ..
  have deeper : size ≤ size + 1 + id := by omega
  rw [links.unfold_eq_unfold inside deep deeper, Rose.unfold]

/-- What is put at the nodes below a node, read off at the node and then below its children. -/
theorem map_unfold {α : Type} (links : Links size parent children) {id : Nat} (inside : id < size)
    (f : Nat → α) : (Rose.unfold children size id).map f =
      .node (f id) ((children id).map fun child => (Rose.unfold children size child).map f) := by
  rw [links.unfold_eq inside, Rose.map, Rose.mapAll_eq_map, List.map_map]
  rfl

theorem children_inside (links : Links size parent children) {id child : Nat}
    (member : child ∈ children id) : child < size :=
  links.inside child id (links.mem_children.mp member)

/-- What holds of a node if it holds of its children holds of every node. -/
theorem upwards (links : Links size parent children) {motive : Nat → Prop}
    (step : ∀ id < size, (∀ child ∈ children id, motive child) → motive id) :
    ∀ id < size, motive id := by
  have bounded : ∀ gap id, id < size → size ≤ gap + id → motive id := by
    intro gap
    induction gap with
    | zero => intro id inside late; omega
    | succ gap ih =>
        intro id inside late
        apply step id inside
        intro child member
        have larger := links.down child id (links.mem_children.mp member)
        exact ih child (links.children_inside member) (by omega)
  exact fun id inside => bounded size id inside (Nat.le_add_right ..)

/-- What holds of the root, and of a child if it holds of its parent, holds of every node. -/
theorem downwards (links : Links size parent children) {motive : Nat → Prop} (root : motive 0)
    (step : ∀ id < size, motive id → ∀ child ∈ children id, motive child) :
    ∀ id < size, motive id := by
  intro id
  induction id using Nat.strongRecOn with
  | ind id ih =>
      intro inside
      cases Nat.eq_zero_or_pos id with
      | inl first => exact first ▸ root
      | inr later =>
          obtain ⟨above, link⟩ := links.rooted id later inside
          have smaller := links.down id above link
          have before := Nat.lt_trans smaller inside
          exact step above before (ih above smaller before) id (links.mem_children.mpr link)

/-- The tree below a node holds its descendants. -/
theorem mem_preorder_unfold (links : Links size parent children) {depth id node : Nat}
    (inside : id < size) (deep : size ≤ depth + id) :
    node ∈ (Rose.unfold children depth id).preorder ↔ node < size ∧ id ∈ lineage parent node := by
  induction depth generalizing id with
  | zero => omega
  | succ depth ih =>
      -- A child of `id` has a larger index, so the remaining depth is enough for its tree.
      have below : ∀ child, parent child = some id →
          (node ∈ (Rose.unfold children depth child).preorder ↔
            node < size ∧ child ∈ lineage parent node) := by
        intro child link
        have larger := links.down child id link
        exact ih (links.inside child id link) (by omega)
      simp only [Rose.unfold, Rose.preorder, Rose.preorderAll_eq_flatMap, List.flatMap_map,
        List.mem_cons, List.mem_flatMap, links.mem_children]
      rw [mem_lineage_iff_child links.down]
      constructor
      · rintro (rfl | ⟨child, link, member⟩)
        · exact ⟨inside, .inl rfl⟩
        · obtain ⟨bound, lower⟩ := (below child link).mp member
          exact ⟨bound, .inr ⟨child, link, lower⟩⟩
      · rintro ⟨bound, same | ⟨child, link, lower⟩⟩
        · exact .inl same.symm
        · exact .inr ⟨child, link, (below child link).mpr ⟨bound, lower⟩⟩

theorem preorder_unfold_nodup (links : Links size parent children) {depth id : Nat}
    (inside : id < size) (deep : size ≤ depth + id) :
    (Rose.unfold children depth id).preorder.Nodup := by
  induction depth generalizing id with
  | zero => omega
  | succ depth ih =>
      have enough : ∀ child, parent child = some id → size ≤ depth + child := by
        intro child link
        have larger := links.down child id link
        omega
      have below : ∀ child, parent child = some id → ∀ node,
          node ∈ (Rose.unfold children depth child).preorder → child ∈ lineage parent node :=
        fun child link node member => ((links.mem_preorder_unfold (links.inside child id link)
          (enough child link)).mp member).2
      simp only [Rose.unfold, Rose.preorder, Rose.preorderAll_eq_flatMap, List.flatMap_map,
        List.nodup_cons, List.nodup_flatMap, List.mem_flatMap, links.mem_children]
      refine ⟨?_, ?_, ?_⟩
      · rintro ⟨child, link, member⟩
        have upward := le_of_mem_lineage links.down (below child link id member)
        have larger := links.down child id link
        omega
      · intro child link
        exact ih (links.inside child id link) (enough child link)
      · have distinct : (children id).Nodup := by
          rw [links.listed]
          exact List.nodup_range.filter _
        refine distinct.imp_of_mem ?_
        intro first second firstMember secondMember different node inFirst inSecond
        have link := links.mem_children.mp firstMember
        have link' := links.mem_children.mp secondMember
        exact not_mem_lineage_of_sibling links.down link link' different
          (below first link node inFirst) (below second link' node inSecond)

/-- A walk over the whole tree visits every node once. -/
theorem preorder_unfold_perm (links : Links size parent children) (nonempty : 0 < size) :
    (Rose.unfold children size 0).preorder.Perm (List.range size) := by
  have once := links.preorder_unfold_nodup nonempty (Nat.le_refl size)
  rw [List.perm_ext_iff_of_nodup once List.nodup_range]
  intro node
  rw [links.mem_preorder_unfold nonempty (Nat.le_refl size), List.mem_range]
  exact ⟨And.left, fun inside => ⟨inside, links.root_mem_lineage inside⟩⟩

theorem mem_lineage_between (links : Links size parent children)
    (ordered : InDocumentOrder parent) {top middle : Nat} (above : top ≤ middle) :
    ∀ gap, top ∈ lineage parent (middle + gap) → middle + gap < size →
      top ∈ lineage parent middle := by
  intro gap
  induction gap with
  | zero => intro member _; exact member
  | succ gap ih =>
      intro member inside
      have before : top ∈ lineage parent (middle + gap) := by
        rcases (mem_lineage_iff links.down).mp member with same | ⟨next, link, rest⟩
        · omega
        · exact lineage_trans links.down rest (ordered (middle + gap) next link)
      exact ih before (by omega)

theorem lt_of_earlier_child (links : Links size parent children)
    (ordered : InDocumentOrder parent) {id first second node : Nat}
    (link : parent first = some id) (link' : parent second = some id) (earlier : first < second)
    (member : first ∈ lineage parent node) (inside : node < size) : node < second := by
  by_contra late
  obtain ⟨gap, rfl⟩ : ∃ gap, node = second + gap := ⟨node - second, by omega⟩
  have between := links.mem_lineage_between ordered (Nat.le_of_lt earlier) gap member inside
  rcases (mem_lineage_iff links.down).mp between with same | ⟨next, up, rest⟩
  · omega
  · obtain rfl : id = next := Option.some.inj (link'.symm.trans up)
    have upward := le_of_mem_lineage links.down rest
    have downward := links.down first id link
    omega

theorem preorder_unfold_increasing (links : Links size parent children)
    (ordered : InDocumentOrder parent) {depth id : Nat} (inside : id < size)
    (deep : size ≤ depth + id) : (Rose.unfold children depth id).preorder.Pairwise (· < ·) := by
  induction depth generalizing id with
  | zero => omega
  | succ depth ih =>
      have enough : ∀ child, parent child = some id → size ≤ depth + child := by
        intro child link
        have larger := links.down child id link
        omega
      simp only [Rose.unfold, Rose.preorder, Rose.preorderAll_eq_flatMap, List.flatMap_map,
        List.pairwise_cons, List.pairwise_flatMap, List.mem_flatMap, links.mem_children]
      refine ⟨?_, ?_, ?_⟩
      · rintro node ⟨child, link, member⟩
        have lower := ((links.mem_preorder_unfold (links.inside child id link)
          (enough child link)).mp member).2
        have larger := links.down child id link
        have downward := le_of_mem_lineage links.down lower
        omega
      · intro child link
        exact ih (links.inside child id link) (enough child link)
      · rw [links.listed]
        refine (List.pairwise_lt_range.filter _).imp_of_mem ?_
        intro first second firstMember secondMember earlier x inFirst y inSecond
        have link := of_decide_eq_true (List.mem_filter.mp firstMember).2
        have link' := of_decide_eq_true (List.mem_filter.mp secondMember).2
        obtain ⟨bound, lower⟩ := (links.mem_preorder_unfold (links.inside first id link)
          (enough first link)).mp inFirst
        obtain ⟨-, lower'⟩ := (links.mem_preorder_unfold (links.inside second id link')
          (enough second link')).mp inSecond
        have before := links.lt_of_earlier_child ordered link link' earlier lower bound
        exact Nat.lt_of_lt_of_le before (le_of_mem_lineage links.down lower')

/-- In document order, a walk over the whole tree counts through the nodes. -/
theorem preorder_unfold_eq_range (links : Links size parent children)
    (ordered : InDocumentOrder parent) (nonempty : 0 < size) :
    (Rose.unfold children size 0).preorder = List.range size := by
  have increasing := links.preorder_unfold_increasing ordered nonempty (Nat.le_refl size)
  refine increasing.eq_of_mem_iff List.pairwise_lt_range ?_
  intro node
  rw [links.mem_preorder_unfold nonempty (Nat.le_refl size), List.mem_range]
  exact ⟨And.left, fun inside => ⟨inside, links.root_mem_lineage inside⟩⟩

end Links

end NassiChart
