import Mathlib.Logic.Relation
import NassiChart.Proofs.Excerpt

/-! # Runs of insertions

A node may be inserted at any cursor, in any order, so an arena need not be in document order.  What
holds after every call all the same is `IsArena`; what a call does is decided by the levels of the
root, of the cursor and of the new node.  `Climbs` is the climb of `insert` step by step, with no
bound on the number of steps, so that its end is a fact about the arena and not of the definition.
-/

namespace NassiChart

/-- The lineage of a node holds what its parent links lead to. -/
theorem mem_lineage_iff_reflTransGen {parent : Nat → Option Nat} (down : Descends parent)
    {above id : Nat} : above ∈ lineage parent id ↔
      Relation.ReflTransGen (fun lower upper => parent lower = some upper) id above := by
  constructor
  · intro member
    induction id using Nat.strongRecOn with
    | ind id ih =>
        rcases (mem_lineage_iff down).mp member with rfl | ⟨next, link, rest⟩
        · exact .refl
        · exact .head link (ih next (down id next link) rest)
  · intro path
    induction path using Relation.ReflTransGen.head_induction_on with
    | refl => exact self_mem_lineage above
    | head link _ ih => exact (mem_lineage_iff down).mpr (.inr ⟨_, link, ih⟩)

namespace Grammar.Tree

/-- The climb from a node to a node that is less deep than `level`, along the parents.  It ends with
nothing when the root is too deep as well. -/
inductive Climbs (tree : Tree) (level : Nat) : NodeId → Option NodeId → Prop where
  | stop {id node} (found : tree.node? id = some node) (shallower : node.level < level) :
      Climbs tree level id (some id)
  | up {id node above result} (found : tree.node? id = some node) (deep : level ≤ node.level)
      (link : node.parent = some above) (further : Climbs tree level above result) :
      Climbs tree level id result
  | top {id node} (found : tree.node? id = some node) (deep : level ≤ node.level)
      (link : node.parent = none) : Climbs tree level id none

/-- `above` is the nearest of `id` and its ancestors that is less deep than `level`: every other one
is an ancestor of `above`. -/
structure IsNearest (tree : Tree) (level : Nat) (id above : NodeId) : Prop where
  ancestor : Relation.ReflTransGen (fun lower upper => tree.parent? lower = some upper) id above
  shallower : ∃ node, tree.node? above = some node ∧ node.level < level
  nearest : ∀ other node,
    Relation.ReflTransGen (fun lower upper => tree.parent? lower = some upper) id other →
    tree.node? other = some node → node.level < level →
    Relation.ReflTransGen (fun lower upper => tree.parent? lower = some upper) above other

variable {tree : Tree}

theorem parent?_of_node? {id : Nat} {node : Node} (found : tree.node? id = some node) :
    tree.parent? id = node.parent := by
  rw [parent?, found]
  rfl

theorem receiver?_of_isShallower {level id : Nat} (shallower : tree.isShallower level id = true) :
    tree.receiver? id level = some id := by
  simp only [receiver?, ancestors, lineage, climb]
  exact List.find?_cons_of_pos shallower

theorem receiver?_of_parent? (sound : tree.Sound) {level id above : Nat}
    (deep : tree.isShallower level id = false) (link : tree.parent? id = some above) :
    tree.receiver? id level = tree.receiver? above level := by
  rw [receiver?, ancestors, lineage_of_some sound.down link,
    List.find?_cons_of_neg (by simp [deep])]
  rfl

theorem receiver?_of_root {level id : Nat} (deep : tree.isShallower level id = false)
    (link : tree.parent? id = none) : tree.receiver? id level = none := by
  rw [receiver?, ancestors, lineage_of_none link, List.find?_cons_of_neg (by simp [deep])]
  rfl

/-- The climb ends, and with the receiver. -/
theorem climbs_receiver? (sound : tree.Sound) (level : Nat) {id : Nat} (inside : id < tree.size) :
    tree.Climbs level id (tree.receiver? id level) := by
  induction id using Nat.strongRecOn with
  | ind id ih =>
      obtain ⟨node, found⟩ := exists_node? inside
      have parent := parent?_of_node? found
      have here : tree.isShallower level id = decide (node.level < level) := by
        rw [isShallower, found]
        rfl
      by_cases shallower : node.level < level
      · rw [receiver?_of_isShallower (here.trans (decide_eq_true shallower))]
        exact .stop found shallower
      · have deep := here.trans (decide_eq_false shallower)
        have level_le := Nat.le_of_not_lt shallower
        cases link : node.parent with
        | none =>
            rw [receiver?_of_root deep (parent.trans link)]
            exact .top found level_le link
        | some above =>
            have smaller := sound.down id above (parent.trans link)
            rw [receiver?_of_parent? sound deep (parent.trans link)]
            exact .up found level_le link (ih above smaller (Nat.lt_trans smaller inside))

theorem Climbs.unique {level id : Nat} {result other : Option NodeId}
    (climbs : tree.Climbs level id result) (climbs' : tree.Climbs level id other) :
    result = other := by
  induction climbs with
  | stop found shallower =>
      cases climbs' with
      | stop => rfl
      | up found' deep | top found' deep =>
          obtain rfl := Option.some.inj (found.symm.trans found')
          omega
  | up found deep link _ ih =>
      cases climbs' with
      | stop found' shallower =>
          obtain rfl := Option.some.inj (found.symm.trans found')
          omega
      | up found' _ link' further =>
          obtain rfl := Option.some.inj (found.symm.trans found')
          obtain rfl := Option.some.inj (link.symm.trans link')
          exact ih further
      | top found' _ link' =>
          obtain rfl := Option.some.inj (found.symm.trans found')
          cases link.symm.trans link'
  | top found deep link =>
      cases climbs' with
      | stop found' shallower =>
          obtain rfl := Option.some.inj (found.symm.trans found')
          omega
      | up found' _ link' =>
          obtain rfl := Option.some.inj (found.symm.trans found')
          cases link.symm.trans link'
      | top => rfl

theorem isNearest_of_receiver? (sound : tree.Sound) {level id above : Nat}
    (receiver : tree.receiver? id level = some above) : tree.IsNearest level id above := by
  have down := sound.down
  obtain ⟨member, passes, greatest⟩ := (find?_lineage_eq_some_iff down).mp receiver
  refine ⟨(mem_lineage_iff_reflTransGen down).mp member, isShallower_iff.mp passes, ?_⟩
  intro other node path found shallower
  have member' := (mem_lineage_iff_reflTransGen down).mpr path
  have before := greatest other member' (isShallower_iff.mpr ⟨node, found, shallower⟩)
  exact (mem_lineage_iff_reflTransGen down).mp (mem_lineage_of_le down member' member before)

/-- A climb fails when the root is too deep. -/
theorem receiver?_eq_none_iff (sound : tree.Sound) {level cursor : Nat}
    (inside : cursor < tree.size) :
    tree.receiver? cursor level = none ↔ level ≤ (tree.bare 0).level := by
  obtain ⟨root, found⟩ := exists_node? sound.nonempty
  have rootLevel : (tree.bare 0).level = root.level := by
    rw [bare_of_node? found]
    rfl
  have top : 0 ∈ tree.ancestors cursor := sound.links.root_mem_lineage inside
  rw [rootLevel, receiver?, List.find?_eq_none]
  constructor
  · intro none
    by_contra shallower
    exact none 0 top (isShallower_iff.mpr ⟨root, found, Nat.lt_of_not_le shallower⟩)
  · intro deep above member passes
    obtain ⟨node, there, -⟩ := isShallower_iff.mp passes
    have under : 0 ∈ tree.ancestors above := sound.links.root_mem_lineage (lt_size_of_node? there)
    obtain ⟨root', found', shallower⟩ :=
      isShallower_iff.mp (sound.isShallower_of_mem_ancestors under passes)
    obtain rfl := Option.some.inj (found.symm.trans found')
    omega

/-- Of the nodes on a climb only the first can be a token. -/
theorem eq_of_mem_ancestors (sound : tree.Sound) {cursor above : Nat} {holder : Node}
    (member : above ∈ tree.ancestors cursor) (found : tree.node? above = some holder)
    (terminal : holder.isExpression = false) : above = cursor := by
  rcases (mem_lineage_iff_child sound.down).mp member with same | ⟨child, link, -⟩
  · exact same
  · obtain ⟨node, there⟩ := exists_node? (sound.links.inside child above link)
    obtain ⟨expression, -⟩ := sound.nested child above node holder link there found
    rw [terminal] at expression
    cases expression

theorem insert_eq_error_iff (sound : tree.Sound) {cursor : Nat} (inside : cursor < tree.size)
    (child : Node) (error : InsertError) : tree.insert cursor child = .error error ↔
      error = .aboveRoot child.level ∧ child.level ≤ (tree.bare 0).level := by
  rw [← receiver?_eq_none_iff sound inside, insert]
  cases tree.receiver? cursor child.level with
  | none => simp [eq_comm]
  | some above =>
      simp only [reduceCtorEq, and_false, iff_false]
      split <;> simp

/-- The node at `cursor` is a token, and less deep than `level`. -/
def Drops (tree : Tree) (cursor : NodeId) (level : Nat) : Prop :=
  ∃ node, tree.node? cursor = some node ∧ node.isExpression = false ∧ node.level < level

theorem insert_eq_none_iff (sound : tree.Sound) (cursor : Nat) (child : Node) :
    tree.insert cursor child = .ok none ↔ tree.Drops cursor child.level := by
  constructor
  · intro dropped
    unfold insert at dropped
    cases receiver : tree.receiver? cursor child.level with
    | none => simp [receiver] at dropped
    | some above =>
        obtain ⟨member, passes, -⟩ := (find?_lineage_eq_some_iff sound.down).mp receiver
        obtain ⟨holder, found, shallower⟩ := isShallower_iff.mp passes
        have terminal : holder.isExpression = false := by
          simpa [receiver, found] using dropped
        obtain rfl := eq_of_mem_ancestors sound member found terminal
        exact ⟨holder, found, terminal, shallower⟩
  · rintro ⟨node, found, terminal, shallower⟩
    have receiver := receiver?_of_isShallower (isShallower_iff.mpr ⟨node, found, shallower⟩)
    simp [insert, receiver, found, terminal]

/-- Where a node is attached, and what that changes. -/
structure Attaches (tree : Tree) (cursor : NodeId) (child : Node) (grown : Tree) : Prop where
  size : grown.size = tree.size + 1
  place : ∃ above holder, tree.IsNearest child.level cursor above ∧
    tree.node? above = some holder ∧
    grown.node? tree.size = some { child with parent := some above } ∧
    grown.node? above =
      some { holder with form := .expression (tree.children above ++ [tree.size]) } ∧
    ∀ id < tree.size, id ≠ above → grown.node? id = tree.node? id

theorem addChild_of_isExpression {node : Node} (expression : node.isExpression = true)
    (child : NodeId) :
    node.addChild child = { node with form := .expression (node.children ++ [child]) } := by
  cases form : node.form with
  | expression children => simp [Node.addChild, Node.children, form]
  | terminal => simp [Node.isExpression, form] at expression

theorem attaches_of_insert (sound : tree.Sound) {cursor id : Nat} {child : Node} {grown : Tree}
    (inserted : tree.insert cursor child = .ok (some (id, grown))) :
    id = tree.size ∧ tree.Attaches cursor child grown := by
  unfold insert at inserted
  cases receiver : tree.receiver? cursor child.level with
  | none => simp [receiver] at inserted
  | some above =>
      have nearest := isNearest_of_receiver? sound receiver
      obtain ⟨holder, found, -⟩ := nearest.shallower
      simp only [receiver, found, Option.any_some] at inserted
      split at inserted
      · rename_i expression
        cases inserted
        have inside := lt_size_of_node? found
        have listed : tree.children above = holder.children := by
          rw [children, found]
          rfl
        refine ⟨rfl, size_attach tree above child, above, holder, nearest, found, ?_, ?_, ?_⟩
        · rw [node?_attach, if_pos rfl]
        · rw [node?_attach, if_neg (Nat.ne_of_lt inside), if_pos rfl, found, Option.map_some,
            addChild_of_isExpression expression, listed]
        · intro id old other
          rw [node?_attach, if_neg (Nat.ne_of_lt old), if_neg other]
      · cases inserted

/-- One call of `insert`. -/
structure Insertion where
  cursor : NodeId
  child : Node

/-- The tree after a call.  A node that is refused or dropped leaves it as it is. -/
def after (tree : Tree) (call : Insertion) : Tree :=
  match tree.insert call.cursor call.child with
  | .ok (some (_, grown)) => grown
  | .ok none => tree
  | .error _ => tree

/-- The tree that a run of calls makes from a root. -/
def run (root : Node) (calls : List Insertion) : Tree :=
  calls.foldl after (singleton root)

/-- Every call names a node that is there by then as its cursor, and brings a new node. -/
def Admits : Tree → List Insertion → Prop
  | _, [] => True
  | tree, call :: calls =>
    (call.cursor < tree.size ∧ call.child.IsFresh) ∧ Admits (tree.after call) calls

instance (node : Node) : Decidable node.IsFresh :=
  inferInstanceAs (Decidable (node.children = []))

instance decidableAdmits : (tree : Tree) → (calls : List Insertion) → Decidable (tree.Admits calls)
  | _, [] => inferInstanceAs (Decidable True)
  | tree, call :: calls =>
    have := decidableAdmits (tree.after call) calls
    inferInstanceAs (Decidable ((_ ∧ _) ∧ _))

/-- The links of the arena tell one tree below node `0`, in which every parent is an expression that
comes before its children and is less deep. -/
structure IsArena (tree : Tree) : Prop where
  nonempty : 0 < tree.size
  root : tree.parent? 0 = none
  parents : ∀ id, 0 < id → id < tree.size → ∃ above node holder, tree.parent? id = some above ∧
    above < id ∧ tree.node? id = some node ∧ tree.node? above = some holder ∧
    holder.isExpression = true ∧ holder.level < node.level
  children : ∀ id, tree.children id = (List.range tree.size).filter (tree.parent? · = some id)
  childless : ∀ (id : Nat) node, tree.node? id = some node → node.isExpression = false →
    tree.children id = []
  reached : ∀ id < tree.size,
    Relation.ReflTransGen (fun above child => child ∈ tree.children above) 0 id

theorem Sound.isArena (sound : tree.Sound) : tree.IsArena where
  nonempty := sound.nonempty
  root := sound.links.root_parent
  parents := by
    intro id later inside
    obtain ⟨above, link⟩ := sound.links.rooted id later inside
    have smaller := sound.down id above link
    obtain ⟨node, found⟩ := exists_node? inside
    obtain ⟨holder, found'⟩ := exists_node? (Nat.lt_trans smaller inside)
    obtain ⟨expression, shallower⟩ := sound.nested id above node holder link found found'
    exact ⟨above, node, holder, link, smaller, found, found', expression, shallower⟩
  children := sound.links.listed
  childless := by
    intro id node found terminal
    rw [Tree.children, found]
    cases form : node.form with
    | expression children => simp [Node.isExpression, form] at terminal
    | terminal => simp [Node.children, form]
  reached := sound.links.downwards .refl fun _ _ path _ member => path.tail member

/-- The tree has been grown from this root. -/
structure GrownFrom (root : Node) (tree : Tree) : Prop where
  grown : tree.IsGrown
  root : tree.bare 0 = root.bare

/-- A call keeps what holds of the tree. -/
theorem GrownFrom.after {root : Node} (grownFrom : GrownFrom root tree) {call : Insertion}
    (fresh : call.child.IsFresh) : GrownFrom root (tree.after call) := by
  unfold Tree.after
  split
  · rename_i id grown inserted
    obtain ⟨above, -, -, -, -, rfl⟩ := exists_attach_of_insert inserted
    have nonempty := grownFrom.grown.sound.nonempty
    have kept := (grows_attach tree above call.child).bare 0 nonempty
    exact ⟨grownFrom.grown.insert fresh inserted, kept.trans grownFrom.root⟩
  · exact grownFrom
  · exact grownFrom

theorem GrownFrom.foldl {root : Node} {calls : List Insertion} (grownFrom : GrownFrom root tree)
    (admits : tree.Admits calls) : GrownFrom root (calls.foldl Tree.after tree) := by
  induction calls generalizing tree with
  | nil => exact grownFrom
  | cons call calls ih => exact ih (grownFrom.after admits.1.2) admits.2

/-- What a run makes has been grown from its root. -/
theorem grownFrom_run {root : Node} (fresh : root.IsFresh) {calls : List Insertion}
    (admits : (singleton root).Admits calls) : GrownFrom root (run root calls) :=
  GrownFrom.foldl ⟨.singleton fresh, rfl⟩ admits

theorem run_concat (root : Node) (calls : List Insertion) (call : Insertion) :
    run root (calls ++ [call]) = (run root calls).after call :=
  List.foldl_concat ..

/-- After any run of insertions the arena is in order, and the levels of the root and of the cursor
decide what the next call does: the climb ends; the node is refused if it is not deeper than the
root, dropped if the cursor is a token that is less deep, and otherwise attached to the nearest node
above the cursor that is less deep.  A call that attaches nothing changes nothing. -/
theorem insertion_runs (root : Node) (fresh : root.IsFresh) (calls : List Insertion)
    (admits : (singleton root).Admits calls) :
    (run root calls).IsArena ∧
    ∀ cursor < (run root calls).size, ∀ child : Node, child.IsFresh →
      (∃! result, (run root calls).Climbs child.level cursor result) ∧
      (∀ error, (run root calls).insert cursor child = .error error ↔
        error = .aboveRoot child.level ∧ child.level ≤ root.level) ∧
      ((run root calls).insert cursor child = .ok none ↔
        root.level < child.level ∧ (run root calls).Drops cursor child.level) ∧
      (root.level < child.level → ¬ (run root calls).Drops cursor child.level → ∃ grown,
        (run root calls).insert cursor child = .ok (some ((run root calls).size, grown)) ∧
        (run root calls).Attaches cursor child grown ∧
        run root (calls ++ [⟨cursor, child⟩]) = grown) ∧
      (child.level ≤ root.level ∨ (run root calls).Drops cursor child.level →
        run root (calls ++ [⟨cursor, child⟩]) = run root calls) := by
  obtain ⟨grown, same⟩ := grownFrom_run fresh admits
  have sound := grown.sound
  have rootLevel : ((run root calls).bare 0).level = root.level := by
    rw [same]
    rfl
  simp only [run_concat]
  generalize run root calls = tree at sound rootLevel
  refine ⟨sound.isArena, fun cursor inside child _ => ?_⟩
  have refused := insert_eq_error_iff sound inside child
  have dropped := insert_eq_none_iff sound cursor child
  simp only [rootLevel] at refused
  refine ⟨⟨_, climbs_receiver? sound child.level inside, ?_⟩, refused, ?_, ?_, ?_⟩
  · exact fun other climbs => climbs.unique (climbs_receiver? sound child.level inside)
  · rw [dropped, iff_and_self]
    intro drops
    by_contra deep
    have error := (refused _).mpr ⟨rfl, Nat.le_of_not_lt deep⟩
    rw [dropped.mpr drops] at error
    cases error
  · intro lower takes
    cases answer : tree.insert cursor child with
    | error error => exact absurd ((refused error).mp answer).2 (Nat.not_le_of_lt lower)
    | ok inserted =>
        cases inserted with
        | none => exact absurd (dropped.mp answer) takes
        | some result =>
            obtain ⟨id, grown⟩ := result
            obtain ⟨rfl, attaches⟩ := attaches_of_insert sound answer
            exact ⟨grown, rfl, attaches, by simp only [after, answer]⟩
  · rintro (deep | drops)
    · simp only [after, (refused _).mpr ⟨rfl, deep⟩]
    · simp only [after, dropped.mpr drops]

/-- Cursors that go back and forth, a token as a cursor, and levels that skip steps. -/
def scatteredCalls : List Insertion :=
  [⟨0, .expression 5 "<b>"⟩, ⟨1, .terminal 9 "x"⟩, ⟨2, .terminal 7 "y"⟩, ⟨2, .expression 12 "<c>"⟩,
    ⟨3, .expression 4 "<d>"⟩, ⟨1, .terminal 6 "z"⟩, ⟨4, .terminal 2 "w"⟩]

def scattered : Tree :=
  run (.expression 2 "<a>") scatteredCalls

theorem insertion_runs_scattered : (singleton (.expression 2 "<a>")).Admits scatteredCalls ∧
    scattered.IsArena ∧ scattered.children 1 = [2, 3, 5] ∧
    scattered.insert 5 (.terminal 2 "v") = .error (.aboveRoot 2) ∧
    scattered.insert 5 (.terminal 8 "v") = .ok none ∧
    ∃ grown, scattered.insert 5 (.terminal 5 "v") = .ok (some (6, grown)) ∧
      scattered.Attaches 5 (.terminal 5 "v") grown := by
  have admits : (singleton (.expression 2 "<a>")).Admits scatteredCalls := by decide +kernel
  have there : scattered.node? 5 = some ⟨6, "z", some 1, .terminal⟩ := by decide +kernel
  have drops : scattered.Drops 5 8 := ⟨_, there, rfl, by decide⟩
  have takes : ¬ scattered.Drops 5 5 := by
    rintro ⟨node, found, -, lower⟩
    cases there.symm.trans found
    exact absurd lower (by decide)
  obtain ⟨arena, step⟩ := insertion_runs (.expression 2 "<a>") rfl scatteredCalls admits
  obtain ⟨-, refused, -⟩ := step 5 (lt_size_of_node? there) (.terminal 2 "v") rfl
  obtain ⟨-, -, dropped, -⟩ := step 5 (lt_size_of_node? there) (.terminal 8 "v") rfl
  obtain ⟨-, -, -, attached, -⟩ := step 5 (lt_size_of_node? there) (.terminal 5 "v") rfl
  obtain ⟨grown, inserted, attaches, -⟩ := attached (by decide) takes
  have size : scattered.size = 6 := by decide +kernel
  exact ⟨admits, arena, by decide +kernel, (refused _).mpr ⟨rfl, by decide⟩,
    dropped.mpr ⟨by decide, drops⟩, grown, size ▸ inserted, attaches⟩

end Grammar.Tree

end NassiChart
