import Mathlib.Order.Bounds.Basic
import NassiChart.Export.Reader
import NassiChart.Proofs.Tree
import NassiChart.Proofs.TreeLine

/-! # What the reader knows between two lines

The reader attaches each line relative to a cursor that moves in one way after an expression and
in another after a token.  `Reading` describes the tree and the cursor by the lines that were read
so far, without following any link: the ancestors of the cursor are the lines that are still open,
and the parent of a node is the last line that encloses it.  One step of the reader keeps this,
so a run of it does.
-/

namespace NassiChart.Export

open NassiChart.Grammar

variable {read : List TreeLine} {line : TreeLine}

@[simp] theorem TreeLine.node_level (line : TreeLine) : line.node.level = line.level :=
  Node.classify_level _ _

@[simp] theorem TreeLine.node_text (line : TreeLine) : line.node.text = line.text :=
  Node.classify_text _ _

theorem TreeLine.node_isFresh (line : TreeLine) : line.node.IsFresh :=
  Node.classify_isFresh _ _

/-- Line `holder` names a production, comes before line `id`, and all lines after it up to and
with line `id` are deeper. -/
def Encloses (read : List TreeLine) (holder id : Nat) : Prop :=
  holder < id ∧ ∃ above, read[holder]? = some above ∧ NamesProduction above.text.toList ∧
    ∀ k line, holder < k → k ≤ id → read[k]? = some line → above.level < line.level

/-- Line `holder` names a production, and all lines after it are deeper. -/
def IsOpen (read : List TreeLine) (holder : Nat) : Prop :=
  ∃ above, read[holder]? = some above ∧ NamesProduction above.text.toList ∧
    ∀ k line, holder < k → read[k]? = some line → above.level < line.level

theorem getElem?_concat {α : Type} (xs : List α) (x : α) (k : Nat) :
    (xs ++ [x])[k]? = if k < xs.length then xs[k]? else if k = xs.length then some x else none := by
  rcases Nat.lt_trichotomy k xs.length with less | rfl | more
  · rw [List.getElem?_append_left less, if_pos less]
  · simp
  · rw [List.getElem?_append_right (Nat.le_of_lt more), if_neg (by omega), if_neg (by omega)]
    exact List.getElem?_eq_none (by simp only [List.length_singleton]; omega)

theorem encloses_concat {holder id : Nat} (inside : id < read.length) :
    Encloses (read ++ [line]) holder id ↔ Encloses read holder id := by
  have same : ∀ k, k ≤ id → (read ++ [line])[k]? = read[k]? :=
    fun k before => List.getElem?_append_left (Nat.lt_of_le_of_lt before inside)
  unfold Encloses
  refine and_congr_right fun before => ?_
  rw [same holder (Nat.le_of_lt before)]
  refine exists_congr fun above => and_congr_right fun _ => and_congr_right fun _ => ?_
  refine forall_congr' fun k => forall_congr' fun next => forall_congr' fun _ => ?_
  exact forall_congr' fun upper => by rw [same k upper]

/-- What encloses the last line is what was open before it, and less deep. -/
theorem encloses_last {holder : Nat} :
    Encloses (read ++ [line]) holder read.length ↔
      ∃ above, read[holder]? = some above ∧ above.level < line.level ∧ IsOpen read holder := by
  constructor
  · rintro ⟨before, above, found, expression, deeper⟩
    rw [List.getElem?_append_left before] at found
    refine ⟨above, found, ?_, above, found, expression, ?_⟩
    · exact deeper read.length line before (Nat.le_refl _) (by simp)
    · intro k next later there
      have inside := (List.getElem?_eq_some_iff.mp there).1
      exact deeper k next later (Nat.le_of_lt inside)
        (by rw [List.getElem?_append_left inside]; exact there)
  · rintro ⟨above, found, shallower, above', found', expression, deeper⟩
    obtain rfl : above = above' := Option.some.inj (found.symm.trans found')
    have before := (List.getElem?_eq_some_iff.mp found).1
    refine ⟨before, above, by rw [List.getElem?_append_left before]; exact found, expression, ?_⟩
    intro k next later upper there
    rw [getElem?_concat] at there
    split at there
    · exact deeper k next later there
    · split at there
      · cases there
        exact shallower
      · cases there

theorem isOpen_concat {holder : Nat} :
    IsOpen (read ++ [line]) holder ↔
      (holder = read.length ∧ NamesProduction line.text.toList) ∨
        Encloses (read ++ [line]) holder read.length := by
  constructor
  · rintro ⟨above, found, expression, deeper⟩
    have bound := (List.getElem?_eq_some_iff.mp found).1
    rw [List.length_append, List.length_singleton] at bound
    by_cases last : holder = read.length
    · subst last
      simp only [List.getElem?_concat_length, Option.some.injEq] at found
      exact .inl ⟨rfl, found ▸ expression⟩
    · refine .inr ⟨by omega, above, found, expression, fun k next later _ there => ?_⟩
      exact deeper k next later there
  · rintro (⟨rfl, expression⟩ | ⟨before, above, found, expression, deeper⟩)
    · refine ⟨line, by simp, expression, fun k next later there => ?_⟩
      have bound := (List.getElem?_eq_some_iff.mp there).1
      rw [List.length_append, List.length_singleton] at bound
      omega
    · refine ⟨above, found, expression, fun k next later there => ?_⟩
      have bound := (List.getElem?_eq_some_iff.mp there).1
      rw [List.length_append, List.length_singleton] at bound
      exact deeper k next later (by omega) there

/-- The tree and the cursor after some lines, the first of them a root. -/
structure Reading (read : List TreeLine) (cursor : Nat) (tree : Tree) : Prop where
  sound : tree.Sound
  size : tree.size = read.length
  nodes : ∀ (id : Nat) line, read[id]? = some line → ∃ node, tree.node? id = some node ∧
    node.level = line.level ∧ node.text = line.text ∧
    node.isExpression = line.node.isExpression
  root : ∃ line, read[0]? = some line ∧ line.level = 0
  ordered : InDocumentOrder tree.parent?
  cursor_mem : cursor ∈ tree.ancestors (tree.size - 1)
  opened : ∀ id : Nat, id ∈ tree.ancestors cursor ↔ IsOpen read id
  held : ∀ id : Nat, 0 < id → id < read.length →
    ∃ above, tree.parent? id = some above ∧ IsGreatest {holder | Encloses read holder id} above

theorem Reading.start (level : line.level = 0) (expression : line.node.isExpression = true) :
    Reading [line] 0 (Tree.singleton line.node) where
  sound := Tree.singleton_sound line.node_isFresh
  size := rfl
  nodes := by
    intro id next found
    cases id with
    | zero =>
        simp only [List.getElem?_cons_zero, Option.some.injEq] at found
        subst found
        exact ⟨{ line.node with parent := none }, rfl, line.node_level, line.node_text, rfl⟩
    | succ id => simp at found
  root := ⟨line, rfl, level⟩
  ordered := by
    intro id above link
    simp [Tree.singleton, Tree.parent?, Tree.node?] at link
  cursor_mem := self_mem_lineage 0
  opened := by
    have names : NamesProduction line.text.toList := TreeLine.node_isExpression_iff.mp expression
    intro id
    have alone : (Tree.singleton line.node).ancestors 0 = [0] := lineage_of_none rfl
    rw [alone, List.mem_singleton]
    constructor
    · rintro rfl
      refine ⟨line, rfl, names, fun k next later there => ?_⟩
      have bound := (List.getElem?_eq_some_iff.mp there).1
      simp only [List.length_singleton] at bound
      omega
    · rintro ⟨above, found, -, -⟩
      have bound := (List.getElem?_eq_some_iff.mp found).1
      simp only [List.length_singleton] at bound
      omega
  held := by
    intro id later bound
    simp only [List.length_singleton] at bound
    omega

theorem Reading.exists_receiver {cursor : Nat} {tree : Tree} (reading : Reading read cursor tree)
    (deep : 0 < line.level) : ∃ above holder, tree.receiver? cursor line.level = some above ∧
      tree.node? above = some holder ∧ holder.isExpression = true ∧
      holder.level < line.level := by
  obtain ⟨first, found, level⟩ := reading.root
  have inside : 0 < read.length := (List.getElem?_eq_some_iff.mp found).1
  obtain ⟨root, there, same, -⟩ := reading.nodes 0 first found
  have cursorInside : cursor < tree.size := by
    have := le_of_mem_lineage reading.sound.down reading.cursor_mem
    have := reading.sound.nonempty
    omega
  have member : 0 ∈ tree.ancestors cursor := reading.sound.links.root_mem_lineage cursorInside
  have shallower : tree.isShallower line.level 0 = true :=
    Tree.isShallower_iff.mpr ⟨root, there, by omega⟩
  obtain ⟨above, receiver⟩ : ∃ above, tree.receiver? cursor line.level = some above :=
    Option.isSome_iff_exists.mp (List.find?_isSome.mpr ⟨0, member, shallower⟩)
  obtain ⟨lineage, passes, -⟩ := (find?_lineage_eq_some_iff reading.sound.down).mp receiver
  obtain ⟨upper, found', names, -⟩ := (reading.opened above).mp lineage
  obtain ⟨holder, there', -, -, form⟩ := reading.nodes above upper found'
  obtain ⟨holder', there'', lower⟩ := Tree.isShallower_iff.mp passes
  obtain rfl : holder = holder' := Option.some.inj (there'.symm.trans there'')
  have expression := form.trans (TreeLine.node_isExpression_iff.mpr names)
  exact ⟨above, holder, receiver, there', expression, lower⟩

theorem Reading.isShallower_iff {cursor : Nat} {tree : Tree} (reading : Reading read cursor tree)
    {level id : Nat} : tree.isShallower level id = true ↔
      ∃ above, read[id]? = some above ∧ above.level < level := by
  rw [Tree.isShallower_iff]
  constructor
  · rintro ⟨node, found, lower⟩
    have inside : id < read.length := reading.size ▸ Tree.lt_size_of_node? found
    obtain ⟨node', found', same, -⟩ := reading.nodes id _ (List.getElem?_eq_getElem inside)
    obtain rfl : node = node' := Option.some.inj (found.symm.trans found')
    exact ⟨_, List.getElem?_eq_getElem inside, same ▸ lower⟩
  · rintro ⟨above, found, lower⟩
    obtain ⟨node, there, same, -⟩ := reading.nodes id above found
    exact ⟨node, there, same ▸ lower⟩

theorem Reading.encloses_iff {cursor : Nat} {tree : Tree} (reading : Reading read cursor tree)
    {id : Nat} : Encloses (read ++ [line]) id read.length ↔
      id ∈ tree.ancestors cursor ∧ tree.isShallower line.level id = true := by
  rw [encloses_last, reading.isShallower_iff, reading.opened]
  constructor
  · rintro ⟨above, found, lower, isOpen⟩
    exact ⟨isOpen, above, found, lower⟩
  · rintro ⟨isOpen, above, found, lower⟩
    exact ⟨above, found, lower, isOpen⟩

/-- The receiver of a line is the last line that encloses it. -/
theorem Reading.receiver_isGreatest {cursor above : Nat} {tree : Tree}
    (reading : Reading read cursor tree)
    (receiver : tree.receiver? cursor line.level = some above) :
    IsGreatest {holder | Encloses (read ++ [line]) holder read.length} above := by
  obtain ⟨member, passes, greatest⟩ := (find?_lineage_eq_some_iff reading.sound.down).mp receiver
  refine ⟨reading.encloses_iff.mpr ⟨member, passes⟩, fun holder encloses => ?_⟩
  obtain ⟨member', passes'⟩ := reading.encloses_iff.mp encloses
  exact greatest holder member' passes'

theorem Reading.encloses_iff_mem_ancestors {cursor above : Nat} {tree : Tree}
    (reading : Reading read cursor tree)
    (receiver : tree.receiver? cursor line.level = some above) {id : Nat} :
    Encloses (read ++ [line]) id read.length ↔ id ∈ tree.ancestors above := by
  have down := reading.sound.down
  obtain ⟨encloses, greatest⟩ := reading.receiver_isGreatest receiver
  obtain ⟨member, passes⟩ := reading.encloses_iff.mp encloses
  constructor
  · intro other
    exact mem_lineage_of_le down (reading.encloses_iff.mp other).1 member (greatest other)
  · intro upper
    exact reading.encloses_iff.mpr ⟨lineage_trans down upper member,
      reading.sound.isShallower_of_mem_ancestors upper passes⟩

theorem Reading.ancestors_attach {cursor above : Nat} {tree : Tree} {child : Node}
    (reading : Reading read cursor tree) (grown : (tree.attach above child).Sound) {id : Nat}
    (inside : id < tree.size) : (tree.attach above child).ancestors id = tree.ancestors id := by
  refine lineage_congr reading.sound.down grown.down fun j upper => ?_
  rw [Tree.parent?_attach, if_neg (by omega)]

section Attach

variable {cursor above : Nat} {tree : Tree} (reading : Reading read cursor tree)
  (receiver : tree.receiver? cursor line.level = some above)

include reading

theorem Reading.nodes_attach {id : Nat} {next : TreeLine}
    (there : (read ++ [line])[id]? = some next) :
    ∃ node, (tree.attach above line.node).node? id = some node ∧ node.level = next.level ∧
      node.text = next.text ∧ node.isExpression = next.node.isExpression := by
  rw [getElem?_concat, ← reading.size] at there
  rw [Tree.node?_attach]
  by_cases new : id = tree.size
  · rw [if_neg (by omega), if_pos new, Option.some.injEq] at there
    subst there
    exact ⟨_, if_pos new, line.node_level, line.node_text, rfl⟩
  · rw [if_neg new] at there ⊢
    have inside : id < tree.size := by
      by_contra outside
      rw [if_neg outside] at there
      cases there
    rw [if_pos inside] at there
    obtain ⟨node, found, same⟩ := reading.nodes id next there
    split
    · rename_i holder
      subst holder
      exact ⟨_, by rw [found, Option.map_some], by simpa using same⟩
    · exact ⟨node, found, same⟩

include receiver

theorem Reading.ordered_attach (grown : (tree.attach above line.node).Sound) :
    InDocumentOrder (tree.attach above line.node).parent? := by
  intro id top link
  rw [Tree.parent?_attach] at link
  have bound : id < tree.size := by
    split at link
    · omega
    · have := reading.sound.links.inside (id + 1) top link
      omega
  change top ∈ (tree.attach above line.node).ancestors id
  rw [reading.ancestors_attach grown bound]
  split at link
  · rename_i last
    cases link
    obtain rfl : id = tree.size - 1 := by omega
    have member := (reading.encloses_iff.mp (reading.receiver_isGreatest receiver).1).1
    exact lineage_trans reading.sound.down member reading.cursor_mem
  · exact reading.ordered id top link

theorem Reading.held_attach {id : Nat} (later : 0 < id) (bound : id < (read ++ [line]).length) :
    ∃ top, (tree.attach above line.node).parent? id = some top ∧
      IsGreatest {holder | Encloses (read ++ [line]) holder id} top := by
  rw [List.length_append, List.length_singleton] at bound
  rw [Tree.parent?_attach]
  by_cases new : id = tree.size
  · rw [if_pos new, new, reading.size]
    exact ⟨above, rfl, reading.receiver_isGreatest receiver⟩
  · have inside : id < read.length := by have := reading.size; omega
    rw [if_neg new]
    obtain ⟨top, link, greatest⟩ := reading.held id later inside
    refine ⟨top, link, ?_⟩
    simpa only [encloses_concat inside] using greatest

end Attach

/-- A line with a level marker is attached, and the reader goes on from a state that accounts for
it too. -/
theorem Reading.step {cursor : Nat} {tree : Tree} (reading : Reading read cursor tree)
    (line : TreeLine) (deep : 0 < line.level) : ∃ id grown,
      tree.insert cursor line.node = .ok (some (id, grown)) ∧
        Reading (read ++ [line]) (nextCursor grown id) grown := by
  obtain ⟨above, holder, receiver, found, expression, lower⟩ := reading.exists_receiver deep
  refine ⟨tree.size, tree.attach above line.node, ?_, ?_⟩
  · simp [Tree.insert, receiver, found, expression]
  have sound := reading.sound.attach found expression (line.node_level ▸ lower) line.node_isFresh
  have upper : above < tree.size := Tree.lt_size_of_node? found
  have attached : (tree.attach above line.node).parent? tree.size = some above := by
    rw [Tree.parent?_attach, if_pos rfl]
  have lineage : (tree.attach above line.node).ancestors tree.size =
      tree.size :: tree.ancestors above := by
    have old := reading.ancestors_attach sound upper
    exact (lineage_of_some sound.down attached).trans (congrArg (tree.size :: ·) old)
  -- The cursor moves to the new node or stays at its holder.
  have cursorAt : nextCursor (tree.attach above line.node) tree.size =
      if line.node.isExpression then tree.size else above := by
    rw [nextCursor, attached, Tree.node?_attach, if_pos rfl]
    rfl
  exact {
    sound := sound
    size := by rw [Tree.size_attach, List.length_append, List.length_singleton, reading.size]
    nodes := fun _ _ there => reading.nodes_attach there
    root := by
      obtain ⟨first, there, zero⟩ := reading.root
      refine ⟨first, ?_, zero⟩
      rw [List.getElem?_append_left (List.getElem?_eq_some_iff.mp there).1]
      exact there
    ordered := reading.ordered_attach receiver sound
    cursor_mem := by
      rw [Tree.size_attach, Nat.add_sub_cancel, lineage, cursorAt]
      split
      · exact List.mem_cons_self
      · exact List.mem_cons_of_mem _ (self_mem_lineage above)
    opened := by
      intro id
      rw [isOpen_concat, reading.encloses_iff_mem_ancestors receiver, cursorAt,
        ← TreeLine.node_isExpression_iff]
      split
      · rename_i form
        rw [lineage, List.mem_cons, reading.size]
        simp [form]
      · rename_i form
        rw [reading.ancestors_attach sound upper]
        simp [form]
    held := fun _ later bound => reading.held_attach receiver later bound }

end NassiChart.Export
