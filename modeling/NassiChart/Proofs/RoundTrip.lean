import NassiChart.Proofs.Arena
import NassiChart.Proofs.Insertion
import NassiChart.Proofs.PrintedLines
import NassiChart.Proofs.TreeOfLines
import NassiChart.Proofs.Verdict

/-! # Printing a tree and reading it back

What the reader makes of a tree section depends on the levels and texts of its lines alone, so it
can be followed on these (`treeOfEntries`).  Fed with a tree in pre-order it grows that tree: after
a whole subtree, however deep it ended, every node that may come next finds the same receiver from
the cursor as from the parent of the subtree (`LeadsTo`).
-/

namespace NassiChart.Rose

variable {α : Type}

mutual
/-- Every value with its depth, counted from `depth` at the root. -/
def leveled (depth : Nat) : Rose α → Rose (Nat × α)
  | node a trees => node (depth, a) (leveledAll (depth + 1) trees)
def leveledAll (depth : Nat) : List (Rose α) → List (Rose (Nat × α))
  | [] => []
  | tree :: trees => leveled depth tree :: leveledAll depth trees
end

mutual
theorem map_snd_leveled (depth : Nat) (tree : Rose α) :
    (tree.leveled depth).preorder.map Prod.snd = tree.preorder := by
  cases tree with
  | node a trees => rw [leveled, preorder, preorder, List.map_cons, map_snd_leveledAll]
theorem map_snd_leveledAll (depth : Nat) (trees : List (Rose α)) :
    (preorderAll (leveledAll depth trees)).map Prod.snd = preorderAll trees := by
  cases trees with
  | nil => rfl
  | cons tree trees =>
      rw [leveledAll, preorderAll, preorderAll, List.map_append, map_snd_leveled,
        map_snd_leveledAll]
end

end NassiChart.Rose

namespace NassiChart.Grammar

/-- The node that a level and a text stand for. -/
def Node.ofEntry (entry : Nat × String) : Node :=
  Node.classify entry.1 entry.2

/-- The level and the text of every node, in the order of the arena. -/
def Tree.entries (tree : Tree) : List (Nat × String) :=
  tree.nodes.toList.map fun node => (node.level, node.text)

theorem Node.ofEntry_isFresh (entry : Nat × String) : (Node.ofEntry entry).IsFresh :=
  Node.classify_isFresh entry.1 entry.2

theorem Node.bare_ofEntry (entry : Nat × String) :
    (Node.ofEntry entry).bare = Node.ofEntry entry := by
  unfold Node.ofEntry Node.classify
  split <;> rfl

end NassiChart.Grammar

namespace NassiChart.Export

open NassiChart.Grammar NassiChart.Text

/-- One turn of the reader on the level and the text of a line. -/
def takeEntry (state : NodeId × Tree) (entry : Nat × String) : Option (NodeId × Tree) :=
  match state.2.insert state.1 (Node.ofEntry entry) with
  | .error _ => none
  | .ok none => some state
  | .ok (some (id, grown)) => some (nextCursor grown id, grown)

/-- The tree that is read from lines with these levels and texts. -/
def treeOfEntries : List (Nat × String) → Option Tree
  | [] => none
  | root :: entries =>
    if root.1 = 0 ∧ (Node.ofEntry root).isExpression = true then
      (entries.foldlM takeEntry (0, Tree.singleton (Node.ofEntry root))).map Prod.snd
    else none

theorem toOption_readOne {line : Line} {entry : Nat × String}
    (reads : line.Reads entry.1 entry.2.toList) (root : Span) (state : NodeId × Tree) :
    (readOne root state line).toOption = takeEntry state entry := by
  have found := reads.ofLine?
  rw [String.ofList_toList] at found
  simp only [readOne, readLine, found, takeEntry]
  change _ = match state.2.insert state.1 (TreeLine.node ⟨entry.1, entry.2, line.span⟩) with
    | .error _ => none
    | .ok none => some state
    | .ok (some (id, grown)) => some (nextCursor grown id, grown)
  cases state.2.insert state.1 (TreeLine.node ⟨entry.1, entry.2, line.span⟩) with
  | error refusal => rfl
  | ok inserted => cases inserted <;> rfl

theorem toOption_foldlM_readOne {lines : List Line} {entries : List (Nat × String)}
    (reads : List.Forall₂ (fun line entry => line.Reads entry.1 entry.2.toList) lines entries)
    (root : Span) (state : NodeId × Tree) :
    (lines.foldlM (readOne root) state).toOption = entries.foldlM takeEntry state := by
  induction reads generalizing state with
  | nil => rfl
  | cons here _ ih =>
      have turn := toOption_readOne here root state
      rw [List.foldlM_cons, List.foldlM_cons, ← turn]
      cases readOne root state _ with
      | error fault => rfl
      | ok next => exact ih next

/-- The tree of a tree section depends on the levels and texts of its lines alone. -/
theorem toOption_readTree {lines : List Line} {entries : List (Nat × String)}
    (reads : List.Forall₂ (fun line entry => line.Reads entry.1 entry.2.toList) lines entries) :
    (readTree lines).toOption = treeOfEntries entries := by
  cases reads with
  | nil => rfl
  | @cons line entry lines entries here later =>
      have found := here.ofLine?
      rw [String.ofList_toList] at found
      rw [readTree, readLine, found, treeOfEntries]
      change Except.toOption (if entry.1 ≠ 0 then _ else if (Node.ofEntry entry).isExpression = true
        then _ else _) = _
      by_cases top : entry.1 = 0
      · rw [if_neg (not_not_intro top)]
        by_cases expression : (Node.ofEntry entry).isExpression = true
        · rw [if_pos expression, if_pos ⟨top, expression⟩, readNodes_eq_foldlM,
            ← toOption_foldlM_readOne later line.span]
          change Except.toOption (Except.map Prod.snd (lines.foldlM (readOne line.span)
            (0, Tree.singleton (Node.ofEntry entry)))) = _
          cases lines.foldlM (readOne line.span) (0, Tree.singleton (Node.ofEntry entry)) <;> rfl
        · rw [if_neg expression, if_neg fun both => expression both.2]
          rfl
      · rw [if_pos top, if_neg fun both => top both.1]
        rfl

theorem parse_eq_ok_iff {source : String} {tree : Tree} : parse source = .ok tree ↔
    (readTree (treeSection (sourceLines source))).toOption = some tree := by
  rw [parse, reported]
  cases readTree (treeSection (sourceLines source)) <;>
    simp [Except.mapError, Except.toOption]

/-- A printed text is read as the tree of the levels and texts that were printed. -/
theorem parse_printed_iff (layout : Layout) {entries : List (Nat × String)}
    (plain : ∀ entry ∈ entries, IsPlain entry.2) {tree : Tree} :
    parse (layout.printed entries) = .ok tree ↔ treeOfEntries entries = some tree := by
  rw [parse_eq_ok_iff, toOption_readTree (layout.reads_printed plain)]

/-- Nodes that are no deeper than `depth` find the same receiver from `cursor` as from `above`. -/
def LeadsTo (tree : Tree) (cursor above : NodeId) (depth : Nat) : Prop :=
  ∀ level ≤ depth, tree.receiver? cursor level = tree.receiver? above level

/-- What leads to a node leads on to its parent. -/
theorem LeadsTo.up {tree : Tree} (sound : tree.Sound) {cursor id above depth : Nat}
    (leads : LeadsTo tree cursor id (depth + 1)) (link : tree.parent? id = some above)
    (level : (tree.bare id).level = depth) : LeadsTo tree cursor above depth := by
  intro other bound
  have deep : tree.isShallower other id = false := by
    rw [Tree.isShallower]
    cases found : tree.node? id with
    | none => rfl
    | some node =>
        rw [Tree.bare_of_node? found] at level
        exact decide_eq_false (Nat.not_lt_of_le (level ▸ bound))
  rw [leads other (Nat.le_succ_of_le bound), Tree.receiver?_of_parent? sound deep link]

/-- The nodes of a tree of labels whose root is at `depth`. -/
def nodesOf (depth : Nat) (labels : Rose String) : Rose Node :=
  (labels.leveled depth).map Node.ofEntry

def nodesOfAll (depth : Nat) (labels : List (Rose String)) : List (Rose Node) :=
  Rose.mapAll Node.ofEntry (Rose.leveledAll depth labels)

theorem nodesOf_isFresh (depth : Nat) (labels : Rose String) :
    ∀ node ∈ (nodesOf depth labels).preorder, node.IsFresh := by
  rw [nodesOf, Rose.preorder_map, List.forall_mem_map]
  exact fun entry _ => Node.ofEntry_isFresh entry

section Attach

variable {tree : Tree} {cursor above depth : Nat} {text : String} {trees : List (Rose String)}
  (takes : tree.Takes above (nodesOf depth (.node text trees)))

include takes

theorem attach_isGrown (grown : tree.IsGrown) :
    (tree.attach above (Node.ofEntry (depth, text))).IsGrown := by
  obtain ⟨holder, found, expression, lower⟩ := takes.exists_holder
  exact grown.attach found expression lower (Node.ofEntry_isFresh _)

/-- The reader attaches the node to `above`, and moves on to it if it is a production. -/
theorem takeEntry_of_leadsTo (leads : LeadsTo tree cursor above depth) :
    takeEntry (cursor, tree) (depth, text) =
      some (if (Node.ofEntry (depth, text)).isExpression then tree.size else above,
        tree.attach above (Node.ofEntry (depth, text))) := by
  obtain ⟨holder, found, expression, lower⟩ := takes.exists_holder
  have level : (Node.ofEntry (depth, text)).level = depth := Node.classify_level depth text
  have receiver : tree.receiver? cursor (Node.ofEntry (depth, text)).level = some above := by
    rw [level, leads depth (Nat.le_refl depth)]
    exact Tree.receiver?_of_isShallower
      (Tree.isShallower_iff.mpr ⟨holder, found, level ▸ lower⟩)
  have inserted : tree.insert cursor (Node.ofEntry (depth, text)) =
      .ok (some (tree.size, tree.attach above (Node.ofEntry (depth, text)))) := by
    simp [Tree.insert, receiver, found, expression]
  have cursorAt : nextCursor (tree.attach above (Node.ofEntry (depth, text))) tree.size =
      if (Node.ofEntry (depth, text)).isExpression then tree.size else above := by
    rw [nextCursor, Tree.parent?_attach, Tree.node?_attach, if_pos rfl, if_pos rfl]
    rfl
  rw [takeEntry, inserted, ← cursorAt]

/-- The place after everything below a new production leads to its parent. -/
theorem leadsTo_of_graft (grown : tree.IsGrown)
    (inner : LeadsTo (Tree.graft (nodesOf depth (.node text trees)) above tree) cursor tree.size
      (depth + 1)) :
    LeadsTo (Tree.graft (nodesOf depth (.node text trees)) above tree) cursor above depth := by
  obtain ⟨after, -, listed, held⟩ := Tree.graft_spec _ grown takes
  refine inner.up after.sound ?_ ((congrArg Node.level held.2.1).trans
    (Node.classify_level depth text))
  rw [← after.sound.links.mem_children, listed]
  exact List.mem_append_right _ List.mem_cons_self

end Attach

mutual
/-- The reader takes the nodes of a subtree in and comes back to where the subtree started. -/
theorem foldlM_leveled (labels : Rose String) {depth cursor above : Nat} {tree : Tree}
    (grown : tree.IsGrown) (takes : tree.Takes above (nodesOf depth labels))
    (leads : LeadsTo tree cursor above depth) : ∃ cursor',
      (labels.leveled depth).preorder.foldlM takeEntry (cursor, tree) =
        some (cursor', Tree.graft (nodesOf depth labels) above tree) ∧
      LeadsTo (Tree.graft (nodesOf depth labels) above tree) cursor' above depth := by
  cases labels with
  | node text trees =>
      let node := Node.ofEntry (depth, text)
      let attached := tree.attach above node
      have turn : takeEntry (cursor, tree) (depth, text) =
          some (if node.isExpression then tree.size else above, attached) :=
        takeEntry_of_leadsTo takes leads
      rw [Rose.leveled, Rose.preorder, List.foldlM_cons, turn]
      by_cases production : node.isExpression = true
      · rw [if_pos production]
        have last : tree.size < attached.size :=
          Nat.lt_of_lt_of_eq (Nat.lt_succ_self _) (Tree.size_attach ..).symm
        have nested : NestedBelow (attached.bare tree.size) (nodesOfAll (depth + 1) trees) := by
          rw [Tree.bare_attach_size, Node.bare_ofEntry]
          exact takes.nested.2
        have start : LeadsTo attached tree.size tree.size (depth + 1) := fun _ _ => rfl
        obtain ⟨cursor', ran, inner⟩ :=
          foldlM_leveledAll trees (attach_isGrown takes grown) last nested start
        exact ⟨cursor', ran, leadsTo_of_graft takes grown inner⟩
      · -- Nothing is nested below a token, and the cursor stays.
        rw [if_neg production]
        cases trees with
        | nil => exact ⟨above, rfl, fun _ _ => rfl⟩
        | cons first rest => exact absurd takes.nested.2.1.1 production
theorem foldlM_leveledAll (labels : List (Rose String)) {depth cursor above : Nat} {tree : Tree}
    (grown : tree.IsGrown) (inside : above < tree.size)
    (nested : NestedBelow (tree.bare above) (nodesOfAll depth labels))
    (leads : LeadsTo tree cursor above depth) : ∃ cursor',
      (Rose.preorderAll (Rose.leveledAll depth labels)).foldlM takeEntry (cursor, tree) =
        some (cursor', Tree.graftAll (nodesOfAll depth labels) above tree) ∧
      LeadsTo (Tree.graftAll (nodesOfAll depth labels) above tree) cursor' above depth := by
  cases labels with
  | nil => exact ⟨cursor, rfl, leads⟩
  | cons first rest =>
      obtain ⟨⟨expression, lower⟩, here, later⟩ := nested
      have takes : tree.Takes above (nodesOf depth first) := ⟨inside, expression, lower, here⟩
      obtain ⟨middle, step, -⟩ := Tree.graft_spec _ grown takes
      obtain ⟨next, ran, leads⟩ := foldlM_leveled first grown takes leads
      obtain ⟨cursor', ran', leads'⟩ := foldlM_leveledAll rest middle
        (Nat.lt_of_lt_of_le inside step.grown) (step.bare above inside ▸ later) leads
      refine ⟨cursor', ?_, leads'⟩
      rw [Rose.leveledAll, Rose.preorderAll, List.foldlM_append, ran]
      exact ran'
end

mutual
/-- Labels with something below them name productions. -/
def InnerNames : Rose String → Prop
  | .node text trees => (trees ≠ [] → NamesProduction text.toList) ∧ InnerNamesAll trees
def InnerNamesAll : List (Rose String) → Prop
  | [] => True
  | tree :: trees => InnerNames tree ∧ InnerNamesAll trees
end

structure IsPrintable (labels : Rose String) : Prop where
  plain : ∀ text ∈ labels.preorder, IsPlain text
  root : NamesProduction labels.value.toList
  inner : InnerNames labels

theorem isExpression_ofEntry_iff {entry : Nat × String} :
    (Node.ofEntry entry).isExpression = true ↔ NamesProduction entry.2.toList := by
  rw [Node.ofEntry, Node.classify_isExpression, namesProduction_iff]

mutual
theorem nested_nodesOf (labels : Rose String) (depth : Nat) (inner : InnerNames labels) :
    Nested (nodesOf depth labels) := by
  cases labels with
  | node text trees =>
      refine ⟨Node.bare_ofEntry _, nestedBelow_nodesOf trees depth text inner.2 ?_⟩
      exact fun filled => isExpression_ofEntry_iff.mpr (inner.1 filled)
theorem nestedBelow_nodesOf (labels : List (Rose String)) (depth : Nat) (text : String)
    (inner : InnerNamesAll labels)
    (production : labels ≠ [] → (Node.ofEntry (depth, text)).isExpression = true) :
    NestedBelow (Node.ofEntry (depth, text)) (nodesOfAll (depth + 1) labels) := by
  cases labels with
  | nil => trivial
  | cons first rest =>
      have expression := production (List.cons_ne_nil _ _)
      refine ⟨⟨expression, ?_⟩, nested_nodesOf first (depth + 1) inner.1,
        nestedBelow_nodesOf rest depth text inner.2 fun _ => expression⟩
      cases first
      change (Node.classify depth text).level < (Node.classify (depth + 1) _).level
      rw [Node.classify_level, Node.classify_level]
      exact Nat.lt_succ_self depth
end

/-- From the levels and texts of a tree in pre-order, the reader grows that tree. -/
theorem treeOfEntries_leveled {labels : Rose String} (printable : IsPrintable labels) :
    treeOfEntries (labels.leveled 0).preorder = some (Tree.arena (nodesOf 0 labels)) := by
  rw [← Tree.ofRose_eq_arena _ (nodesOf_isFresh 0 labels)]
  obtain ⟨-, root, inner⟩ := printable
  have nested := nested_nodesOf labels 0 inner
  cases labels with
  | node text trees =>
      have production : (Node.ofEntry (0, text)).isExpression = true :=
        isExpression_ofEntry_iff.mpr root
      have here : (Tree.singleton (Node.ofEntry (0, text))).bare 0 = Node.ofEntry (0, text) :=
        Node.bare_ofEntry _
      obtain ⟨cursor, ran, -⟩ := foldlM_leveledAll trees (.singleton (Node.ofEntry_isFresh _))
        Nat.one_pos (here.symm ▸ nested.2) (fun _ _ => rfl)
      rw [Rose.leveled, Rose.preorder, treeOfEntries, if_pos ⟨rfl, production⟩, ran]
      rfl

theorem exists_reading_of_parse {source : String} {tree : Tree}
    (parsed : parse source = .ok tree) : ∃ treeLines cursor,
      List.Forall₂ (fun line treeLine => TreeLine.ofLine? line = some treeLine)
        (treeSection (sourceLines source)) treeLines ∧ Reading treeLines cursor tree := by
  obtain ⟨root, rest, cut, isRoot, nested, ran⟩ := exists_of_parse parsed
  obtain ⟨treeLines, cursor, tree', ran', each, reading⟩ := readTree_of_isRoot isRoot nested
  obtain rfl : tree = tree' := Except.ok.inj (ran.symm.trans ran')
  exact ⟨treeLines, cursor, cut ▸ each, reading⟩

/-- The nodes have the levels and texts of the lines that were read. -/
theorem Reading.entries_eq {treeLines : List TreeLine} {cursor : Nat} {tree : Tree}
    (reading : Reading treeLines cursor tree) :
    tree.entries = treeLines.map fun line => (line.level, line.text) := by
  apply List.ext_getElem?
  intro id
  rw [Tree.entries, List.getElem?_map, List.getElem?_map]
  cases found : treeLines[id]? with
  | none =>
      have outside : tree.size ≤ id := reading.size ▸ List.getElem?_eq_none_iff.mp found
      have absent : tree.nodes.toList[id]? = none := List.getElem?_eq_none outside
      rw [absent]
      rfl
  | some line =>
      obtain ⟨node, there, level, text, -⟩ := reading.nodes id line found
      have there : tree.nodes.toList[id]? = some node := by
        rw [Array.getElem?_toList]
        exact there
      rw [there, Option.map_some, Option.map_some, level, text]

/-- A tree that was read has plain texts, and is read from its own levels and texts. -/
theorem entries_of_parse {source : String} {tree : Tree} (parsed : parse source = .ok tree) :
    (∀ entry ∈ tree.entries, IsPlain entry.2) ∧ treeOfEntries tree.entries = some tree := by
  obtain ⟨treeLines, cursor, each, reading⟩ := exists_reading_of_parse parsed
  have reads : List.Forall₂ (fun line entry => line.Reads entry.1 entry.2.toList)
      (treeSection (sourceLines source)) tree.entries := by
    rw [reading.entries_eq, List.forall₂_map_right_iff]
    exact each.imp fun line treeLine found => (reads_of_ofLine? found).1
  constructor
  · exact isPlain_of_reads reads fun line member =>
      newline_notMem_of_mem_sourceLines ((treeSection_sublist _).mem member)
  · rw [← toOption_readTree reads]
    exact parse_eq_ok_iff.mp parsed

theorem preorder_shape_of_parse {source : String} {tree : Tree} (parsed : parse source = .ok tree) :
    tree.shape.preorder = List.range tree.size := by
  obtain ⟨treeLines, cursor, -, reading⟩ := exists_reading_of_parse parsed
  exact reading.sound.links.preorder_unfold_eq_range reading.ordered reading.sound.nonempty

theorem parse_printed_labels (layout : Layout) {labels : Rose String}
    (printable : IsPrintable labels) : parse (layout.printed (labels.leveled 0).preorder) =
      .ok (Tree.arena (nodesOf 0 labels)) := by
  have plain : ∀ entry ∈ (labels.leveled 0).preorder, IsPlain entry.2 := by
    intro entry member
    apply printable.plain
    rw [← Rose.map_snd_leveled 0 labels]
    exact List.mem_map_of_mem member
  exact (parse_printed_iff layout plain).mpr (treeOfEntries_leveled printable)

/-- Printing and reading undo each other, whatever the layout.  A tree of labels that is printed in
pre-order is read as the arena of that tree: read along its links, it has the nodes of the tree in
their places, and its positions count through the pre-order.  A tree that was read is read again
from its own levels and texts, which may skip levels and come back to any of them. -/
theorem parse_printed (layout : Layout) :
    (∀ labels : Rose String, IsPrintable labels →
      parse (layout.printed (labels.leveled 0).preorder) = .ok (Tree.arena (nodesOf 0 labels)) ∧
      (Tree.arena (nodesOf 0 labels)).bareAt 0 = nodesOf 0 labels ∧
      (Tree.arena (nodesOf 0 labels)).shape.preorder =
        List.range (Tree.arena (nodesOf 0 labels)).size) ∧
    ∀ source tree, parse source = .ok tree → parse (layout.printed tree.entries) = .ok tree := by
  constructor
  · intro labels printable
    have parsed := parse_printed_labels layout printable
    refine ⟨parsed, ?_, preorder_shape_of_parse parsed⟩
    rw [← Tree.ofRose_eq_arena _ (nodesOf_isFresh 0 labels)]
    exact (Tree.ofRose_spec (nested_nodesOf labels 0 printable.inner)).2
  · intro source tree parsed
    obtain ⟨plain, again⟩ := entries_of_parse parsed
    exact (parse_printed_iff layout plain).mpr again

/-- Two header lines, tabs after the bars, lines that end as on Windows, and a remark. -/
def windowsLayout : Layout where
  header := ["Parse of".toList, "a  program\r".toList]
  blank := [' ', '\r']
  padding line marker := if line % 2 = marker then ['\t'] else [' ', ' ']
  returns _ := ['\r']
  rest := [['\r'], "+--<no> tree".toList]
  header_lines := by decide
  blank_line := by decide
  padding_white := by
    intro line marker
    split <;> simp
  returns_only := by simp
  rest_apart := by decide
  rest_lines := by decide

/-- Labels that hold separators, bars and a definition, a production without anything below it, an
empty label and the less-than token. -/
def awkwardLabels : Rose String :=
  .node "<a> ::= <b> | +--" [.node "< +--|" [.node "|  +--x" [], .node "" []], .node "<" [],
    .node "<c>" [.node "<d>" []]]

theorem parse_printed_awkward :
    windowsLayout.printed (awkwardLabels.leveled 0).preorder =
      "Parse of\na  program\r\n \r\n+--<a> ::= <b> | +--\r\n|  +--< +--|\r\n|\t|  +--|  +--x\r\n" ++
        "|  |\t+--\r\n|\t+--<\r\n|  +--<c>\r\n|\t|  +--<d>\r\n\r\n+--<no> tree" ∧
    parse (windowsLayout.printed (awkwardLabels.leveled 0).preorder) =
      .ok (Tree.arena (nodesOf 0 awkwardLabels)) ∧
    parse (windowsLayout.printed irregularTree.entries) = .ok irregularTree := by
  have printable : IsPrintable awkwardLabels := by
    refine ⟨?_, ⟨by decide, by decide⟩, ?_⟩
    · have plain : ∀ text ∈ awkwardLabels.preorder,
          trim text.toList = text.toList ∧ '\n' ∉ text.toList := by decide
      exact fun text member => ⟨(plain text member).1, (plain text member).2⟩
    · simp [awkwardLabels, InnerNames, InnerNamesAll, NamesProduction]
  have parsed : parse irregularExport = .ok irregularTree := by decide +kernel
  exact ⟨by decide +kernel, ((parse_printed windowsLayout).1 awkwardLabels printable).1,
    (parse_printed windowsLayout).2 irregularExport irregularTree parsed⟩

end NassiChart.Export
