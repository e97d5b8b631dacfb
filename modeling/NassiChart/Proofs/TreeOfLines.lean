import NassiChart.Proofs.Run

/-! # The tree that the lines describe

The tree of an export is determined by the levels and texts of its lines alone: every line is a
node, and the parent of a node is the last line that encloses it.  No cursor and no climbing is
left in this description.  Levels may skip steps, follow a token at any depth, and fall back by
any amount.
-/

namespace NassiChart.Export

open NassiChart.Grammar NassiChart.Text

theorem exists_of_parse {source : String} {tree : Tree} (parsed : parse source = .ok tree) :
    ∃ root rest, treeSection (sourceLines source) = root :: rest ∧ root.IsRoot ∧
      (∀ line ∈ rest, line.IsNested) ∧ readTree (root :: rest) = .ok tree := by
  have ran : readTree (treeSection (sourceLines source)) = .ok tree := by
    unfold parse reported at parsed
    cases result : readTree (treeSection (sourceLines source)) with
    | error fault => simp [result, Except.mapError] at parsed
    | ok found => simpa [result, Except.mapError] using parsed
  rcases accepted_or_refused (treeSection (sourceLines source)) with
    ⟨root, rest, cut, isRoot, nested⟩ | ⟨code, shown, refused⟩
  · exact ⟨root, rest, cut, isRoot, nested, cut ▸ ran⟩
  · obtain ⟨fault, stopped, -⟩ := refused.readTree
    rw [ran] at stopped
    cases stopped

theorem inserted_of_nested {root line : Line} {before : List Line} (isRoot : root.IsRoot)
    (nested : ∀ l ∈ before, l.IsNested) (isNested : line.IsNested) :
    ∃ first treeLine cursor sofar id grown,
      TreeLine.ofLine? root = some first ∧ TreeLine.ofLine? line = some treeLine ∧
        before.foldlM (readOne root.span) (0, Tree.singleton first.node) = .ok (cursor, sofar) ∧
          sofar.insert cursor treeLine.node = .ok (some (id, grown)) := by
  obtain ⟨first, found, level, expression, -⟩ := isRoot.readTree []
  obtain ⟨more, cursor, sofar, ran, -, reading⟩ :=
    (Reading.start level expression).run root.span nested
  obtain ⟨depth, text, reads⟩ := isNested
  obtain ⟨id, grown, inserted, -⟩ := reading.step
    ⟨depth + 1, String.ofList text, line.span⟩ (Nat.succ_pos depth)
  exact ⟨first, _, cursor, sofar, id, grown, found, reads.ofLine?, ran, inserted⟩

/-- The tree of an export has a node for every line of the tree section, with the level and the
text of the line; no line is dropped.  The parent of a node is the last line before it that names
a production and is less deep than all lines from there on up to the node.  Child lists follow the
parents, and a walk over the tree meets the lines in their order. -/
theorem tree_of_lines (source : String) (tree : Tree) (parsed : parse source = .ok tree) :
    ∃ treeLines : List TreeLine,
      List.Forall₂ (fun line treeLine => line.Reads treeLine.level treeLine.text.toList)
        (treeSection (sourceLines source)) treeLines ∧
      tree.size = treeLines.length ∧
      (∀ (id : Nat) line, treeLines[id]? = some line → ∃ node, tree.node? id = some node ∧
        node.level = line.level ∧ node.text = line.text ∧
        (node.isExpression = true ↔ NamesProduction line.text.toList)) ∧
      (∀ root before line after,
        treeSection (sourceLines source) = root :: (before ++ line :: after) →
        ∃ first treeLine cursor sofar id grown,
          TreeLine.ofLine? root = some first ∧ TreeLine.ofLine? line = some treeLine ∧
          before.foldlM (readOne root.span) (0, Tree.singleton first.node) = .ok (cursor, sofar) ∧
          sofar.insert cursor treeLine.node = .ok (some (id, grown))) ∧
      tree.parent? 0 = none ∧
      (∀ id : Nat, 0 < id → id < treeLines.length → ∃ above, tree.parent? id = some above ∧
        IsGreatest {holder | Encloses treeLines holder id} above) ∧
      (∀ id : Nat, tree.children id =
        (List.range treeLines.length).filter (tree.parent? · = some id)) ∧
      tree.shape.preorder = List.range treeLines.length := by
  obtain ⟨root, rest, cut, isRoot, nested, ran⟩ := exists_of_parse parsed
  obtain ⟨treeLines, cursor, tree', ran', each, reading⟩ := readTree_of_isRoot isRoot nested
  obtain rfl : tree = tree' := Except.ok.inj (ran.symm.trans ran')
  have links := reading.sound.links
  refine ⟨treeLines, ?_, reading.size, ?_, ?_, links.root_parent, reading.held, ?_, ?_⟩
  · rw [cut]
    exact each.imp fun line treeLine found => (reads_of_ofLine? found).1
  · intro id line found
    obtain ⟨node, there, level, text, form⟩ := reading.nodes id line found
    exact ⟨node, there, level, text, by rw [form, TreeLine.node_isExpression_iff]⟩
  · intro root' before line after cut'
    obtain ⟨rfl, rfl⟩ := List.cons.inj (cut.symm.trans cut')
    have split := List.forall_mem_append.mp nested
    exact inserted_of_nested isRoot split.1 (split.2 line List.mem_cons_self)
  · intro id
    rw [links.listed, reading.size]
  · rw [← reading.size]
    exact links.preorder_unfold_eq_range reading.ordered reading.sound.nonempty

/-- An export in which levels skip steps, a line is deeper than the token before it, and a token
closes several productions at once. -/
def irregularExport : String :=
  "\n+--<a>\n|||+--<b>\n||||||+--x\n|||||||+--<c>\n|+--y\n||+--<d>"

def irregularTree : Tree :=
  ⟨#[⟨0, "<a>", none, .expression [1, 4, 5]⟩, ⟨3, "<b>", some 0, .expression [2, 3]⟩,
    ⟨6, "x", some 1, .terminal⟩, ⟨7, "<c>", some 1, .expression []⟩,
    ⟨1, "y", some 0, .terminal⟩, ⟨2, "<d>", some 0, .expression []⟩]⟩

theorem tree_of_lines_irregular : parse irregularExport = .ok irregularTree ∧
    irregularTree.parent? 3 = some 1 ∧ irregularTree.parent? 5 = some 0 ∧
      irregularTree.shape.preorder = List.range irregularTree.size := by
  have parsed : parse irregularExport = .ok irregularTree := by decide +kernel
  obtain ⟨treeLines, -, size, -, -, -, -, -, walk⟩ := tree_of_lines irregularExport _ parsed
  exact ⟨parsed, by decide, by decide, size ▸ walk⟩

end NassiChart.Export
