import NassiChart.Proofs.Reading
import NassiChart.Proofs.TreeLine

/-! # A run of the reader

`readOne` is one turn of the reader's loop with the cursor kept in sight.  A run over lines that
are all nested below the root goes through; a run that meets any other line stops there, and every
list of lines is of one of these forms.
-/

namespace NassiChart.Export

open NassiChart.Grammar NassiChart.Text

/-- One turn of `readNodes`, from cursor and tree to cursor and tree. -/
def readOne (root : Span) (state : NodeId × Tree) (line : Line) : Except Fault (NodeId × Tree) :=
  match readLine line with
  | .error fault => .error fault
  | .ok treeLine =>
    match state.2.insert state.1 treeLine.node with
    | .error _ => .error (.secondRoot treeLine.span treeLine.level root)
    | .ok none => .ok state
    | .ok (some (id, grown)) => .ok (nextCursor grown id, grown)

theorem readNodes_eq_foldlM (root : Span) (lines : List Line) (cursor : NodeId) (tree : Tree) :
    readNodes root lines cursor tree =
      (lines.foldlM (readOne root) (cursor, tree)).map Prod.snd := by
  induction lines generalizing cursor tree with
  | nil => rfl
  | cons line lines ih =>
      rw [List.foldlM_cons, readNodes, readOne]
      cases readLine line with
      | error fault => rfl
      | ok treeLine =>
          simp only
          cases tree.insert cursor treeLine.node with
          | error refusal => rfl
          | ok inserted =>
              cases inserted with
              | none => exact ih cursor tree
              | some grown => exact ih _ _

/-- The line can be the root: no level marker, and the name of a production. -/
def Line.IsRoot (line : Line) : Prop :=
  ∃ text, line.Reads 0 text ∧ NamesProduction text

/-- The line can stand below the root: at least one level marker. -/
def Line.IsNested (line : Line) : Prop :=
  ∃ level text, line.Reads (level + 1) text

/-- The lines form a tree. -/
def Accepted (lines : List Line) : Prop :=
  ∃ root rest, lines = root :: rest ∧ root.IsRoot ∧ ∀ line ∈ rest, line.IsNested

/-- The lines form no tree.  The first line that cannot stand where it stands decides the code;
the lines that are shown come with it, the decisive one marked as primary. -/
inductive Refused : List Line → ErrorCode → List (Line × Bool) → Prop where
  | missing : Refused [] .missingTree []
  | malformedRoot {root rest} : (∀ level text, ¬ root.Reads level text) →
      Refused (root :: rest) .malformedLine [(root, true)]
  | indentedRoot {root rest level text} : root.Reads (level + 1) text →
      Refused (root :: rest) .rootIndented [(root, true)]
  | tokenRoot {root rest text} : root.Reads 0 text → ¬ NamesProduction text →
      Refused (root :: rest) .rootNotExpression [(root, true)]
  | malformed {root before line after} : root.IsRoot → (∀ l ∈ before, l.IsNested) →
      (∀ level text, ¬ line.Reads level text) →
      Refused (root :: (before ++ line :: after)) .malformedLine [(line, true)]
  | secondRoot {root before line after text} : root.IsRoot → (∀ l ∈ before, l.IsNested) →
      line.Reads 0 text →
      Refused (root :: (before ++ line :: after)) .secondRoot [(line, true), (root, false)]

theorem Line.nested_or (line : Line) :
    line.IsNested ∨ (∃ text, line.Reads 0 text) ∨ ∀ level text, ¬ line.Reads level text := by
  cases found : TreeLine.ofLine? line with
  | none => exact .inr (.inr (ofLine?_eq_none_iff.mp found))
  | some treeLine =>
      have reads := (reads_of_ofLine? found).1
      cases level : treeLine.level with
      | zero => exact .inr (.inl ⟨_, level ▸ reads⟩)
      | succ n => exact .inl ⟨n, _, level ▸ reads⟩

theorem nested_or_split (lines : List Line) :
    (∀ line ∈ lines, line.IsNested) ∨ ∃ before line after, lines = before ++ line :: after ∧
      (∀ l ∈ before, l.IsNested) ∧ ¬ line.IsNested := by
  induction lines with
  | nil => exact .inl (List.forall_mem_nil _)
  | cons line lines ih =>
      by_cases nested : line.IsNested
      · rcases ih with all | ⟨before, next, after, rfl, all, bad⟩
        · exact .inl (List.forall_mem_cons.mpr ⟨nested, all⟩)
        · exact .inr ⟨line :: before, next, after, rfl, List.forall_mem_cons.mpr ⟨nested, all⟩, bad⟩
      · exact .inr ⟨[], line, lines, rfl, List.forall_mem_nil _, nested⟩

/-- Lines either form a tree or are refused. -/
theorem accepted_or_refused (lines : List Line) :
    Accepted lines ∨ ∃ code shown, Refused lines code shown := by
  cases lines with
  | nil => exact .inr ⟨_, _, .missing⟩
  | cons root rest =>
      rcases root.nested_or with ⟨level, text, reads⟩ | ⟨text, reads⟩ | unread
      · exact .inr ⟨_, _, .indentedRoot reads⟩
      · by_cases names : NamesProduction text
        · rcases nested_or_split rest with nested | ⟨before, line, after, rfl, nested, bad⟩
          · exact .inl ⟨root, rest, rfl, ⟨text, reads, names⟩, nested⟩
          · right
            rcases line.nested_or with good | ⟨text', reads'⟩ | unread
            · exact absurd good bad
            · exact ⟨_, _, .secondRoot ⟨text, reads, names⟩ nested reads'⟩
            · exact ⟨_, _, .malformed ⟨text, reads, names⟩ nested unread⟩
        · exact .inr ⟨_, _, .tokenRoot reads names⟩
      · exact .inr ⟨_, _, .malformedRoot unread⟩

theorem Reading.run {read : List TreeLine} {cursor : Nat} {tree : Tree}
    (reading : Reading read cursor tree) (root : Span) {lines : List Line}
    (nested : ∀ line ∈ lines, line.IsNested) : ∃ more cursor' tree',
      lines.foldlM (readOne root) (cursor, tree) = .ok (cursor', tree') ∧
        List.Forall₂ (fun line treeLine => TreeLine.ofLine? line = some treeLine) lines more ∧
          Reading (read ++ more) cursor' tree' := by
  induction lines generalizing read cursor tree with
  | nil => exact ⟨[], cursor, tree, rfl, .nil, by simpa using reading⟩
  | cons line lines ih =>
      obtain ⟨⟨level, text, reads⟩, rest⟩ := List.forall_mem_cons.mp nested
      have found := reads.ofLine?
      obtain ⟨id, grown, inserted, next⟩ := reading.step
        ⟨level + 1, String.ofList text, line.span⟩ (Nat.succ_pos level)
      obtain ⟨more, cursor', tree', ran, each, last⟩ := ih next rest
      refine ⟨_ :: more, cursor', tree', ?_, .cons found each, by simpa using last⟩
      have turn : readOne root (cursor, tree) line = .ok (nextCursor grown id, grown) := by
        simp only [readOne, readLine, found, inserted]
      rw [List.foldlM_cons, turn]
      exact ran

theorem Line.IsRoot.readTree {root : Line} (isRoot : root.IsRoot) (rest : List Line) :
    ∃ first : TreeLine, TreeLine.ofLine? root = some first ∧ first.level = 0 ∧
      first.node.isExpression = true ∧
        Export.readTree (root :: rest) =
          readNodes root.span rest 0 (Tree.singleton first.node) := by
  obtain ⟨text, reads, names⟩ := isRoot
  have found := reads.ofLine?
  have expression : (TreeLine.node ⟨0, String.ofList text, root.span⟩).isExpression = true :=
    TreeLine.node_isExpression_iff.mpr (by simpa using names)
  refine ⟨_, found, rfl, expression, ?_⟩
  simp [Export.readTree, readLine, found, expression]

theorem readTree_of_isRoot {root : Line} {rest : List Line} (isRoot : root.IsRoot)
    (nested : ∀ line ∈ rest, line.IsNested) : ∃ treeLines cursor tree,
      Export.readTree (root :: rest) = .ok tree ∧
        List.Forall₂ (fun line treeLine => TreeLine.ofLine? line = some treeLine)
          (root :: rest) treeLines ∧
          Reading treeLines cursor tree := by
  obtain ⟨first, found, level, expression, start⟩ := isRoot.readTree rest
  obtain ⟨more, cursor, tree, ran, each, reading⟩ :=
    (Reading.start level expression).run root.span nested
  refine ⟨first :: more, cursor, tree, ?_, .cons found each, reading⟩
  rw [start, readNodes_eq_foldlM, ran]
  rfl

theorem readTree_of_stop {root line : Line} {before : List Line} (after : List Line)
    (isRoot : root.IsRoot) (nested : ∀ l ∈ before, l.IsNested) {fault : Fault}
    (stops : ∀ state, readOne root.span state line = .error fault) :
    Export.readTree (root :: (before ++ line :: after)) = .error fault := by
  obtain ⟨first, -, level, expression, start⟩ := isRoot.readTree (before ++ line :: after)
  obtain ⟨more, cursor, tree, ran, -⟩ := (Reading.start level expression).run root.span nested
  rw [start, readNodes_eq_foldlM, List.foldlM_append, ran]
  change (((line :: after).foldlM (readOne root.span) (cursor, tree)).map Prod.snd) = _
  rw [List.foldlM_cons, stops]
  rfl

/-- Lines that form no tree are refused with the fault that they are refused for. -/
theorem Refused.readTree {lines : List Line} {code : ErrorCode} {shown : List (Line × Bool)}
    (refused : Refused lines code shown) : ∃ fault, Export.readTree lines = .error fault ∧
      fault.diagnostic.code = some code ∧
        fault.diagnostic.labels.map (fun label => (label.span, label.primary)) =
          shown.map fun mark => (mark.1.span, mark.2) := by
  cases refused with
  | missing => exact ⟨.noTree, rfl, rfl, rfl⟩
  | @malformedRoot root rest unread =>
      refine ⟨.noSeparator root.span, ?_, rfl, rfl⟩
      simp [Export.readTree, readLine, ofLine?_eq_none_iff.mpr unread]
  | @indentedRoot root rest level text reads =>
      refine ⟨.indentedRoot root.span (level + 1), ?_, rfl, rfl⟩
      simp [Export.readTree, readLine, reads.ofLine?]
  | @tokenRoot root rest text reads names =>
      refine ⟨.terminalRoot root.span, ?_, rfl, rfl⟩
      have token : ¬ (TreeLine.node ⟨0, String.ofList text, root.span⟩).isExpression = true :=
        fun expression => names (by simpa using TreeLine.node_isExpression_iff.mp expression)
      simp [Export.readTree, readLine, reads.ofLine?, token]
  | @malformed root before line after isRoot nested unread =>
      refine ⟨.noSeparator line.span, readTree_of_stop after isRoot nested fun state => ?_, rfl, rfl⟩
      simp [readOne, readLine, ofLine?_eq_none_iff.mpr unread]
  | @secondRoot root before line after text isRoot nested reads =>
      refine ⟨.secondRoot line.span 0 root.span, readTree_of_stop after isRoot nested
        fun state => ?_, rfl, rfl⟩
      have none : state.2.receiver? state.1 0 = none := by
        rw [Tree.receiver?, List.find?_eq_none]
        intro id _
        simp [Tree.isShallower]
      simp [readOne, readLine, reads.ofLine?, Tree.insert, none]

end NassiChart.Export
