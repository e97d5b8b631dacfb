import Mathlib.Data.List.Forall2
import NassiChart.Proofs.Run

/-! # Lines that read alike

What the reader makes of a line are its level and its text; where the line stands matters for the
labels of a diagnostic alone.  So two lists of lines in which the texts of the second are those of
the first, renamed, are read as the same tree up to the renaming, or are refused in the same words
for lines of the same number.
-/

namespace NassiChart.Grammar

/-- The node with another text, which may depend on whether the node is an expression. -/
def Node.retext (rename : Bool → String → String) (node : Node) : Node :=
  { node with text := rename node.isExpression node.text }

/-- The tree of the same nodes with other texts. -/
def Tree.retext (rename : Bool → String → String) (tree : Tree) : Tree :=
  ⟨tree.nodes.map (Node.retext rename)⟩

/-- The renaming keeps productions productions and tokens tokens. -/
def KeepsClass (rename : Bool → String → String) : Prop :=
  ∀ text : String, namesProduction (rename (namesProduction text.toList) text).toList =
    namesProduction text.toList

variable {rename : Bool → String → String}

namespace Node

@[simp] theorem retext_level (node : Node) : (node.retext rename).level = node.level := rfl

@[simp] theorem retext_parent (node : Node) : (node.retext rename).parent = node.parent := rfl

@[simp] theorem retext_isExpression (node : Node) :
    (node.retext rename).isExpression = node.isExpression := rfl

@[simp] theorem retext_children (node : Node) :
    (node.retext rename).children = node.children := rfl

theorem retext_addChild (node : Node) (child : NodeId) :
    (node.addChild child).retext rename = (node.retext rename).addChild child := by
  cases form : node.form <;> simp [retext, addChild, isExpression, form]

theorem classify_retext (keeps : KeepsClass rename) (level : Nat) (text : String) :
    classify level (rename (namesProduction text.toList) text) =
      (classify level text).retext rename := by
  unfold classify
  rw [keeps]
  split
  · rename_i names
    rw [names]
    rfl
  · rename_i token
    rw [Bool.not_eq_true] at token
    rw [token]
    rfl

end Node

namespace Tree

@[simp] theorem size_retext (tree : Tree) : (tree.retext rename).size = tree.size := by
  simp [retext, size]

@[simp] theorem node?_retext (tree : Tree) (id : NodeId) :
    (tree.retext rename).node? id = (tree.node? id).map (Node.retext rename) := by
  simp [retext, node?]

@[simp] theorem parent?_retext (tree : Tree) : (tree.retext rename).parent? = tree.parent? := by
  funext id
  simp [parent?, Option.bind_map, Function.comp_def]

@[simp] theorem children_retext (tree : Tree) :
    (tree.retext rename).children = tree.children := by
  funext id
  simp [children, Function.comp_def]

theorem shape_retext (tree : Tree) : (tree.retext rename).shape = tree.shape := by
  rw [shape, shape, children_retext, size_retext]
  rfl

theorem receiver?_retext (tree : Tree) (cursor : NodeId) (level : Nat) :
    (tree.retext rename).receiver? cursor level = tree.receiver? cursor level := by
  have shallower : (tree.retext rename).isShallower level = tree.isShallower level := by
    funext id
    simp only [isShallower, node?_retext, Option.any_map]
    rfl
  rw [receiver?, receiver?, ancestors, ancestors, parent?_retext, shallower]

theorem attach_retext (tree : Tree) (above : NodeId) (child : Node) :
    (tree.retext rename).attach above (child.retext rename) =
      (tree.attach above child).retext rename := by
  simp only [attach, retext, size, Array.map_push, Array.size_map, Tree.mk.injEq]
  congr 1
  apply Array.ext_getElem?
  intro id
  simp only [Array.getElem?_modify, Array.getElem?_map]
  split
  · simp [Function.comp_def, Node.retext_addChild]
  · rfl

/-- Insertion looks at levels, parents and forms, and at no text. -/
theorem insert_retext (tree : Tree) (cursor : NodeId) (child : Node) :
    (tree.retext rename).insert cursor (child.retext rename) =
      (tree.insert cursor child).map (·.map fun entry => (entry.1, entry.2.retext rename)) := by
  simp only [insert, receiver?_retext, Node.retext_level]
  cases tree.receiver? cursor child.level with
  | none => rfl
  | some above =>
      simp only [node?_retext, Option.any_map, Node.retext_isExpression]
      split
      · rw [size_retext, attach_retext]
        rfl
      · rfl

end Tree

end NassiChart.Grammar

namespace NassiChart.Export

open NassiChart.Grammar

/-- The same fault, for lines that correspond. -/
inductive Fault.Alike (placed : Span → Span → Prop) : Fault → Fault → Prop
  | noTree : Alike placed .noTree .noTree
  | noSeparator {line line'} : placed line line' →
      Alike placed (.noSeparator line) (.noSeparator line')
  | indentedRoot {line line'} (level) : placed line line' →
      Alike placed (.indentedRoot line level) (.indentedRoot line' level)
  | terminalRoot {line line'} : placed line line' →
      Alike placed (.terminalRoot line) (.terminalRoot line')
  | secondRoot {line line' root root'} (level) : placed line line' → placed root root' →
      Alike placed (.secondRoot line level root) (.secondRoot line' level root')

/-- The same words, with labels on ranges that correspond. -/
structure Diagnostic.Alike (placed : Span → Span → Prop) (diagnostic other : Diagnostic) :
    Prop where
  code : other.code = diagnostic.code
  message : other.message = diagnostic.message
  help : other.help = diagnostic.help
  labels : List.Forall₂ (fun label label' => label'.message = label.message ∧
    label'.primary = label.primary ∧ placed label.span label'.span) diagnostic.labels other.labels

theorem Fault.Alike.diagnostic {placed : Span → Span → Prop} {fault fault' : Fault}
    (alike : fault.Alike placed fault') :
    Diagnostic.Alike placed fault.diagnostic fault'.diagnostic := by
  cases alike with
  | noTree => exact ⟨rfl, rfl, rfl, .nil⟩
  | noSeparator line => exact ⟨rfl, rfl, rfl, .cons ⟨rfl, rfl, line⟩ .nil⟩
  | indentedRoot _ line => exact ⟨rfl, rfl, rfl, .cons ⟨rfl, rfl, line⟩ .nil⟩
  | terminalRoot line => exact ⟨rfl, rfl, rfl, .cons ⟨rfl, rfl, line⟩ .nil⟩
  | secondRoot _ line root =>
      exact ⟨rfl, rfl, rfl, .cons ⟨rfl, rfl, line⟩ (.cons ⟨rfl, rfl, root⟩ .nil)⟩

/-- Both are read, as trees that differ by the renaming, or both are refused in the same words. -/
def ResultsAlike (rename : Bool → String → String) (placed : Span → Span → Prop)
    (result other : Except ParseError Tree) : Prop :=
  (∃ tree, result = .ok tree ∧ other = .ok (tree.retext rename)) ∨
    ∃ diagnostic diagnostic', result = .error ⟨[diagnostic]⟩ ∧ other = .error ⟨[diagnostic']⟩ ∧
      diagnostic.Alike placed diagnostic'

/-- The level and the text of a line. -/
def Line.levelText? (line : Line) : Option (Nat × String) :=
  (TreeLine.ofLine? line).map fun treeLine => (treeLine.level, treeLine.text)

theorem Line.levelText?_of_chars {line other : Line} (same : other.chars = line.chars) :
    other.levelText? = line.levelText? := by
  simp only [levelText?, TreeLine.ofLine?, same]
  split <;> rfl

theorem Line.Reads.levelText? {line : Line} {level : Nat} {text : List Char}
    (reads : line.Reads level text) : line.levelText? = some (level, String.ofList text) := by
  rw [Line.levelText?, reads.ofLine?]
  rfl

/-- The lines have the same level, and the text of the second is that of the first, renamed. -/
def Line.ReadsLike (rename : Bool → String → String) (line other : Line) : Prop :=
  other.levelText? = line.levelText?.map fun entry =>
    (entry.1, rename (namesProduction entry.2.toList) entry.2)

variable {rename : Bool → String → String} {placed : Span → Span → Prop}

/-- Two lines that read alike are taken apart alike, or not at all. -/
theorem Line.ReadsLike.cases (keeps : KeepsClass rename) {line other : Line}
    (like : line.ReadsLike rename other) :
    (TreeLine.ofLine? line = none ∧ TreeLine.ofLine? other = none) ∨
      ∃ treeLine treeLine', TreeLine.ofLine? line = some treeLine ∧
        TreeLine.ofLine? other = some treeLine' ∧ treeLine.span = line.span ∧
          treeLine'.span = other.span ∧ treeLine'.level = treeLine.level ∧
            treeLine'.node = treeLine.node.retext rename := by
  unfold ReadsLike levelText? at like
  cases found : TreeLine.ofLine? line with
  | none =>
      rw [found, Option.map_none, Option.map_none, Option.map_eq_none_iff] at like
      exact .inl ⟨rfl, like⟩
  | some treeLine =>
      rw [found, Option.map_some, Option.map_some, Option.map_eq_some_iff] at like
      obtain ⟨treeLine', found', same⟩ := like
      obtain ⟨level, text⟩ := Prod.mk.inj same
      refine .inr ⟨treeLine, treeLine', rfl, found', (reads_of_ofLine? found).2,
        (reads_of_ofLine? found').2, level, ?_⟩
      rw [TreeLine.node, TreeLine.node, level, text]
      exact Node.classify_retext keeps treeLine.level treeLine.text

theorem nextCursor_retext (tree : Tree) (id : NodeId) :
    nextCursor (tree.retext rename) id = nextCursor tree id := by
  simp [nextCursor, Option.any_map]

/-- What the reader has after one turn or after all of them. -/
def Alike {α : Type} (renamed : α → α) (placed : Span → Span → Prop) :
    Except Fault α → Except Fault α → Prop
  | .ok result, .ok other => other = renamed result
  | .error fault, .error fault' => fault.Alike placed fault'
  | _, _ => False

/-- Turns that are alike can be followed by turns that are alike. -/
theorem Alike.bind {α β : Type} {renamed : α → α} {renamed' : β → β}
    {result other : Except Fault α} {next next' : α → Except Fault β}
    (here : Alike renamed placed result other)
    (later : ∀ state, Alike renamed' placed (next state) (next' (renamed state))) :
    Alike renamed' placed (result >>= next) (other >>= next') := by
  match result, other, here with
  | .ok state, .ok _, rfl => exact later state
  | .error _, .error _, alike => exact alike

theorem readOne_alike (keeps : KeepsClass rename) {line other : Line}
    (like : line.ReadsLike rename other) (here : placed line.span other.span) {root root' : Span}
    (top : placed root root') (cursor : NodeId) (tree : Tree) :
    Alike (fun state => (state.1, state.2.retext rename)) placed
      (readOne root (cursor, tree) line) (readOne root' (cursor, tree.retext rename) other) := by
  rcases like.cases keeps with ⟨missing, missing'⟩ |
    ⟨treeLine, treeLine', found, found', span, span', level, node⟩
  · simp only [readOne, readLine, missing, missing']
    exact .noSeparator here
  · simp only [readOne, readLine, found, found', span, span', level, node, Tree.insert_retext]
    cases tree.insert cursor treeLine.node with
    | error refusal => exact .secondRoot treeLine.level here top
    | ok inserted =>
        cases inserted with
        | none => rfl
        | some entry =>
            exact congrArg (·, entry.2.retext rename) (nextCursor_retext entry.2 entry.1)

theorem foldlM_readOne_alike (keeps : KeepsClass rename) {lines others : List Line}
    (like : List.Forall₂ (fun line other => line.ReadsLike rename other ∧
      placed line.span other.span) lines others) {root root' : Span} (top : placed root root')
    (cursor : NodeId) (tree : Tree) :
    Alike (fun state => (state.1, state.2.retext rename)) placed
      (lines.foldlM (readOne root) (cursor, tree))
      (others.foldlM (readOne root') (cursor, tree.retext rename)) := by
  induction like generalizing cursor tree with
  | nil => rfl
  | cons here _ ih =>
      rw [List.foldlM_cons, List.foldlM_cons]
      exact (readOne_alike keeps here.1 here.2 top cursor tree).bind fun state =>
        ih state.1 state.2

theorem readNodes_alike (keeps : KeepsClass rename) {lines others : List Line}
    (like : List.Forall₂ (fun line other => line.ReadsLike rename other ∧
      placed line.span other.span) lines others) {root root' : Span} (top : placed root root')
    (cursor : NodeId) (tree : Tree) : Alike (Tree.retext rename) placed
      (readNodes root lines cursor tree) (readNodes root' others cursor (tree.retext rename)) := by
  rw [readNodes_eq_foldlM, readNodes_eq_foldlM]
  exact (foldlM_readOne_alike keeps like top cursor tree).bind fun _ => rfl

theorem singleton_retext (root : Node) :
    Tree.singleton (root.retext rename) = (Tree.singleton root).retext rename := by
  simp [Tree.singleton, Tree.retext, Node.retext, Node.isExpression]

/-- Lines that read alike make the same tree up to the renaming, or the same fault. -/
theorem readTree_alike (keeps : KeepsClass rename) {lines others : List Line}
    (like : List.Forall₂ (fun line other => line.ReadsLike rename other ∧
      placed line.span other.span) lines others) :
    Alike (Tree.retext rename) placed (readTree lines) (readTree others) := by
  cases like with
  | nil => exact .noTree
  | @cons line other lines others here rest =>
      rcases here.1.cases keeps with ⟨missing, missing'⟩ |
        ⟨treeLine, treeLine', found, found', span, span', level, node⟩
      · simp only [readTree, readLine, missing, missing']
        exact .noSeparator here.2
      · simp only [readTree, readLine, found, found', span, span', level, node,
          Node.retext_isExpression, singleton_retext]
        by_cases indented : treeLine.level ≠ 0
        · rw [if_pos indented, if_pos indented]
          exact .indentedRoot treeLine.level here.2
        · rw [if_neg indented, if_neg indented]
          by_cases expression : treeLine.node.isExpression = true
          · rw [if_pos expression, if_pos expression]
            exact readNodes_alike keeps rest here.2 0 _
          · rw [if_neg expression, if_neg expression]
            exact .terminalRoot here.2

theorem reported_alike {result other : Except Fault Tree}
    (alike : Alike (Tree.retext rename) placed result other) :
    ResultsAlike rename placed (reported result) (reported other) := by
  match result, other, alike with
  | .ok tree, .ok _, rfl => exact .inl ⟨tree, rfl, rfl⟩
  | .error _, .error _, alike => exact .inr ⟨_, _, rfl, rfl, Fault.Alike.diagnostic alike⟩

/-- The ranges are those of two lines with the same number. -/
def SameNumber (lines others : List Line) (span other : Span) : Prop :=
  ∃ line line', (line, line') ∈ lines.zip others ∧ span = line.span ∧ other = line'.span

theorem forall₂_takeWhile {α β : Type} {related : α → β → Prop} {p : α → Bool} {q : β → Bool}
    (same : ∀ x y, related x y → q y = p x) {xs : List α} {ys : List β}
    (each : List.Forall₂ related xs ys) :
    List.Forall₂ related (xs.takeWhile p) (ys.takeWhile q) := by
  induction each with
  | nil => exact .nil
  | @cons x y xs ys here _ ih =>
      rw [List.takeWhile_cons, List.takeWhile_cons, same x y here]
      split
      · exact .cons here ih
      · exact .nil

/-- Sources are read alike if the lines of their tree sections are. -/
theorem parse_alike (keeps : KeepsClass rename) {source other : String}
    (like : List.Forall₂ (Line.ReadsLike rename) (treeSection (sourceLines source))
      (treeSection (sourceLines other))) :
    ResultsAlike rename (SameNumber (treeSection (sourceLines source))
      (treeSection (sourceLines other))) (parse source) (parse other) := by
  obtain ⟨length, each⟩ := List.forall₂_iff_zip.mp like
  refine reported_alike (readTree_alike keeps (List.forall₂_iff_zip.mpr ⟨length, ?_⟩))
  exact fun member => ⟨each member, _, _, member, rfl, rfl⟩

/-- Both are read as one tree, or both are refused in the same words. -/
def SameResult (placed : Span → Span → Prop) (result other : Except ParseError Tree) : Prop :=
  (∃ tree, result = .ok tree ∧ other = .ok tree) ∨
    ∃ diagnostic diagnostic', result = .error ⟨[diagnostic]⟩ ∧ other = .error ⟨[diagnostic']⟩ ∧
      diagnostic.Alike placed diagnostic'

/-- The renaming that keeps all texts. -/
def keepText (_ : Bool) (text : String) : String := text

theorem keepText_keepsClass : KeepsClass keepText := fun _ => rfl

theorem retext_keepText (tree : Tree) : tree.retext keepText = tree := by
  have same : Node.retext keepText = id := rfl
  rw [Tree.retext, same, Array.map_id]

theorem sameResult_of_alike {result other : Except ParseError Tree}
    (alike : ResultsAlike keepText placed result other) : SameResult placed result other := by
  rcases alike with ⟨tree, read, read'⟩ | refused
  · exact .inl ⟨tree, read, retext_keepText tree ▸ read'⟩
  · exact .inr refused

theorem Line.readsLike_of_chars {line other : Line} (same : other.chars = line.chars) :
    line.ReadsLike keepText other := by
  rw [ReadsLike, levelText?_of_chars same]
  simp [keepText]

end NassiChart.Export
