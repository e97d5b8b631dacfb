import NassiChart.Proofs.Drawing
import NassiChart.Proofs.Excerpt

/-! # What surrounds a node leaves no trace in its markup

The statement of a node has the roles of the nodes below it under it, wherever the node stands.  So
the rows of a drawn statement are settled by the labels below its node, and they are the body of the
document that the node gives when it is converted alone.
-/

namespace NassiChart.Diagram

open NassiChart.Grammar NassiChart.Document

/-- Rows with their line ends. -/
def lines (rows : List String) : String :=
  String.join (rows.map (· ++ "\n"))

theorem lines_append (first second : List String) :
    lines (first ++ second) = lines first ++ lines second := by
  rw [lines, lines, lines, List.map_append, String.join_append]

/-- The rows of a document in front of its children. -/
def documentHead (options : Options) : List String :=
  [declaration, openTag "root" (rootAttributes options), "  <children>"]

/-- The rows of a document after its children. -/
def documentTail : List String :=
  ["  </children>", "</root>"]

theorem documentRows_eq (options : Options) (inner : List String) :
    documentRows options inner = documentHead options ++ inner ++ documentTail := by
  have first : "  " ++ openTag "children" [] = "  <children>" := by decide
  have last : "  " ++ closeTag "children" = "  </children>" := by decide
  have root : closeTag "root" = "</root>" := by decide
  simp [documentRows, wrapped, first, last, root, documentHead, documentTail]

/-- The role of the statement for a node. -/
def nodeRole (tree : Tree) (n : NodeId) : Role :=
  .ofNode (n, tree.label n)

theorem kind_nodeRole {tree : Tree} {n : Nat} {name : String}
    (label : tree.label n = .production name) :
    (nodeRole tree n).kind = .ofProduction name := by
  rw [nodeRole, Role.ofNode, label]
  rfl

def nodeRoles (tree : Tree) (n : NodeId) : Rose Role :=
  (tree.below n).map (nodeRole tree)

theorem roles_eq (tree : Tree) : roles tree = withDocument (nodeRoles tree 0) := by
  rw [roles, Tree.outline, Rose.map_map]
  rfl

theorem nodeRoles_eq {tree : Tree} (sound : tree.Sound) {n : Nat} (inside : n < tree.size) :
    nodeRoles tree n = .node (nodeRole tree n) ((tree.children n).map (nodeRoles tree)) :=
  Tree.map_below sound inside (nodeRole tree)

theorem value_nodeRoles (tree : Tree) (n : Nat) : (nodeRoles tree n).value = nodeRole tree n :=
  tree.value_map_below (nodeRole tree) n

/-- Every statement is the document on top of all nodes, or that of a node. -/
theorem rolesAt_build_eq {tree : Tree} (sound : tree.Sound) {id : Nat}
    (inside : id < (build tree).size) :
    (id = 0 ∧ (nodeRole tree 0).kind ≠ .document ∧ (build tree).rolesAt id = roles tree) ∨
      ∃ n < tree.size, (build tree).rolesAt id = nodeRoles tree n := by
  refine (build_linked tree).downwards (motive := fun id =>
    (id = 0 ∧ (nodeRole tree 0).kind ≠ .document ∧ (build tree).rolesAt id = roles tree) ∨
      ∃ n < tree.size, (build tree).rolesAt id = nodeRoles tree n) ?_ ?_ id inside
  · rw [rolesAt_build, roles_eq, withDocument, value_nodeRoles]
    by_cases document : (nodeRole tree 0).kind = .document
    · rw [if_pos document]
      exact .inr ⟨0, sound.nonempty, rfl⟩
    · exact .inl ⟨rfl, document, rfl⟩
  · intro id inside placed child member
    right
    have listed := List.mem_map_of_mem member (f := (build tree).rolesAt)
    have here := rolesAt_eq (build_linked tree) inside
    cases placed with
    | inl top =>
        obtain ⟨-, other, whole⟩ := top
        rw [whole, roles_eq, withDocument, value_nodeRoles, if_neg other] at here
        rw [← (Rose.node.inj here).2, List.mem_singleton] at listed
        exact ⟨0, sound.nonempty, listed⟩
    | inr placed =>
        obtain ⟨n, bound, whole⟩ := placed
        rw [whole, nodeRoles_eq sound bound] at here
        rw [← (Rose.node.inj here).2] at listed
        obtain ⟨m, below, same⟩ := List.mem_map.mp listed
        exact ⟨m, sound.links.children_inside below, same.symm⟩

/-- Below the outermost document, the kind of a statement is that of its label. -/
theorem kind_role_build {tree : Tree} (sound : tree.Sound) {id : Nat}
    (inside : id < (build tree).size) (later : id ≠ 0) :
    ((build tree).role id).kind = .ofLabel ((build tree).role id).label := by
  cases rolesAt_build_eq sound inside with
  | inl top => exact absurd top.1 later
  | inr placed =>
      obtain ⟨n, -, whole⟩ := placed
      rw [← value_rolesAt, whole, value_nodeRoles]
      rfl

/-- Below the statement of a node stand the statements of the nodes below that node. -/
theorem rolesAt_of_role {tree : Tree} (sound : tree.Sound) {id n : Nat}
    (inside : id < (build tree).size) (other : (nodeRole tree n).kind ≠ .document)
    (here : (build tree).role id = nodeRole tree n) :
    (build tree).rolesAt id = nodeRoles tree n := by
  have value := value_rolesAt (build tree) id
  cases rolesAt_build_eq sound inside with
  | inl top =>
      obtain ⟨-, wrapped, whole⟩ := top
      rw [whole, roles_eq, withDocument, value_nodeRoles, if_neg wrapped, here] at value
      exact absurd (congrArg Role.kind value).symm other
  | inr placed =>
      obtain ⟨m, -, whole⟩ := placed
      rw [whole, value_nodeRoles, here] at value
      obtain rfl : m = n := congrArg Role.origin value
      exact whole

/-- The rows for a node with everything below it. -/
def markupOf (options : Options) (tree : Tree) (n : NodeId) : List String :=
  drawing options (nodeRoles tree n)

/-- The labels below a node are all that its markup depends on. -/
theorem markupOf_congr (options : Options) {tree other : Tree} {n m : Nat}
    (same : (tree.below n).map tree.label = (other.below m).map other.label) :
    markupOf options tree n = markupOf options other m := by
  have unplaced : ∀ (tree : Tree) (n : Nat), (nodeRoles tree n).map Role.unplaced =
      ((tree.below n).map tree.label).map fun label => ⟨0, .ofLabel label, label⟩ := by
    intro tree n
    rw [nodeRoles, Rose.map_map, Rose.map_map]
    rfl
  apply drawing_congr
  rw [unplaced, unplaced, same]

/-- The rows of a drawn statement are the markup of its node. -/
theorem rowsAt_eq_markupOf {tree : Tree} (sound : tree.Sound) (options : Options) {id n : Nat}
    (here : (build tree).role id = nodeRole tree n) (drawn : (build tree).Drawn id)
    (production : ∃ name, tree.label n = .production name)
    (notDocument : (nodeRole tree n).kind ≠ .document) :
    (build tree).rowsAt options id = markupOf options tree n := by
  have linked := build_linked tree
  have notToken : (nodeRole tree n).kind ≠ .token := by
    obtain ⟨name, label⟩ := production
    rw [kind_nodeRole label]
    exact StatementKind.ofProduction_ne_token name
  have inside := DrawnFrom.inside linked (build_nonempty tree) drawn
  obtain ⟨field, -, filledFor⟩ := drawn.filledFor linked (build_nonempty tree)
    (build_filledFor tree) (here ▸ notToken)
  rw [rowsAt_of_filledFor linked options inside filledFor,
    rolesAt_of_role sound inside notDocument here]
  rfl

theorem drawing_of_document (options : Options) {role : Role} (kind : role.kind = .document)
    (trees : List (Rose Role)) : drawing options (.node role trees) =
      documentRows options (trees.flatMap (drawing options)) := by
  have opened : role.kind.IsOpen := .inl kind
  rw [drawing, filled, Role.requests_of_isOpen opened, List.length_map, filledEach_replicate,
    rowsOf_node, List.map_map, List.map_map, List.flatMap]
  simp only [statementRows, Outcome.statement, kind]
  rfl

theorem drawing_of_token (options : Options) {role : Role} (kind : role.kind = .token)
    (trees : List (Rose Role)) : drawing options (.node role trees) = [] := by
  rw [drawing, filled, rowsOf_node]
  simp only [statementRows, Outcome.statement, kind]

theorem rows_build (options : Options) (tree : Tree) :
    rows options (build tree).view = drawing options (roles tree) := by
  have whole := rowsAt_of_filledFor (build_linked tree) options (build_nonempty tree)
    (build_filledFor tree)
  rwa [rolesAt_build] at whole

/-- The document of a tree has these rows between the lines of its children. -/
def HasBody (options : Options) (tree : Tree) (body : List String) : Prop :=
  render options (build tree) =
    lines (documentHead options) ++ lines body ++ lines documentTail

theorem hasBody_of_rows {options : Options} {tree : Tree} {body : List String}
    (whole : rows options (build tree).view = documentRows options body) :
    HasBody options tree body := by
  have text : render options (build tree) = lines (rows options (build tree).view) := rfl
  rw [HasBody, text, whole, documentRows_eq, lines_append, lines_append]

theorem hasBody_markupOf_root (options : Options) {tree : Tree}
    (other : (nodeRole tree 0).kind ≠ .document) :
    HasBody options tree (markupOf options tree 0) := by
  apply hasBody_of_rows
  rw [rows_build, roles_eq, withDocument, value_nodeRoles, if_neg other,
    drawing_of_document options rfl, List.flatMap_singleton]
  rfl

/-- A document at the root holds the markup of its children. -/
theorem hasBody_of_document {tree : Tree} (sound : tree.Sound) (options : Options)
    (document : (nodeRole tree 0).kind = .document) :
    HasBody options tree ((tree.children 0).flatMap (markupOf options tree)) := by
  apply hasBody_of_rows
  rw [rows_build, roles_eq, withDocument, value_nodeRoles, if_pos document,
    nodeRoles_eq sound sound.nonempty, drawing_of_document options document, List.flatMap_map]
  rfl

/-- Tokens are drawn as nothing. -/
theorem flatMap_markupOf (options : Options) {tree : Tree} (sound : tree.Sound) {ids : List Nat}
    (inside : ∀ c ∈ ids, c < tree.size) : ids.flatMap (markupOf options tree) =
      (ids.filter fun c => (tree.bare c).isExpression).flatMap (markupOf options tree) := by
  induction ids with
  | nil => rfl
  | cons c ids ih =>
      have rest := ih fun d member => inside d (List.mem_cons_of_mem _ member)
      rw [List.flatMap_cons, rest]
      by_cases expression : (tree.bare c).isExpression = true
      · rw [List.filter_cons, if_pos expression, List.flatMap_cons]
      · have token : (nodeRole tree c).kind = .token := by
          obtain ⟨text, label⟩ := Tree.label_of_not_isExpression expression
          rw [nodeRole, Role.ofNode, label]
          rfl
        have bound := inside c List.mem_cons_self
        rw [List.filter_cons, if_neg expression, markupOf, nodeRoles_eq sound bound,
          drawing_of_token options token, List.nil_append]

theorem hasBody_of_isExcerpt {tree alone : Tree} (options : Options) {n : Nat}
    (excerpt : alone.IsExcerpt tree n) (other : (nodeRole tree n).kind ≠ .document) :
    HasBody options alone (markupOf options tree n) := by
  have labels := excerpt.labels
  have root : nodeRole alone 0 = { nodeRole tree n with origin := 0 } := by
    have value := congrArg Rose.value labels
    rw [Tree.value_map_below, Tree.value_map_below] at value
    rw [nodeRole, nodeRole, value]
    rfl
  rw [markupOf_congr options labels.symm]
  apply hasBody_markupOf_root
  rw [root]
  exact other

/-- What is written for a drawn node is the body of the document that the node and the nodes below
it give alone, and the same in every tree and at every place with these labels.  A document without
documents right below it holds what its productions give alone, and nothing else. -/
theorem context_independence {tree : Tree} (grown : tree.IsGrown) (options : Options) :
    (∀ n id name, tree.label n = .production name → name ≠ "program" →
      (build tree).role id = nodeRole tree n → (build tree).Drawn id →
        (∃ before after, render options (build tree) =
          before ++ lines ((build tree).rowsAt options id) ++ after) ∧
        (∃ alone : Tree, alone.IsExcerpt tree n) ∧
        (∀ alone : Tree, alone.IsExcerpt tree n →
          HasBody options alone ((build tree).rowsAt options id)) ∧
        ∀ (other : Tree) m j, other.IsGrown → (build other).role j = nodeRole other m →
          (build other).Drawn j →
          (other.below m).map other.label = (tree.below n).map tree.label →
          (build other).rowsAt options j = (build tree).rowsAt options id) ∧
    (tree.label 0 = .production "program" →
      (∀ c ∈ tree.children 0, tree.label c ≠ .production "program") →
        ∃ body : NodeId → List String,
          (∀ c ∈ tree.children 0, (tree.bare c).isExpression = true →
            ∀ alone : Tree, alone.IsExcerpt tree c → HasBody options alone (body c)) ∧
          HasBody options tree (((tree.children 0).filter fun c =>
            (tree.bare c).isExpression).flatMap body)) := by
  have sound := grown.sound
  have linked := build_linked tree
  have nonempty := build_nonempty tree
  constructor
  · intro n id name label named here drawn
    have inside : n < tree.size := Tree.lt_size_of_production label
    have notDocument : (nodeRole tree n).kind ≠ .document := by
      rw [kind_nodeRole label]
      exact fun kind => named (StatementKind.ofProduction_eq_document_iff.mp kind)
    have markup := rowsAt_eq_markupOf sound options here drawn ⟨name, label⟩ notDocument
    refine ⟨?_, ⟨tree.excerpt n, Tree.excerpt_isExcerpt sound inside⟩, ?_, ?_⟩
    · obtain ⟨before, after, whole⟩ := drawn.rowsAt_infix linked nonempty options
      refine ⟨lines before, lines after, ?_⟩
      rw [← lines_append, ← lines_append, whole]
      rfl
    · intro alone excerpt
      rw [markup]
      exact hasBody_of_isExcerpt options excerpt notDocument
    · intro other m j otherGrown there otherDrawn labels
      have root : other.label m = tree.label n := by
        have value := congrArg Rose.value labels
        rwa [Tree.value_map_below, Tree.value_map_below] at value
      have alike : (nodeRole other m).kind = (nodeRole tree n).kind :=
        congrArg StatementKind.ofLabel root
      rw [markup, rowsAt_eq_markupOf otherGrown.sound options there otherDrawn
        ⟨name, root.trans label⟩ (alike ▸ notDocument)]
      exact markupOf_congr options labels
  · intro root others
    have document : (nodeRole tree 0).kind = .document := by
      rw [kind_nodeRole root, StatementKind.ofProduction_eq_document_iff]
    refine ⟨markupOf options tree, ?_, ?_⟩
    · intro c member expression alone excerpt
      apply hasBody_of_isExcerpt options excerpt
      obtain ⟨name, label⟩ := Tree.label_of_isExpression expression
      rw [kind_nodeRole label]
      intro kind
      obtain rfl := StatementKind.ofProduction_eq_document_iff.mp kind
      exact others c member label
    · have whole := hasBody_of_document sound options document
      rwa [flatMap_markupOf options sound fun c => sound.links.children_inside] at whole

/-- A statement in the body of a loop, which asks for what its keywords must not reach. -/
def loopExport : String :=
  "\n+--<program>\n|  +--<REPEAT>\n|  |  +--<END>\n|  |  |  +--END\n"

def loopTree : Tree :=
  ⟨#[⟨0, "<program>", none, .expression [1]⟩, ⟨1, "<REPEAT>", some 0, .expression [2]⟩,
    ⟨2, "<END>", some 1, .expression [3]⟩, ⟨3, "END", some 2, .terminal⟩]⟩

theorem context_independence_loop : Export.parse loopExport = .ok loopTree ∧
    (build loopTree).Drawn 2 ∧
      (build loopTree).rowsAt (.standard ⟨2000, 1, 1⟩) 2 =
        leafRows "instruction" "END" Color.white ∧
      HasBody (.standard ⟨2000, 1, 1⟩) (loopTree.excerpt 2)
        (leafRows "instruction" "END" Color.white) ∧
      ∃ body : NodeId → List String,
        HasBody (.standard ⟨2000, 1, 1⟩) (loopTree.excerpt 1) (body 1) ∧
          HasBody (.standard ⟨2000, 1, 1⟩) loopTree (body 1) := by
  have parsed : Export.parse loopExport = .ok loopTree := by decide +kernel
  have grown := Export.parse_isGrown parsed
  have drawn : (build loopTree).Drawn 2 := by
    have outer : (build loopTree).Draws 0 1 := by decide +kernel
    have inner : (build loopTree).Draws 1 2 := by decide +kernel
    exact .tail (.tail .refl outer) inner
  have rows : (build loopTree).rowsAt (.standard ⟨2000, 1, 1⟩) 2 =
      leafRows "instruction" "END" Color.white := by decide +kernel
  have alone : ∀ n < loopTree.size, (loopTree.excerpt n).IsExcerpt loopTree n :=
    fun n inside => Tree.excerpt_isExcerpt grown.sound inside
  obtain ⟨statements, document⟩ := context_independence grown (.standard ⟨2000, 1, 1⟩)
  obtain ⟨-, -, converted, -⟩ :=
    statements 2 2 "END" (by decide +kernel) (by decide) (by decide +kernel) drawn
  obtain ⟨body, each, whole⟩ := document (by decide +kernel) (by decide +kernel)
  refine ⟨parsed, drawn, rows, rows ▸ converted _ (alone 2 (by decide)), body, ?_, ?_⟩
  · exact each 1 (by decide +kernel) (by decide +kernel) _ (alone 1 (by decide))
  · have only : (loopTree.children 0).filter (fun c => (loopTree.bare c).isExpression) = [1] := by
      decide +kernel
    rwa [only, List.flatMap_singleton] at whole

end NassiChart.Diagram
