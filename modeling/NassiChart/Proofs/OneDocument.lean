import NassiChart.Convert
import NassiChart.Proofs.Context
import NassiChart.Proofs.Surface

/-! # One document in a text

A text is one document if it starts with a declaration and holds no other one, and if one root
encloses everything else.  Documents are drawn with a declaration and a root of their own wherever
they stand, so what is rendered is one document if no document is drawn inside of the outermost one,
and only then.
-/

namespace NassiChart.Document

open NassiChart.Grammar NassiChart.Diagram

/-- Some element, at whatever depth, is a root. -/
def HasRoot (elements : List Element) : Prop :=
  ∃ tag ∈ Rose.preorderAll elements, tag.name = "root"

theorem hasRoot_nil : ¬ HasRoot [] := by
  rintro ⟨tag, member, -⟩
  cases member

theorem hasRoot_append {first second : List Element} :
    HasRoot (first ++ second) ↔ HasRoot first ∨ HasRoot second := by
  simp only [HasRoot, Rose.preorderAll_eq_flatMap, List.flatMap_append, List.mem_append, or_and_right,
    exists_or]

theorem hasRoot_node {tag : Tag} {inner : List Element} :
    HasRoot [.node tag inner] ↔ tag.name = "root" ∨ HasRoot inner := by
  simp [HasRoot, Rose.preorderAll, Rose.preorder]

theorem hasRoot_wrapper {name : String} (other : name ≠ "root") {inner : List Element} :
    HasRoot [wrapper name inner] ↔ HasRoot inner := by
  rw [wrapper, hasRoot_node]
  exact or_iff_right other

theorem hasRoot_flatten {parts : List (List Element)} :
    HasRoot parts.flatten ↔ ∃ part ∈ parts, HasRoot part := by
  induction parts with
  | nil => simp [hasRoot_nil]
  | cons part parts ih => simp [hasRoot_append, ih]

theorem not_hasRoot_leaf {name text : String} (other : name ≠ "root") (color : Color) :
    ¬ HasRoot [leaf name text color] := by
  rw [leaf, hasRoot_node, not_or]
  exact ⟨other, hasRoot_nil⟩

theorem not_hasRoot_missing (arm : StatementKind) {name : String} (other : name ≠ "root")
    (arms : List StatementKind) : ¬ HasRoot (missing arm name arms) := by
  unfold missing
  split
  · exact hasRoot_nil
  · rw [hasRoot_wrapper other]
    exact hasRoot_nil

/-- A statement draws a root if it is a document or draws a child that does. -/
theorem hasRoot_statementElements (options : Options) (statement : Statement)
    (kinds : List StatementKind) (parts : List (List Element)) :
    HasRoot (statementElements options statement kinds parts) ↔
      statement.kind = .document ∨ HasRoot (statement.drawnAmong parts).flatten := by
  have leaves : ∀ {name text color}, name ≠ "root" →
      (HasRoot [leaf name text color] ↔ HasRoot []) :=
    fun other => iff_of_false (not_hasRoot_leaf other _) hasRoot_nil
  unfold statementElements Statement.drawnAmong StatementKind.extent
  cases statement.kind with
  | document => simp [hasRoot_node]
  | jump scope => cases scope <;> simp [leaves]
  | whileLoop subject => cases subject <;> simp [hasRoot_node, hasRoot_wrapper]
  | alternative =>
      simp [hasRoot_node, hasRoot_append, not_hasRoot_missing]
  | _ => simp [hasRoot_node, hasRoot_wrapper, leaves]

/-- A statement draws a root if a document is reached from it. -/
theorem hasRoot_elementsAt {diagram : Diagram} (linked : diagram.Linked) (options : Options)
    {id : Nat} (inside : id < diagram.size) : HasRoot (elementsAt options diagram id) ↔
      ∃ j, diagram.DrawnFrom id j ∧ (diagram.role j).kind = .document := by
  refine linked.upwards (motive := fun id => HasRoot (elementsAt options diagram id) ↔
    ∃ j, diagram.DrawnFrom id j ∧ (diagram.role j).kind = .document) ?_ id inside
  intro id inside ih
  have below : HasRoot ((diagram.statement id).drawnAmong
      ((diagram.children id).map (elementsAt options diagram))).flatten ↔
        ∃ child, diagram.Draws id child ∧
          ∃ j, diagram.DrawnFrom child j ∧ (diagram.role j).kind = .document := by
    rw [Statement.drawnAmong_map, hasRoot_flatten]
    constructor
    · rintro ⟨part, member, root⟩
      obtain ⟨child, draws, rfl⟩ := List.mem_map.mp member
      exact ⟨child, draws, (ih child (Draws.mem_children draws)).mp root⟩
    · rintro ⟨child, draws, root⟩
      exact ⟨_, List.mem_map_of_mem draws, (ih child draws.mem_children).mpr root⟩
  rw [elementsAt_eq linked options inside, hasRoot_statementElements, below]
  constructor
  · rintro (document | ⟨child, draws, j, drawn, document⟩)
    · exact ⟨id, .refl, document⟩
    · exact ⟨j, .head draws drawn, document⟩
  · rintro ⟨j, drawn, document⟩
    cases Relation.ReflTransGen.cases_head drawn with
    | inl same => exact .inl (same ▸ document)
    | inr step =>
        obtain ⟨child, draws, drawn⟩ := step
        exact .inr ⟨child, draws, j, drawn, document⟩

mutual
theorem count_declarations (element : Element) :
    (tokensOf element).count .declaration = element.preorder.countP (·.name = "root") := by
  cases element with
  | node tag inner =>
      rw [tokensOf, Rose.preorder, List.countP_cons, List.count_append, List.count_cons,
        List.count_append, count_declarationsAll inner]
      by_cases root : tag.name = "root" <;> simp [root, Nat.add_comm]
theorem count_declarationsAll (elements : List Element) :
    (tokensOfAll elements).count .declaration =
      (Rose.preorderAll elements).countP (·.name = "root") := by
  cases elements with
  | nil => rfl
  | cons element more =>
      rw [tokensOfAll, Rose.preorderAll, List.count_append, List.countP_append,
        count_declarations element, count_declarationsAll more]
end

/-- The text is a document with one declaration, its first line, and one root around all else. -/
structure IsOneDocument (text : String) : Prop where
  first : declaration.toList ++ ['\n'] <+: text.toList
  once : ∃ tokens, scan .between text.toList = some (.between, tokens) ∧
    tokens.count .declaration = 1
  enclosed : ∃ attributes inner,
    readElements (Text.bytes text) = some [.node ⟨"root", attributes⟩ inner] ∧ ¬ HasRoot inner

theorem ReadsAs.readElements {text : String} {rows : List String} {elements : List Element}
    (written : text.toList = markup rows) (reads : ReadsAs rows elements) :
    Document.readElements (Text.bytes text) = some elements := by
  have nested := nest_tokensOfAll elements [] [] []
  rw [List.append_nil] at nested
  rw [ReadsAs, ← written] at reads
  simp [Document.readElements, reads, nested, nest]

/-- A diagram whose root is a document is drawn as one root. -/
theorem elementsAt_root (options : Options) (tree : Tree) :
    elementsAt options (build tree) 0 = [.node ⟨"root", rootEntries options⟩ [wrapper "children"
      (((build tree).children 0).map (elementsAt options (build tree))).flatten]] := by
  have document := kind_statement_root tree
  rw [elementsAt_eq (build_linked tree) options (build_nonempty tree), statementElements, document]

theorem hasRoot_children (options : Options) (tree : Tree) :
    HasRoot (((build tree).children 0).map (elementsAt options (build tree))).flatten ↔
      ∃ id, (build tree).Drawn id ∧ id ≠ 0 ∧ ((build tree).role id).kind = .document := by
  have linked := build_linked tree
  have inside : ∀ {child}, child ∈ (build tree).children 0 → child < (build tree).size :=
    linked.children_inside
  have document := kind_statement_root tree
  have drawn : ((build tree).statement 0).drawn = (build tree).children 0 := by
    rw [Statement.drawn, Statement.drawnAmong, document]
    rfl
  rw [hasRoot_flatten]
  constructor
  · rintro ⟨part, member, root⟩
    obtain ⟨child, listed, rfl⟩ := List.mem_map.mp member
    obtain ⟨id, below, nested⟩ := (hasRoot_elementsAt linked options (inside listed)).mp root
    have draws : (build tree).Draws 0 child := by rwa [Draws, drawn]
    obtain ⟨reached, later⟩ := (drawn_and_ne_zero_iff linked).mpr ⟨child, draws, below⟩
    exact ⟨id, reached, later, nested⟩
  · rintro ⟨id, reached, later, nested⟩
    obtain ⟨child, draws, below⟩ := (drawn_and_ne_zero_iff linked).mp ⟨reached, later⟩
    have listed := draws.mem_children
    exact ⟨_, List.mem_map_of_mem listed,
      (hasRoot_elementsAt linked options (inside listed)).mpr ⟨id, below, nested⟩⟩

theorem declaration_prefix_render (options : Options) (tree : Tree) :
    declaration.toList ++ ['\n'] <+: (render options (build tree)).toList := by
  have linked := build_linked tree
  have document := kind_statement_root tree
  have rows : rows options (build tree).view = (build tree).rowsAt options 0 := rfl
  rw [toList_render, rows, rowsAt_eq linked options (build_nonempty tree), statementRows, document]
  exact List.prefix_append _ _

/-- A diagram is rendered as one document unless a document is drawn inside of another. -/
theorem isOneDocument_render_iff (options : Options) (tree : Tree) :
    IsOneDocument (render options (build tree)) ↔
      ∀ id, (build tree).Drawn id → id ≠ 0 → ((build tree).role id).kind ≠ .document := by
  have reads : ReadsAs (rows options (build tree).view) (elementsAt options (build tree) 0) :=
    readsAs_rows options (build tree).view
  have nested := hasRoot_children options tree
  rw [elementsAt_root] at reads
  generalize (((build tree).children 0).map (elementsAt options (build tree))).flatten = inner
    at reads nested
  have read := reads.readElements (toList_render options (build tree))
  have single : IsOneDocument (render options (build tree)) ↔ ¬ HasRoot inner := by
    constructor
    · rintro ⟨-, -, attributes, content, same, single⟩
      rw [read, Option.some.injEq, List.singleton_inj, Rose.node.injEq] at same
      rw [← same.2, hasRoot_wrapper (by decide)] at single
      exact single
    · intro single
      rw [ReadsAs, ← toList_render] at reads
      refine ⟨declaration_prefix_render options tree, ⟨_, reads, ?_⟩, rootEntries options, _,
        read, ?_⟩
      · have none : (Rose.preorderAll inner).countP (·.name = "root") = 0 := by
          rw [List.countP_eq_zero]
          intro tag member root
          exact single ⟨tag, member, of_decide_eq_true root⟩
        simp [count_declarationsAll, Rose.preorderAll, Rose.preorder, wrapper, none]
      · rwa [hasRoot_wrapper (by decide)]
  rw [single, nested]
  simp only [not_exists, not_and, ne_eq]

/-- An export is converted to one document if no `program` is drawn below another production, and
only then. -/
theorem one_document_iff {options : Options} {source text : String}
    (converted : convert options source = .ok text) :
    ∃ tree, Export.parse source = .ok tree ∧ (IsOneDocument text ↔
      ∀ id, (build tree).Drawn id → id ≠ 0 →
        ((build tree).role id).label ≠ .production "program") := by
  cases parsed : Export.parse source with
  | error error =>
      rw [convert, parsed] at converted
      cases converted
  | ok tree =>
      have sound := (Export.parse_isGrown parsed).sound
      obtain rfl : render options (build tree) = text := by
        rw [convert_of_parse parsed] at converted
        exact Except.ok.inj converted
      refine ⟨tree, rfl, ?_⟩
      rw [isOneDocument_render_iff]
      refine forall_congr' fun id => forall_congr' fun drawn => forall_congr' fun later => not_congr ?_
      have inside := DrawnFrom.inside (build_linked tree) (build_nonempty tree) drawn
      rw [kind_role_build sound inside later, StatementKind.ofLabel_eq_document_iff]

def plainExport : String :=
  "\n+--<program>\n|  +--<END>\n|  |  +--END\n"

theorem one_document_plain :
    ∃ text, convert (.standard ⟨2000, 1, 1⟩) plainExport = .ok text ∧ IsOneDocument text := by
  let tree : Tree := ⟨#[⟨0, "<program>", none, .expression [1]⟩,
    ⟨1, "<END>", some 0, .expression [2]⟩, ⟨2, "END", some 1, .terminal⟩]⟩
  have parsed : Export.parse plainExport = .ok tree := by decide +kernel
  have converted : convert (.standard ⟨2000, 1, 1⟩) plainExport = .ok _ := convert_of_parse parsed
  obtain ⟨other, again, one⟩ := one_document_iff converted
  obtain rfl : tree = other := Except.ok.inj (parsed.symm.trans again)
  refine ⟨_, converted, one.mpr fun id drawn later => ?_⟩
  have inside := DrawnFrom.inside (build_linked tree) (build_nonempty tree) drawn
  have size : (build tree).size = 3 := by decide +kernel
  have labels : ∀ id < 3, id ≠ 0 → ((build tree).role id).label ≠ .production "program" := by
    decide +kernel
  exact labels id (size ▸ inside) later

/-- A program inside of a program. -/
def nestedExport : String :=
  "\n+--<program>\n|  +--<program>\n|  |  +--<END>\n|  |  |  +--END\n"

theorem not_one_document_nested :
    ∃ text, convert (.standard ⟨2000, 1, 1⟩) nestedExport = .ok text ∧ ¬ IsOneDocument text := by
  let tree : Tree := ⟨#[⟨0, "<program>", none, .expression [1]⟩,
    ⟨1, "<program>", some 0, .expression [2]⟩, ⟨2, "<END>", some 1, .expression [3]⟩,
    ⟨3, "END", some 2, .terminal⟩]⟩
  have parsed : Export.parse nestedExport = .ok tree := by decide +kernel
  refine ⟨_, convert_of_parse parsed, fun one => ?_⟩
  have draws : (build tree).Draws 0 1 := by decide +kernel
  have document : ((build tree).role 1).kind = .document := by decide +kernel
  exact (isOneDocument_render_iff _ tree).mp one 1 (.tail .refl draws) (by decide) document

end NassiChart.Document
