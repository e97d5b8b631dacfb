import NassiChart.Export.Reader
import NassiChart.Proofs.EmittedParts
import NassiChart.Proofs.Surface
import NassiChart.Proofs.TextsKept

/-! # The bodies of loops

The body of a loop starts at the child that is named as one, or else at the last child.  A loop that
closes with a keyword and does not name its body therefore takes the keyword for its body, and what
is in front of it for the header.  `loop_body` says what is drawn in either case.
-/

namespace NassiChart.Diagram

open NassiChart.Grammar NassiChart.Document

/-- The texts of the tokens at or below a statement. -/
def written (diagram : Diagram) (id : StatementId) : List String :=
  (diagram.below id).preorder.filterMap fun inner => (diagram.role inner).text?

/-- There is no statement in it, only tokens and productions that are passed through. -/
def IsHeading (diagram : Diagram) (id : StatementId) : Prop :=
  ∀ inner ∈ (diagram.below id).preorder,
    (diagram.role inner).kind = .token ∨ (diagram.role inner).kind = .passThrough

instance (diagram : Diagram) (id : StatementId) : Decidable (diagram.IsHeading id) :=
  inferInstanceAs (Decidable (∀ inner ∈ _, _))

variable {diagram : Diagram} {id : Nat}

theorem written_eq (linked : diagram.Linked) (inside : id < diagram.size) :
    diagram.written id =
      (diagram.role id).text?.toList ++ (diagram.children id).flatMap diagram.written := by
  rw [written, preorder_below linked inside, List.filterMap_cons, List.filterMap_flatMap]
  cases (diagram.role id).text? <;> rfl

theorem IsHeading.child (linked : diagram.Linked) (inside : id < diagram.size)
    (heading : diagram.IsHeading id) {child : Nat} (member : child ∈ diagram.children id) :
    diagram.IsHeading child := by
  intro inner listed
  apply heading inner
  rw [preorder_below linked inside]
  exact List.mem_cons_of_mem _ (List.mem_flatMap.mpr ⟨child, member, listed⟩)

theorem IsHeading.kind (linked : diagram.Linked) (inside : id < diagram.size)
    (heading : diagram.IsHeading id) :
    (diagram.role id).kind = .token ∨ (diagram.role id).kind = .passThrough := by
  apply heading id
  rw [preorder_below linked inside]
  exact List.mem_cons_self

/-- A heading emits its tokens, for the field that it is asked for. -/
theorem emit_of_isHeading (linked : diagram.Linked)
    (childless : ∀ id, (diagram.role id).kind = .token → diagram.children id = [])
    (inside : id < diagram.size) (heading : diagram.IsHeading id) (field : Field) :
    emit (diagram.rolesAt id) field = entriesFor field (diagram.written id) := by
  refine linked.upwards (motive := fun id => diagram.IsHeading id →
    emit (diagram.rolesAt id) field = entriesFor field (diagram.written id)) ?_ id inside heading
  intro id inside ih heading
  rw [written_eq linked inside]
  cases heading.kind linked inside with
  | inl token =>
      rw [emit_of_token linked inside token (childless id token), childless id token,
        List.flatMap_nil, List.append_nil]
  | inr passed =>
      have noText : (diagram.role id).text? = none := Role.text?_of_ne (by simp [passed])
      rw [emit_of_passThrough linked inside passed, noText, Option.toList_none, List.nil_append,
        entriesFor, List.map_flatMap]
      exact List.flatMap_congr fun child member =>
        ih child member (heading.child linked inside member)

/-- The children of a loop: a header, one child for the body, and closing keywords. -/
structure LoopParts (diagram : Diagram) (id : StatementId) (headers : List StatementId)
    (body : StatementId) (closers : List StatementId) : Prop where
  children : diagram.children id = headers ++ body :: closers
  heading : ∀ header ∈ headers, diagram.IsHeading header
  unnamed : ∀ header ∈ headers, (diagram.role header).holdsLoop = false
  closing : ∀ closer ∈ closers, (diagram.role closer).kind = .token

/-- The body is found: it is named as one, or nothing follows it. -/
def FindsBody (diagram : Diagram) (body : StatementId) (closers : List StatementId) : Prop :=
  (diagram.role body).holdsLoop = true ∨ closers = []

instance (diagram : Diagram) (body : StatementId) (closers : List StatementId) :
    Decidable (diagram.FindsBody body closers) :=
  inferInstanceAs (Decidable (_ ∨ _))

variable {headers closers : List Nat} {body : Nat} {subject : LoopSubject}

theorem LoopParts.body_mem (parts : diagram.LoopParts id headers body closers) :
    body ∈ diagram.children id := by
  rw [parts.children]
  exact List.mem_append_right _ List.mem_cons_self

/-- The body of a loop starts where it is named, or else at the last child. -/
theorem LoopParts.bodyFrom (parts : diagram.LoopParts id headers body closers)
    (kind : (diagram.role id).kind = .whileLoop subject)
    (tokens : ∀ closer ∈ closers, (diagram.role closer).holdsLoop = false) :
    (diagram.role id).bodyFrom (diagram.childRoles id) =
      if (diagram.role body).holdsLoop then headers.length
      else headers.length + closers.length := by
  have front : headers.findIdx? (Role.holdsLoop ∘ diagram.role) = none :=
    List.findIdx?_eq_none_iff.mpr parts.unnamed
  have back : closers.findIdx? (Role.holdsLoop ∘ diagram.role) = none :=
    List.findIdx?_eq_none_iff.mpr tokens
  simp only [Role.bodyFrom, kind, childRoles, List.findIdx?_map, parts.children,
    List.findIdx?_append, front, List.findIdx?_cons, back, Function.comp_apply, List.length_map,
    List.length_append, List.length_cons]
  split <;> simp

/-- What a loop draws is its body, or nothing if it takes a closing keyword for it. -/
theorem LoopParts.elements (linked : diagram.Linked) (options : Options)
    (parts : diagram.LoopParts id headers body closers)
    (tokens : ∀ closer ∈ closers, (diagram.role closer).holdsLoop = false)
    (kind : (diagram.role id).kind = .whileLoop subject) :
    ((diagram.children id).drop ((diagram.role id).bodyFrom (diagram.childRoles id))).flatMap
        (elementsAt options diagram) =
      if diagram.FindsBody body closers then elementsAt options diagram body else [] := by
  have listed : ∀ closer ∈ closers, closer ∈ diagram.children id := by
    intro closer member
    rw [parts.children]
    exact List.mem_append_right _ (List.mem_cons_of_mem _ member)
  have nothing : ∀ rest : List Nat, rest.Sublist closers →
      rest.flatMap (elementsAt options diagram) = [] := by
    intro rest part
    refine List.flatMap_eq_nil_iff.mpr fun closer member => ?_
    have listed := listed closer (part.subset member)
    have token : (diagram.statement closer).kind = .token :=
      parts.closing closer (part.subset member)
    rw [elementsAt_eq linked options (linked.children_inside listed), statementElements, token]
  rw [parts.bodyFrom kind tokens, parts.children]
  by_cases named : (diagram.role body).holdsLoop = true
  · have found : diagram.FindsBody body closers := .inl named
    rw [if_pos named, if_pos found, List.drop_left, List.flatMap_cons,
      nothing closers (List.Sublist.refl _), List.append_nil]
  · rw [if_neg named, List.drop_length_add_append]
    cases closers with
    | nil =>
        have found : diagram.FindsBody body [] := .inr rfl
        rw [if_pos found, List.length_nil, List.drop_zero, List.flatMap_singleton]
    | cons closer rest =>
        have missed : ¬ diagram.FindsBody body (closer :: rest) :=
          not_or_intro named (List.cons_ne_nil closer rest)
        rw [if_neg missed, List.length_cons, List.drop_succ_cons]
        exact nothing _ (List.drop_sublist _ _)

theorem Role.requests_of_whileLoop {role : Role} (kind : role.kind = .whileLoop subject)
    (field : Field) {children : List Role} (bound : role.bodyFrom children ≤ children.length) :
    role.requests field children = List.replicate (role.bodyFrom children) (some .instruction) ++
      List.replicate (children.length - role.bodyFrom children) (some .body) := by
  rw [replicate_append_replicate _ _ _ bound]
  apply List.ext_getElem
  · simp [requests]
  · intro index _ _
    simp only [requests, List.getElem_mapIdx, asks, kind]

/-- The texts that a loop shows are those of the children in front of its body. -/
theorem get_instruction_of_whileLoop (linked : diagram.Linked)
    (childless : ∀ id, (diagram.role id).kind = .token → diagram.children id = [])
    (inside : id < diagram.size) (kind : (diagram.role id).kind = .whileLoop subject)
    {field : Field} (filledFor : diagram.FilledFor id (some field)) {front back : List Nat}
    (split : diagram.children id = front ++ back)
    (start : (diagram.role id).bodyFrom (diagram.childRoles id) = front.length)
    (heading : ∀ header ∈ front, diagram.IsHeading header) :
    (diagram.statement id).buffers.get .instruction = front.flatMap diagram.written := by
  have own : Field.instruction ∈ (diagram.role id).kind.fields := by
    simp [kind, StatementKind.fields]
  have plain : (diagram.role id).kind ≠ .caseHeader .condition := by simp [kind]
  have count : (diagram.childRoles id).length = front.length + back.length := by
    rw [childRoles, List.length_map, split, List.length_append]
  have requests : (diagram.role id).requests field (diagram.childRoles id) =
      List.replicate front.length (some .instruction) ++
        List.replicate back.length (some .body) := by
    rw [Role.requests_of_whileLoop kind field (by omega), start, count, Nat.add_sub_cancel_left]
  have shown : (front.flatMap fun header => emit (diagram.rolesAt header) .instruction) =
      entriesFor .instruction (front.flatMap diagram.written) := by
    rw [entriesFor, List.map_flatMap]
    refine List.flatMap_congr fun header member => ?_
    have listed : header ∈ diagram.children id := split ▸ List.mem_append_left back member
    exact emit_of_isHeading linked childless (linked.children_inside listed)
      (heading header member) .instruction
  have hidden : (back.flatMap fun child => emit (diagram.rolesAt child) .body).filter
      (·.1 = .instruction) = [] := by
    rw [List.filter_eq_nil_iff]
    intro entry member instruction
    obtain ⟨child, -, emitted⟩ := List.mem_flatMap.mp member
    have asked := emit_field _ emitted
    rw [of_decide_eq_true instruction] at asked
    simp at asked
  rw [filledFor.buffers linked inside, get_collected own,
    arrivalsAt_of_requests plain split requests, shown, List.filter_append, hidden,
    List.append_nil, texts_entriesFor, if_pos rfl]

theorem elementsAt_of_whileLoop (linked : diagram.Linked) (options : Options)
    (inside : id < diagram.size) (kind : (diagram.role id).kind = .whileLoop subject) :
    elementsAt options diagram id = [.node ⟨"while", described
        (diagram.joined id .instruction) "" (loopColor options.palette subject)⟩
      [wrapper "qWhile" (((diagram.children id).drop (diagram.statement id).bodyStart).flatMap
        (elementsAt options diagram))]] := by
  have same : (diagram.statement id).kind = .whileLoop subject := kind
  rw [elementsAt_eq linked options inside, statementElements, same]
  cases subject <;> rw [← List.map_drop, ← List.flatMap_def] <;> rfl

theorem loop_element {tree : Tree} (options : Options) {id : Nat} (drawn : (build tree).Drawn id)
    (kind : ((build tree).role id).kind = .whileLoop subject)
    (parts : (build tree).LoopParts id headers body closers) :
    ∃ inner,
      elementsAt options (build tree) id = [.node ⟨"while", described
          ((build tree).joined id .instruction) "" (loopColor options.palette subject)⟩
        [wrapper "qWhile" inner]] ∧
      ((build tree).FindsBody body closers →
        (build tree).joined id .instruction =
          " ".intercalate (headers.flatMap (build tree).written) ∧
        inner = ((build tree).surface body).flatMap (elementsAt options (build tree))) ∧
      (¬ (build tree).FindsBody body closers → inner = []) := by
  have linked := build_linked tree
  have nonempty := build_nonempty tree
  have inside := DrawnFrom.inside linked nonempty drawn
  have childless := children_build_of_token tree
  have tokens : ∀ closer ∈ closers, ((build tree).role closer).holdsLoop = false := by
    intro closer member
    have token := parts.closing closer member
    rw [role_build] at token ⊢
    obtain ⟨text, label⟩ := label_of_token tree token
    simp [Role.holdsLoop, label]
  have notToken : ((build tree).role id).kind ≠ .token := by
    rw [kind]
    exact StatementKind.noConfusion
  obtain ⟨field, -, filledFor⟩ := drawn.filledFor linked nonempty (build_filledFor tree) notToken
  have element := elementsAt_of_whileLoop linked options inside kind
  rw [filledFor.bodyStart linked inside, parts.elements linked options tokens kind] at element
  refine ⟨_, element, fun found => ⟨?_, ?_⟩, fun missed => if_neg missed⟩
  · have front : ((build tree).role id).bodyFrom ((build tree).childRoles id) = headers.length := by
      rw [parts.bodyFrom kind tokens]
      rcases found with named | rfl
      · exact if_pos named
      · exact ite_self _
    rw [joined, Buffers.joined, get_instruction_of_whileLoop linked childless inside kind filledFor
      parts.children front parts.heading]
  · rw [if_pos found,
      elementsAt_eq_surface linked options (linked.children_inside parts.body_mem)]

/-- For every drawn loop with a header, one child for the body, and closing keywords: if the body is
named as one, or nothing follows it, then the loop shows the tokens of the header and holds the
statements of the body, each once and in the order of the document.  If it is not named and a
keyword follows, then the loop holds nothing. -/
theorem loop_body (tree : Tree) (options : Options) {id : Nat} (drawn : (build tree).Drawn id)
    {subject : LoopSubject} (kind : ((build tree).role id).kind = .whileLoop subject)
    {headers : List StatementId} {body : StatementId} {closers : List StatementId}
    (parts : (build tree).LoopParts id headers body closers) :
    (build tree).rowsAt options id <:+: rows options (build tree).view ∧
    ((build tree).surface body).Nodup ∧
    ((build tree).surface body).Sublist ((build tree).below body).preorder ∧
    ∃ shown inner,
      ReadsAs ((build tree).rowsAt options id)
        [.node ⟨"while", described shown "" (loopColor options.palette subject)⟩
          [wrapper "qWhile" inner]] ∧
      ((build tree).FindsBody body closers →
        shown = " ".intercalate (headers.flatMap (build tree).written) ∧
        inner = ((build tree).surface body).flatMap (elementsAt options (build tree))) ∧
      (¬ (build tree).FindsBody body closers → inner = []) := by
  have linked := build_linked tree
  have bodyInside := linked.children_inside parts.body_mem
  obtain ⟨inner, element, found, missed⟩ := loop_element options drawn kind parts
  have reads := readsAs_rowsAt options (build tree) id
  rw [element] at reads
  exact ⟨drawn.rowsAt_infix linked (build_nonempty tree) options, surface_nodup linked bodyInside,
    surface_sublist linked bodyInside, _, inner, reads, found, missed⟩

/-- A loop with a named body and a closing keyword. -/
def namedBodyExport : String :=
  "\n+--<READ>\n|  +--READ\n|  +--<view>\n|  |  +--EMPLOYEES\n" ++
    "|  +--<loop_statement_list>\n|  |  +--<END>\n|  |  |  +--END\n|  +--END-READ\n"

theorem loop_body_named : ∃ tree, Export.parse namedBodyExport = .ok tree ∧
    ReadsAs ((build tree).rowsAt (.standard ⟨2000, 1, 1⟩) 1)
      [.node ⟨"while", described "READ EMPLOYEES" "" Palette.standard.database⟩
        [wrapper "qWhile" (elementsAt (.standard ⟨2000, 1, 1⟩) (build tree) 6)]] := by
  let tree : Tree := ⟨#[⟨0, "<READ>", none, .expression [1, 2, 4, 7]⟩,
    ⟨1, "READ", some 0, .terminal⟩,
    ⟨1, "<view>", some 0, .expression [3]⟩, ⟨2, "EMPLOYEES", some 2, .terminal⟩,
    ⟨1, "<loop_statement_list>", some 0, .expression [5]⟩, ⟨2, "<END>", some 4, .expression [6]⟩,
    ⟨3, "END", some 5, .terminal⟩, ⟨1, "END-READ", some 0, .terminal⟩]⟩
  have parsed : Export.parse namedBodyExport = .ok tree := by decide +kernel
  have draws : (build tree).Draws 0 1 := by decide +kernel
  have kind : ((build tree).role 1).kind = .whileLoop .database := by decide +kernel
  have parts : (build tree).LoopParts 1 [2, 3] 4 [5] := by
    constructor <;> decide +kernel
  obtain ⟨-, -, -, shown, inner, reads, found, -⟩ :=
    loop_body tree (.standard ⟨2000, 1, 1⟩) (.tail .refl draws) kind parts
  have texts : " ".intercalate ([2, 3].flatMap (build tree).written) = "READ EMPLOYEES" := by
    decide +kernel
  have statements : (build tree).surface 4 = [6] := by decide +kernel
  obtain ⟨header, rest⟩ := found (by decide +kernel)
  rw [texts] at header
  rw [statements, List.flatMap_singleton] at rest
  rw [header, rest] at reads
  exact ⟨tree, parsed, reads⟩

/-- A loop whose body has another name, holds a keyword, and is followed by a closing keyword. -/
def unnamedBodyExport : String :=
  "\n+--<DEFINE_SUBROUTINE>\n|  +--DEFINE\n|  +--SUBROUTINE\n|  +--INIT\n" ++
    "|  +--<statement_list>\n|  |  +--<END>\n|  |  |  +--END\n|  |  +--LOOP\n" ++
    "|  +--END-SUBROUTINE\n"

/-- The closing keyword is taken for the body: the statements of the loop are lost, and the keyword
in the body is shown in the header. -/
theorem loop_body_lost : ∃ tree, Export.parse unnamedBodyExport = .ok tree ∧
    (build tree).Drawn 1 ∧ ((build tree).role 1).kind = .whileLoop .conditional ∧
    (build tree).LoopParts 1 [2, 3, 4] 5 [6] ∧
    " ".intercalate ([2, 3, 4].flatMap (build tree).written) = "DEFINE SUBROUTINE INIT" ∧
    (build tree).surface 5 = [7, 8] ∧ ((build tree).role 7).kind = .instruction ∧
    elementsAt (.standard ⟨2000, 1, 1⟩) (build tree) 1 =
      [.node ⟨"while", described "DEFINE SUBROUTINE INIT LOOP" "" Palette.standard.ordinary⟩
        [wrapper "qWhile" []]] := by
  let tree : Tree := ⟨#[⟨0, "<DEFINE_SUBROUTINE>", none, .expression [1, 2, 3, 4, 8]⟩,
    ⟨1, "DEFINE", some 0, .terminal⟩, ⟨1, "SUBROUTINE", some 0, .terminal⟩,
    ⟨1, "INIT", some 0, .terminal⟩, ⟨1, "<statement_list>", some 0, .expression [5, 7]⟩,
    ⟨2, "<END>", some 4, .expression [6]⟩, ⟨3, "END", some 5, .terminal⟩,
    ⟨2, "LOOP", some 4, .terminal⟩, ⟨1, "END-SUBROUTINE", some 0, .terminal⟩]⟩
  have parsed : Export.parse unnamedBodyExport = .ok tree := by decide +kernel
  have draws : (build tree).Draws 0 1 := by decide +kernel
  have drawn : (build tree).Drawn 1 := .tail .refl draws
  have kind : ((build tree).role 1).kind = .whileLoop .conditional := by decide +kernel
  have parts : (build tree).LoopParts 1 [2, 3, 4] 5 [6] := by
    constructor <;> decide +kernel
  obtain ⟨inner, element, -, missed⟩ := loop_element (.standard ⟨2000, 1, 1⟩) drawn kind parts
  have header : (build tree).joined 1 .instruction = "DEFINE SUBROUTINE INIT LOOP" := by
    decide +kernel
  rw [header, missed (by decide +kernel)] at element
  exact ⟨tree, parsed, drawn, kind, parts, by decide +kernel, by decide +kernel,
    by decide +kernel, element⟩

end NassiChart.Diagram
