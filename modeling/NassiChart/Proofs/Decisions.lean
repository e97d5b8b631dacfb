import NassiChart.Export.Reader
import NassiChart.Proofs.BodyText
import NassiChart.Proofs.CommaLines
import NassiChart.Proofs.Surface

/-! # What the entries of a decision describe

An arm belongs to the nearest decision above it: there its condition becomes an entry.  Its `qCase`
element is found in that of the decision if nothing but productions that are passed through lie in
between.  Where this holds of all arms of a decision, both the entries (`conditionTexts_emit`) and
the elements (`qCaseElements_elementsAt`) of a subtree are those of the arms in it, in the order of
the document; so each entry describes the element at its position (`entries_describe_arms`).
-/

namespace NassiChart.Diagram

open NassiChart.Grammar NassiChart.Document

/-- The nearest statement above whose kind passes a test. -/
def nearest? (diagram : Diagram) (test : StatementKind → Bool) (id : StatementId) :
    Option StatementId :=
  (diagram.ancestors id).tail.find? fun above => test (diagram.role above).kind

/-- The nearest statement above that is not passed through. -/
def holder? (diagram : Diagram) (id : StatementId) : Option StatementId :=
  diagram.nearest? (· != .passThrough) id

/-- The nearest decision above. -/
def header? (diagram : Diagram) (id : StatementId) : Option StatementId :=
  diagram.nearest? (·.isHeader) id

/-- The arms of a decision that lie at or below a statement, in the order of the document. -/
def armsWithin (diagram : Diagram) (header id : StatementId) : List StatementId :=
  (diagram.below id).preorder.filter fun arm =>
    (diagram.role arm).kind.isArm && diagram.header? arm == some header

/-- The arms of a decision, in the order of the document. -/
def armsAt (diagram : Diagram) (header : StatementId) : List StatementId :=
  diagram.armsWithin header header

/-- The arms of a decision lie in its body, with productions that are passed through in between and
nothing else. -/
def ArmsInBody (diagram : Diagram) (header : StatementId) : Prop :=
  ∀ arm < diagram.size, (diagram.role arm).kind.isArm = true →
    diagram.header? arm = some header → diagram.holder? arm = some header ∧
      ∃ child ∈ (diagram.children header).dropWhile
        fun child => !(diagram.role header).startsArms (diagram.role child),
        child ∈ diagram.ancestors arm

instance (diagram : Diagram) (header : StatementId) : Decidable (diagram.ArmsInBody header) :=
  inferInstanceAs (Decidable (∀ arm < diagram.size, _))

/-- Between a decision and its arms lie productions that are passed through and nothing else. -/
def ArmsHeld (diagram : Diagram) (header : StatementId) : Prop :=
  ∀ arm < diagram.size, (diagram.role arm).kind.isArm = true →
    diagram.header? arm = some header → diagram.holder? arm = some header

/-- The condition of an arm. -/
def condition (diagram : Diagram) (arm : StatementId) : String :=
  if (diagram.role arm).kind = .defaultArm then "NONE"
  else (diagram.statement arm).buffers.joined .condition

/-- What a decision selects on. -/
def selected (diagram : Diagram) (header : StatementId) : String :=
  if (diagram.role header).kind = .caseHeader .condition then "*"
  else (diagram.statement header).buffers.joined .control

/-- The element of an arm. -/
def armElement (options : Options) (diagram : Diagram) (arm : StatementId) : Element :=
  wrapper "qCase" (elementsBelow options diagram arm)

variable {diagram : Diagram} {header id : Nat}

theorem ArmsInBody.held (placed : diagram.ArmsInBody header) : diagram.ArmsHeld header :=
  fun arm inside isArm found => (placed arm inside isArm found).1

theorem ne_passThrough_of_isHeader {kind : StatementKind} (isHeader : kind.isHeader = true) :
    kind ≠ .passThrough := by
  rintro rfl
  cases isHeader

theorem isArm_of_isHeader {kind : StatementKind} (header : kind.isHeader = true) :
    kind.isArm = false := by
  cases kind <;> simp_all [StatementKind.isHeader, StatementKind.isArm]

theorem le_of_find?_eq_some {nodes : List Nat} (decreasing : nodes.Pairwise (· > ·))
    {test : Nat → Bool} {found other : Nat} (first : nodes.find? test = some found)
    (member : other ∈ nodes) (passes : test other = true) : other ≤ found := by
  obtain ⟨-, before, after, rfl, fails⟩ := List.find?_eq_some_iff_append.mp first
  rcases List.mem_append.mp member with early | late
  · have failed := fails other early
    rw [passes] at failed
    cases failed
  · rcases List.mem_cons.mp late with rfl | late
    · exact Nat.le_refl _
    · obtain ⟨smaller, -⟩ := List.pairwise_cons.mp (List.pairwise_append.mp decreasing).2.1
      exact Nat.le_of_lt (smaller other late)

/-- What lies strictly above a statement and passes the test is not below the nearest statement
that does. -/
theorem le_of_nearest? (linked : diagram.Linked) {test : StatementKind → Bool}
    {id other found : Nat} (nearest : diagram.nearest? test id = some found)
    (above : other ∈ (diagram.ancestors id).tail)
    (passes : test (diagram.role other).kind = true) : other ≤ found :=
  le_of_find?_eq_some (lineage_decreasing linked.down id).tail nearest above passes

theorem lt_of_nearest? (linked : diagram.Linked) {test : StatementKind → Bool}
    {id found : Nat} (nearest : diagram.nearest? test id = some found) : found < id :=
  lt_of_mem_tail_lineage linked.down (List.mem_of_find?_eq_some nearest)

theorem nearest?_child (linked : diagram.Linked) (test : StatementKind → Bool) {child : Nat}
    (member : child ∈ diagram.children id) : diagram.nearest? test child =
      if test (diagram.role id).kind = true then some id else diagram.nearest? test id := by
  have link := linked.mem_children.mp member
  rw [nearest?, ancestors, lineage_of_some linked.down link, List.tail_cons, lineage_eq_cons id,
    List.find?_cons]
  cases test (diagram.role id).kind <;> rfl

theorem armsWithin_eq (linked : diagram.Linked) (inside : id < diagram.size) :
    diagram.armsWithin header id =
      (if (diagram.role id).kind.isArm && diagram.header? id == some header then [id] else []) ++
        (diagram.children id).flatMap (diagram.armsWithin header) := by
  rw [armsWithin, preorder_below linked inside, List.filter_cons, List.filter_flatMap]
  split <;> rfl

theorem mem_armsWithin (linked : diagram.Linked) (inside : id < diagram.size) {arm : Nat}
    (member : arm ∈ diagram.armsWithin header id) :
    arm < diagram.size ∧ id ∈ diagram.ancestors arm ∧
      (diagram.role arm).kind.isArm = true ∧ diagram.header? arm = some header := by
  obtain ⟨listed, both⟩ := List.mem_filter.mp member
  obtain ⟨bound, above⟩ :=
    (linked.mem_preorder_unfold inside (Nat.le_add_right diagram.size id)).mp listed
  rw [Bool.and_eq_true, beq_iff_eq] at both
  exact ⟨bound, above, both⟩

theorem header?_child (linked : diagram.Linked) (other : (diagram.role id).kind.isHeader = false)
    {child : Nat} (member : child ∈ diagram.children id) :
    diagram.header? child = diagram.header? id := by
  rw [header?, nearest?_child linked _ member, other]
  rfl

/-- Below a statement that is not passed through, there is no arm of a decision above it. -/
theorem armsWithin_child (linked : diagram.Linked) (held : diagram.ArmsHeld header)
    (later : header < id) (other : (diagram.role id).kind ≠ .passThrough) {child : Nat}
    (member : child ∈ diagram.children id) : diagram.armsWithin header child = [] := by
  rw [List.eq_nil_iff_forall_not_mem]
  intro arm listed
  obtain ⟨bound, below, isArm, found⟩ :=
    mem_armsWithin linked (linked.children_inside member) listed
  have nearest := held arm bound isArm found
  have above := mem_tail_lineage linked.down (linked.mem_children.mp member) below
  have earlier := le_of_nearest? linked nearest above (bne_iff_ne.mpr other)
  omega

theorem armsWithin_of_ne (linked : diagram.Linked) (held : diagram.ArmsHeld header)
    (later : header < id) (inside : id < diagram.size)
    (other : (diagram.role id).kind ≠ .passThrough) : diagram.armsWithin header id =
      if (diagram.role id).kind.isArm && diagram.header? id == some header then [id] else [] := by
  have below : (diagram.children id).flatMap (diagram.armsWithin header) = [] :=
    List.flatMap_eq_nil_iff.mpr fun child member =>
      armsWithin_child linked held later other member
  rw [armsWithin_eq linked inside, below, List.append_nil]

theorem armsWithin_of_passThrough (linked : diagram.Linked) (inside : id < diagram.size)
    (passed : (diagram.role id).kind = .passThrough) : diagram.armsWithin header id =
      (diagram.children id).flatMap (diagram.armsWithin header) := by
  rw [armsWithin_eq linked inside, passed]
  rfl

/-- The conditions of arms among some entries. -/
def conditionTexts (entries : List Entry) : List String :=
  (entries.filter (·.1 = .branches)).map (·.2)

theorem conditionTexts_append (first second : List Entry) :
    conditionTexts (first ++ second) = conditionTexts first ++ conditionTexts second := by
  rw [conditionTexts, List.filter_append, List.map_append]
  rfl

theorem conditionTexts_arrivals (role : Role) (children : List Role) (parts : List (List Entry)) :
    conditionTexts (arrivals role children parts) = conditionTexts parts.flatten := by
  unfold arrivals
  split
  · have whole := List.take_append_drop (role.bodyFrom children) parts
    rw [← whole, List.flatten_append, whole, conditionTexts_append, conditionTexts_append]
    simp [conditionTexts]
  · rfl

theorem conditionTexts_passedOn (kind : StatementKind) (entries : List Entry) :
    conditionTexts (passedOn kind entries) =
      if kind.isHeader then [] else conditionTexts entries := by
  rw [conditionTexts, passedOn, List.filter_filter]
  by_cases own : Field.branches ∈ kind.fields
  · rw [if_pos (branches_mem_fields_iff.mp own), List.map_eq_nil_iff, List.filter_eq_nil_iff]
    intro entry _
    by_cases same : entry.1 = .branches <;> simp [same, own]
  · rw [if_neg (mt branches_mem_fields_iff.mpr own), conditionTexts]
    refine congrArg _ (List.filter_congr fun entry _ => ?_)
    by_cases same : entry.1 = .branches <;> simp [same, own]

/-- What a statement emits of its own is its condition if it is an arm. -/
theorem conditionTexts_own (role : Role) {field : Field} (other : field ≠ .branches)
    (buffers : Buffers) :
    conditionTexts (leading role) ++ conditionTexts (trailing role field buffers) =
      if role.kind.isArm then
        [if role.kind = .defaultArm then "NONE" else buffers.joined .condition]
      else [] := by
  unfold conditionTexts leading trailing
  cases role.kind with
  | token => cases role.label <;> simp [StatementKind.isArm, other]
  | _ => simp [StatementKind.isArm, other]

/-- A request by which a statement emits these conditions of arms, or for which there is none to
emit. -/
def Yields (diagram : Diagram) (texts : List String) (id : StatementId)
    (request : Option Field) : Prop :=
  (∀ asked, request = some asked → conditionTexts (emit (diagram.rolesAt id) asked) = texts) ∧
    (request = none → texts = [])

theorem conditionTexts_emitEach {texts : Nat → List String} {ids : List Nat}
    {requests : List (Option Field)}
    (each : List.Forall₂ (fun id => diagram.Yields (texts id) id) ids requests) :
    conditionTexts (emitEach (ids.map diagram.rolesAt) requests).flatten = ids.flatMap texts := by
  induction each with
  | nil => rfl
  | @cons id request ids requests here _ ih =>
      rw [List.map_cons, List.flatMap_cons, ← ih]
      cases request with
      | none => rw [emitEach, List.flatten_cons, List.nil_append, here.2 rfl, List.nil_append]
      | some asked => rw [emitEach, List.flatten_cons, conditionTexts_append, here.1 asked rfl]

/-- The conditions that reach a statement are those of its children. -/
theorem conditionTexts_arrivalsAt {texts : Nat → List String} {field : Field}
    (each : ∀ index child, (diagram.children id)[index]? = some child →
      diagram.Yields (texts child) child ((diagram.role id).asks field (diagram.childRoles id) index
        (diagram.role child))) :
    conditionTexts (diagram.arrivalsAt id field) = (diagram.children id).flatMap texts := by
  rw [arrivalsAt, conditionTexts_arrivals]
  apply conditionTexts_emitEach
  rw [List.forall₂_iff_get]
  refine ⟨by simp [Role.requests, childRoles], fun index inside _ => ?_⟩
  simp only [Role.requests, childRoles, List.get_eq_getElem, List.getElem_mapIdx,
    List.getElem_map]
  exact each index _ (List.getElem?_eq_getElem inside)

/-- The conditions that a statement emits are those of the arms in it. -/
theorem conditionTexts_emit (linked : diagram.Linked) (held : diagram.ArmsHeld header)
    (inside : id < diagram.size) (found : diagram.header? id = some header) {field : Field}
    (other : field ≠ .branches) (filledFor : diagram.FilledFor id (some field)) :
    conditionTexts (emit (diagram.rolesAt id) field) =
      (diagram.armsWithin header id).map diagram.condition := by
  refine linked.upwards (motive := fun id => diagram.header? id = some header → ∀ field,
    field ≠ .branches → diagram.FilledFor id (some field) →
      conditionTexts (emit (diagram.rolesAt id) field) =
        (diagram.armsWithin header id).map diagram.condition)
    ?_ id inside found field other filledFor
  intro id inside ih found field other filledFor
  have later := lt_of_nearest? linked found
  have buffers := filledFor.buffers linked inside
  have own := conditionTexts_own (diagram.role id) other
    (collected (diagram.role id).kind (diagram.arrivalsAt id field))
  rw [emit_rolesAt linked inside, conditionTexts_append, conditionTexts_append,
    conditionTexts_passedOn]
  cases isHeader : (diagram.role id).kind.isHeader with
  | true =>
      have notPassed := ne_passThrough_of_isHeader isHeader
      rw [armsWithin_of_ne linked held later inside notPassed, if_pos rfl, List.append_nil, own,
        isArm_of_isHeader isHeader]
      rfl
  | false =>
      have below : conditionTexts (diagram.arrivalsAt id field) =
          (diagram.children id).flatMap fun child =>
            (diagram.armsWithin header child).map diagram.condition := by
        refine conditionTexts_arrivalsAt fun index child here => ⟨fun asked request => ?_, ?_⟩
        · have member := List.mem_of_getElem? here
          refine ih child member ((header?_child linked isHeader member).trans found) asked ?_
            (request ▸ filledFor.child linked inside here)
          rintro rfl
          exact Role.asks_ne_branches other request
        · intro nothing
          have notPassed : (diagram.role id).kind ≠ .passThrough := by
            intro passed
            simp [Role.asks, passed] at nothing
          rw [armsWithin_child linked held later notPassed (List.mem_of_getElem? here)]
          rfl
      rw [if_neg Bool.false_ne_true, below]
      by_cases passed : (diagram.role id).kind = .passThrough
      · rw [passed] at own
        obtain ⟨first, last⟩ := List.append_eq_nil_iff.mp own
        rw [first, passed, last, armsWithin_of_passThrough linked inside passed, List.map_flatMap,
          List.nil_append, List.append_nil]
      · have none : (diagram.children id).flatMap (fun child =>
            (diagram.armsWithin header child).map diagram.condition) = [] := by
          refine List.flatMap_eq_nil_iff.mpr fun child member => ?_
          rw [armsWithin_child linked held later passed member]
          rfl
        rw [none, List.append_nil, own, armsWithin_of_ne linked held later inside passed, found]
        cases isArm : (diagram.role id).kind.isArm with
        | true => simp [condition, buffers]
        | false => rfl

mutual
/-- The `qCase` elements in an element, without those of a decision inside of it. -/
def qCaseElementsOf : Element → List Element
  | .node tag inner =>
    if tag.name = "case" then []
    else (if tag.name = "qCase" then [.node tag inner] else []) ++ qCaseElements inner
def qCaseElements : List Element → List Element
  | [] => []
  | element :: more => qCaseElementsOf element ++ qCaseElements more
end

theorem qCaseElements_eq_flatMap (elements : List Element) :
    qCaseElements elements = elements.flatMap qCaseElementsOf := by
  induction elements with
  | nil => rfl
  | cons element elements ih => rw [qCaseElements, ih, List.flatMap_cons]

theorem qCaseElements_append (first second : List Element) :
    qCaseElements (first ++ second) = qCaseElements first ++ qCaseElements second := by
  rw [qCaseElements_eq_flatMap, List.flatMap_append, ← qCaseElements_eq_flatMap,
    ← qCaseElements_eq_flatMap]

theorem qCaseElements_flatMap {α : Type} (f : α → List Element) (xs : List α) :
    qCaseElements (xs.flatMap f) = xs.flatMap fun x => qCaseElements (f x) := by
  induction xs with
  | nil => rfl
  | cons x xs ih => rw [List.flatMap_cons, qCaseElements_append, ih, List.flatMap_cons]

theorem qCaseElements_missing (arm : StatementKind) {name : String} (decision : name ≠ "case")
    (other : name ≠ "qCase") (arms : List StatementKind) :
    qCaseElements (missing arm name arms) = [] := by
  unfold missing
  split
  · rfl
  · simp [qCaseElements, qCaseElementsOf, wrapper, decision, other]

theorem qCaseElements_statementElements (options : Options) (statement : Statement)
    (kinds : List StatementKind) (parts : List (List Element)) :
    qCaseElements (statementElements options statement kinds parts) =
      (if statement.kind.isArm then [wrapper "qCase" parts.flatten] else []) ++
        (if statement.kind.isHeader then []
          else qCaseElements (statement.drawnAmong parts).flatten) := by
  unfold statementElements Statement.drawnAmong StatementKind.extent
  cases statement.kind with
  | jump scope =>
      cases scope <;>
        simp [qCaseElements, qCaseElementsOf, leaf, StatementKind.isArm, StatementKind.isHeader]
  | whileLoop subject =>
      cases subject <;> simp [qCaseElements, qCaseElementsOf, wrapper, StatementKind.isArm,
        StatementKind.isHeader]
  | alternative =>
      simp [qCaseElements, qCaseElementsOf, qCaseElements_append, qCaseElements_missing,
        StatementKind.isArm, StatementKind.isHeader]
  | _ =>
      simp [qCaseElements, qCaseElementsOf, leaf, wrapper, StatementKind.isArm,
        StatementKind.isHeader]

/-- The `qCase` elements that are drawn for a statement are those of the arms in it. -/
theorem qCaseElements_elementsAt (linked : diagram.Linked) (held : diagram.ArmsHeld header)
    (options : Options) (inside : id < diagram.size) (found : diagram.header? id = some header) :
    qCaseElements (elementsAt options diagram id) =
      (diagram.armsWithin header id).map (armElement options diagram) := by
  refine linked.upwards (motive := fun id => diagram.header? id = some header →
    qCaseElements (elementsAt options diagram id) =
      (diagram.armsWithin header id).map (armElement options diagram)) ?_ id inside found
  intro id inside ih found
  have later := lt_of_nearest? linked found
  have kind : (diagram.role id).kind = (diagram.statement id).kind := rfl
  rw [elementsAt_eq linked options inside, qCaseElements_statementElements, ← kind,
    Statement.drawnAmong_map, ← List.flatMap_def, ← List.flatMap_def, qCaseElements_flatMap]
  by_cases passed : (diagram.role id).kind = .passThrough
  · have all : (diagram.statement id).drawnAmong (diagram.children id) = diagram.children id := by
      rw [Statement.drawnAmong, ← kind, passed]
      rfl
    have isHeader : (diagram.role id).kind.isHeader = false := by
      rw [passed]
      rfl
    rw [passed, all, armsWithin_of_passThrough linked inside passed, List.map_flatMap]
    exact List.flatMap_congr fun child member =>
      ih child member ((header?_child linked isHeader member).trans found)
  · rw [armsWithin_of_ne linked held later inside passed, found]
    cases isHeader : (diagram.role id).kind.isHeader with
    | true =>
        rw [isArm_of_isHeader isHeader]
        rfl
    | false =>
        have none : ((diagram.statement id).drawnAmong (diagram.children id)).flatMap
            (fun child => qCaseElements (elementsAt options diagram child)) = [] := by
          refine List.flatMap_eq_nil_iff.mpr fun child drawn => ?_
          have member := Statement.mem_of_mem_drawnAmong drawn
          rw [ih child member ((header?_child linked isHeader member).trans found),
            armsWithin_child linked held later passed member]
          rfl
        rw [none, if_neg Bool.false_ne_true, List.append_nil]
        cases (diagram.role id).kind.isArm with
        | true => simp [armElement, elementsBelow]
        | false => rfl

/-- No arm of a decision lies in front of its body. -/
theorem armsWithin_front (linked : diagram.Linked) (placed : diagram.ArmsInBody header)
    {child : Nat} (front : child ∈ (diagram.children header).takeWhile
      fun child => !(diagram.role header).startsArms (diagram.role child)) :
    diagram.armsWithin header child = [] := by
  rw [List.eq_nil_iff_forall_not_mem]
  intro arm listed
  have member := (List.takeWhile_prefix _).subset front
  obtain ⟨bound, below, isArm, found⟩ :=
    mem_armsWithin linked (linked.children_inside member) listed
  obtain ⟨-, other, body, above⟩ := placed arm bound isArm found
  have distinct : (diagram.children header).Nodup := by
    rw [linked.listed]
    exact List.nodup_range.filter _
  rw [← List.takeWhile_append_dropWhile (l := diagram.children header) (p := fun child =>
    !(diagram.role header).startsArms (diagram.role child))] at distinct
  have different : child ≠ other := fun same =>
    (List.nodup_append.mp distinct).2.2 child front other body same
  have link := linked.mem_children.mp member
  have link' := linked.mem_children.mp ((List.dropWhile_suffix _).subset body)
  exact not_mem_lineage_of_sibling linked.down link link' different below above

theorem armsAt_eq (linked : diagram.Linked) (inside : header < diagram.size)
    (isHeader : (diagram.role header).kind.isHeader = true) :
    diagram.armsAt header = (diagram.children header).flatMap (diagram.armsWithin header) := by
  rw [armsAt, armsWithin_eq linked inside, isArm_of_isHeader isHeader]
  rfl

/-- The arms of a decision are those in its body. -/
theorem armsAt_eq_body (linked : diagram.Linked) (inside : header < diagram.size)
    (isHeader : (diagram.role header).kind.isHeader = true)
    (placed : diagram.ArmsInBody header) : diagram.armsAt header =
      ((diagram.children header).dropWhile
        fun child => !(diagram.role header).startsArms (diagram.role child)).flatMap
          (diagram.armsWithin header) := by
  have front : ((diagram.children header).takeWhile fun child =>
      !(diagram.role header).startsArms (diagram.role child)).flatMap
        (diagram.armsWithin header) = [] :=
    List.flatMap_eq_nil_iff.mpr fun child member => armsWithin_front linked placed member
  rw [armsAt_eq linked inside isHeader, ← List.nil_append (List.flatMap _ (List.dropWhile _ _)),
    ← front, ← List.flatMap_append, List.takeWhile_append_dropWhile]

theorem header?_of_child (linked : diagram.Linked)
    (isHeader : (diagram.role header).kind.isHeader = true) {child : Nat}
    (member : child ∈ diagram.children header) : diagram.header? child = some header := by
  rw [header?, nearest?_child linked _ member, if_pos isHeader]

/-- A decision that has been filled holds the conditions of its arms. -/
theorem get_branches (linked : diagram.Linked) (inside : header < diagram.size)
    (isHeader : (diagram.role header).kind.isHeader = true) (held : diagram.ArmsHeld header)
    {field : Field} (other : field ≠ .branches)
    (filledFor : diagram.FilledFor header (some field)) :
    (diagram.statement header).buffers.get .branches =
      (diagram.armsAt header).map diagram.condition := by
  have own := branches_mem_fields_iff.mpr isHeader
  rw [filledFor.buffers linked inside, get_collected own, armsAt_eq linked inside isHeader,
    List.map_flatMap]
  refine conditionTexts_arrivalsAt fun index child here => ?_
  have member := List.mem_of_getElem? here
  have found := header?_of_child linked isHeader member
  have childInside := linked.children_inside member
  refine ⟨fun asked request => ?_, fun nothing => ?_⟩
  · apply conditionTexts_emit linked held childInside found _
      (request ▸ filledFor.child linked inside here)
    rintro rfl
    exact Role.asks_ne_branches other request
  · -- Only tokens are left out, and they hold no arms.
    have notToken : (diagram.role header).kind ≠ .token := by
      intro token
      rw [token] at isHeader
      cases isHeader
    have token : (diagram.role child).kind = .token := by
      rcases (Role.asks_eq_none_iff notToken).mp nothing with ⟨kind, -⟩ | ⟨-, -, token⟩
      · rw [kind] at isHeader
        cases isHeader
      · exact token
    have notPassed : (diagram.role child).kind ≠ .passThrough := by
      rw [token]
      decide
    rw [armsWithin_of_ne linked held (lt_of_nearest? linked found) childInside notPassed, token]
    rfl

theorem filter_control_arrivals {role : Role} (kind : role.kind = .caseHeader .condition)
    (children : List Role) {parts : List (List Entry)}
    (foreign : ∀ entry ∈ parts.flatten, entry.1 ≠ .control) :
    (arrivals role children parts).filter (·.1 = .control) = [(.control, "*")] := by
  have whole := List.take_append_drop (role.bodyFrom children) parts
  rw [← whole, List.flatten_append] at foreign
  obtain ⟨before, after⟩ := List.forall_mem_append.mp foreign
  have none : ∀ entries : List Entry, (∀ entry ∈ entries, entry.1 ≠ .control) →
      entries.filter (·.1 = .control) = [] := by
    intro entries others
    rw [List.filter_eq_nil_iff]
    exact fun entry member control => others entry member (of_decide_eq_true control)
  simp only [arrivals, kind]
  rw [List.filter_append, List.filter_cons, none _ before, none _ after]
  rfl

/-- A decision on conditions selects on all of them: it asks no child for an operand. -/
theorem joined_control (linked : diagram.Linked) (inside : header < diagram.size)
    {field : Field} (filledFor : diagram.FilledFor header (some field)) :
    (diagram.statement header).buffers.joined .control = diagram.selected header := by
  rw [selected]
  split
  · rename_i kind
    have own : Field.control ∈ (diagram.role header).kind.fields := by
      rw [kind]
      decide
    rw [filledFor.buffers linked inside, Buffers.joined, get_collected own, arrivalsAt,
      filter_control_arrivals kind]
    · rfl
    · intro entry member control
      cases emitEach_field _ member with
      | inl asked =>
          obtain ⟨index, child, request⟩ := Role.of_mem_requests asked
          exact Role.asks_ne_control kind (control ▸ request)
      | inr branches => simp [branches] at control
  · rfl

/-- What is drawn for a decision: an element that shows the control and the entries. -/
theorem elementsAt_of_isHeader (linked : diagram.Linked) (options : Options) {id : Nat}
    (inside : id < diagram.size) (header : (diagram.role id).kind.isHeader = true) :
    elementsAt options diagram id = [.node ⟨"case", described
        (commaLines ((diagram.statement id).buffers.joined .control ::
          (diagram.statement id).buffers.get .branches))
        ((diagram.statement id).buffers.joined .comments) options.palette.ordinary⟩
      (((diagram.children id).drop (diagram.statement id).bodyStart).map
        (elementsAt options diagram)).flatten] := by
  have kind : (diagram.role id).kind = (diagram.statement id).kind := rfl
  rw [kind] at header
  rw [elementsAt_eq linked options inside, List.map_drop, statementElements]
  cases hk : (diagram.statement id).kind <;> simp_all [StatementKind.isHeader]

theorem Drawn.filledFor_of_isHeader {tree : Tree} {id : Nat} (drawn : (build tree).Drawn id)
    (header : ((build tree).role id).kind.isHeader = true) :
    ∃ field, field ≠ .branches ∧ (build tree).FilledFor id (some field) := by
  apply drawn.filledFor (build_linked tree) (build_nonempty tree) (build_filledFor tree)
  intro token
  rw [token] at header
  cases header

/-- The header of a decision ends where the first child is recognised as an arm. -/
theorem children_around_body (linked : diagram.Linked) (inside : header < diagram.size)
    (isHeader : (diagram.role header).kind.isHeader = true) {field : Field}
    (filledFor : diagram.FilledFor header (some field)) :
    (diagram.children header).take (diagram.statement header).bodyStart =
      (diagram.children header).takeWhile
        (fun child => !(diagram.role header).startsArms (diagram.role child)) ∧
    (diagram.children header).drop (diagram.statement header).bodyStart =
      (diagram.children header).dropWhile
        (fun child => !(diagram.role header).startsArms (diagram.role child)) := by
  rw [filledFor.bodyStart linked inside, Role.bodyFrom_of_isHeader isHeader, childRoles,
    List.findIdx_map, List.takeWhile_eq_take_findIdx_not, List.dropWhile_eq_drop_findIdx_not]
  simp only [Bool.not_not]
  exact ⟨rfl, rfl⟩

theorem decision_element {tree : Tree} (options : Options) {header : Nat}
    (drawn : (build tree).Drawn header)
    (isHeader : ((build tree).role header).kind.isHeader = true)
    (held : (build tree).ArmsHeld header) :
    ∃ shown comment inner,
      elementsAt options (build tree) header =
        [.node ⟨"case", described shown comment options.palette.ordinary⟩ inner] ∧
      readEntries shown = some ((build tree).selected header ::
        ((build tree).armsAt header).map (build tree).condition) ∧
      qCaseElements inner = (((build tree).children header).drop
        ((build tree).statement header).bodyStart).flatMap fun child =>
          ((build tree).armsWithin header child).map (armElement options (build tree)) := by
  have linked := build_linked tree
  have inside := DrawnFrom.inside linked (build_nonempty tree) drawn
  obtain ⟨field, other, filledFor⟩ := drawn.filledFor_of_isHeader isHeader
  have element := elementsAt_of_isHeader linked options inside isHeader
  rw [joined_control linked inside filledFor,
    get_branches linked inside isHeader held other filledFor] at element
  refine ⟨_, _, _, element, readEntries_commaLines _ _, ?_⟩
  rw [← List.flatMap_def, qCaseElements_flatMap]
  refine List.flatMap_congr fun child member => ?_
  have listed := List.mem_of_mem_drop member
  exact qCaseElements_elementsAt linked held options (linked.children_inside listed)
    (header?_of_child linked isHeader listed)

/-- For every drawn decision whose arms lie in its body, with productions that are passed through in
between and nothing else: its element shows what it selects on and then one entry for each of its
arms, and the `qCase` elements inside of it, without those of decisions in its arms, are those of
the same arms.  So the entry at each position is the condition of the arm whose statements the
`qCase` at this position holds. -/
theorem entries_describe_arms (tree : Tree) (options : Options) {header : Nat}
    (drawn : (build tree).Drawn header)
    (isHeader : ((build tree).role header).kind.isHeader = true)
    (placed : (build tree).ArmsInBody header) :
    (build tree).rowsAt options header <:+: rows options (build tree).view ∧
    ∃ shown comment inner,
      ReadsAs ((build tree).rowsAt options header)
        [.node ⟨"case", described shown comment options.palette.ordinary⟩ inner] ∧
      readEntries shown = some ((build tree).selected header ::
        ((build tree).armsAt header).map (build tree).condition) ∧
      qCaseElements inner =
        ((build tree).armsAt header).map (armElement options (build tree)) := by
  have linked := build_linked tree
  have nonempty := build_nonempty tree
  obtain ⟨shown, comment, inner, element, read, arms⟩ :=
    decision_element options drawn isHeader placed.held
  have reads := readsAs_rowsAt options (build tree) header
  rw [element] at reads
  have inside := DrawnFrom.inside linked nonempty drawn
  obtain ⟨field, -, filledFor⟩ := drawn.filledFor_of_isHeader isHeader
  have body := (children_around_body linked inside isHeader filledFor).2
  rw [body, ← List.map_flatMap, ← armsAt_eq_body linked inside isHeader placed] at arms
  exact ⟨drawn.rowsAt_infix linked nonempty options, shown, comment, inner, reads, read, arms⟩

/-- A decision with two arms in a production that is passed through, the first of them with a
decision in it and the second without a condition, and the arm for no other case after them. -/
def nestedDecisionExport : String :=
  "\n+--<DECIDE_ON>\n|  +--ON\n|  +--#X\n|  +--<DECIDE_ON_branches>\n" ++
    "|  |  +--<DECIDE_ON_branch>\n|  |  |  +--VALUE\n|  |  |  +--1\n|  |  |  +--<DECIDE_FOR>\n" ++
    "|  |  |  |  +--<DECIDE_FOR_none>\n|  |  +--<DECIDE_ON_branch>\n|  +--<DECIDE_ON_none>\n"

theorem entries_describe_arms_nested : ∃ tree, Export.parse nestedDecisionExport = .ok tree ∧
    ∃ shown comment inner,
      ReadsAs ((build tree).rowsAt (.standard ⟨2000, 1, 1⟩) 1)
        [.node ⟨"case", described shown comment Color.white⟩ inner] ∧
      readEntries shown = some ["#X", "1", "", "NONE"] ∧
      qCaseElements inner =
        [6, 7, 5].map (armElement (.standard ⟨2000, 1, 1⟩) (build tree)) := by
  let tree : Tree := ⟨#[⟨0, "<DECIDE_ON>", none, .expression [1, 2, 3, 10]⟩,
    ⟨1, "ON", some 0, .terminal⟩, ⟨1, "#X", some 0, .terminal⟩,
    ⟨1, "<DECIDE_ON_branches>", some 0, .expression [4, 9]⟩,
    ⟨2, "<DECIDE_ON_branch>", some 3, .expression [5, 6, 7]⟩, ⟨3, "VALUE", some 4, .terminal⟩,
    ⟨3, "1", some 4, .terminal⟩, ⟨3, "<DECIDE_FOR>", some 4, .expression [8]⟩,
    ⟨4, "<DECIDE_FOR_none>", some 7, .expression []⟩,
    ⟨2, "<DECIDE_ON_branch>", some 3, .expression []⟩,
    ⟨1, "<DECIDE_ON_none>", some 0, .expression []⟩]⟩
  have parsed : Export.parse nestedDecisionExport = .ok tree := by decide +kernel
  have draws : (build tree).Draws 0 1 := by decide +kernel
  obtain ⟨-, shown, comment, inner, reads, read, elements⟩ :=
    entries_describe_arms tree (.standard ⟨2000, 1, 1⟩) (.tail .refl draws) (by decide +kernel)
      (by decide +kernel)
  have arms : (build tree).armsAt 1 = [6, 7, 5] := by decide +kernel
  have texts : (build tree).selected 1 :: [6, 7, 5].map (build tree).condition =
      ["#X", "1", "", "NONE"] := by decide +kernel
  rw [arms] at read elements
  rw [texts] at read
  exact ⟨tree, parsed, shown, comment, inner, reads, read, elements⟩

end NassiChart.Diagram
