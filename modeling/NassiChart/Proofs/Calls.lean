import NassiChart.Proofs.Deliveries

/-! # The statements that a walk visits

A walk leaves out what lies below the keyword of an alternative, and the tokens between the arms of a
decision.  It visits every other statement once (`mem_callsAt_iff`), and asks none of them for a
field that nothing above it declares (`above?_of_call`).
-/

namespace NassiChart.Diagram

open NassiChart.Grammar

def StatementKind.isHeader : StatementKind → Bool
  | caseHeader _ => true
  | _ => false

/-- The statement is the first child of an alternative. -/
def isKeyword (diagram : Diagram) (id : StatementId) : Bool :=
  (diagram.parent? id).any fun above =>
    (diagram.role above).kind == .alternative && (diagram.children above).head? == some id

/-- The statement is a token that follows the first arm of the decision that it stands in. -/
def isTokenAmongArms (diagram : Diagram) (id : StatementId) : Bool :=
  (diagram.role id).kind == .token && (diagram.parent? id).any fun above =>
    (diagram.role above).kind.isHeader &&
      ((diagram.childRoles above).take ((diagram.children above).idxOf id + 1)).any
        (diagram.role above).startsArms

/-- A walk does not get to the statement. -/
def isLeftOut (diagram : Diagram) (id : StatementId) : Bool :=
  (diagram.ancestors id).any diagram.isKeyword || diagram.isTokenAmongArms id

/-- The calls of a walk below a statement. -/
def callsAt (diagram : Diagram) (id : StatementId) (field : Field) : List (Cell × Field) :=
  callsFrom ((diagram.below id).map diagram.cell) field

theorem callsOfAll_none (trees : List (Rose Cell)) (count : Nat) :
    callsOfAll trees (List.replicate count none) = [] := by
  induction trees generalizing count with
  | nil => cases count <;> rfl
  | cons tree trees ih =>
      cases count with
      | zero => rfl
      | succ count => exact ih count

variable {diagram : Diagram}

theorem callsOfAll_plan (id : Nat) (children : List Nat) (field : Field)
    (trees : List (Rose Cell)) :
    callsOfAll trees (Plan.of field (diagram.cell id) (children.map diagram.cell)).requests =
      callsOfAll trees ((diagram.role id).requests field (children.map diagram.role)) := by
  cases plan_requests diagram id children field with
  | inl same => rw [same]
  | inr token =>
      rw [token.1, token.2, callsOfAll_none]
      exact callsOfAll_none trees 0

theorem mem_callsOfAll {trees : List (Rose Cell)} {requests : List (Option Field)}
    {call : Cell × Field} : call ∈ callsOfAll trees requests ↔
      ∃ (index : Nat) (tree : Rose Cell) (asked : Field), trees[index]? = some tree ∧
        requests[index]? = some (some asked) ∧ call ∈ callsFrom tree asked := by
  induction trees generalizing requests with
  | nil => cases requests <;> simp [callsOfAll]
  | cons tree trees ih =>
      cases requests with
      | nil => simp [callsOfAll]
      | cons request requests =>
          have shift : ∀ P : Nat → Prop, (∃ index, P index) ↔ P 0 ∨ ∃ index, P (index + 1) := by
            intro P
            constructor
            · rintro ⟨index, holds⟩
              cases index with
              | zero => exact .inl holds
              | succ index => exact .inr ⟨index, holds⟩
            · rintro (holds | ⟨index, holds⟩)
              · exact ⟨0, holds⟩
              · exact ⟨index + 1, holds⟩
          rw [shift]
          cases request with
          | none => simp [callsOfAll, ih]
          | some field => simp [callsOfAll, ih]

theorem mem_callsAt (linked : diagram.Linked) {id : Nat} (inside : id < diagram.size)
    {field : Field} {call : Cell × Field} : call ∈ diagram.callsAt id field ↔
      call = (diagram.cell id, field) ∨
        ∃ (index child : Nat) (asked : Field), (diagram.children id)[index]? = some child ∧
          (diagram.role id).asks field (diagram.childRoles id) index (diagram.role child) =
            some asked ∧ call ∈ diagram.callsAt child asked := by
  have values : ((diagram.children id).map fun child =>
      (diagram.below child).map diagram.cell).map Rose.value =
        (diagram.children id).map diagram.cell := by
    rw [List.map_map]
    exact List.map_congr_left fun child _ => value_map_below diagram.cell child
  rw [callsAt, map_below linked inside, callsFrom, values, callsOfAll_plan, List.mem_cons,
    mem_callsOfAll]
  refine or_congr_right ⟨?_, ?_⟩
  · rintro ⟨index, tree, asked, here, request, member⟩
    obtain ⟨child, listed, rfl⟩ := Option.map_eq_some_iff.mp (List.getElem?_map ▸ here)
    have asks : (diagram.role id).asks field (diagram.childRoles id) index (diagram.role child) =
        some asked := by
      simpa [Role.requests, childRoles, listed] using request
    exact ⟨index, child, asked, listed, asks, member⟩
  · rintro ⟨index, child, asked, listed, asks, member⟩
    refine ⟨index, _, asked, ?_, ?_, member⟩
    · rw [List.getElem?_map, listed]
      rfl
    · simpa [Role.requests, childRoles, listed] using asks

theorem call_self (linked : diagram.Linked) {id : Nat} (inside : id < diagram.size)
    (field : Field) : (diagram.cell id, field) ∈ diagram.callsAt id field :=
  (mem_callsAt linked inside).mpr (.inl rfl)

/-- A statement that is visited has its children visited for what it asks of them. -/
theorem call_child (linked : diagram.Linked) {top : Nat} (inside : top < diagram.size)
    {field : Field} {id : Nat} {asked : Field}
    (call : (diagram.cell id, asked) ∈ diagram.callsAt top field) {index child : Nat}
    (here : (diagram.children id)[index]? = some child) {request : Field}
    (asks : (diagram.role id).asks asked (diagram.childRoles id) index (diagram.role child) =
      some request) : (diagram.cell child, request) ∈ diagram.callsAt top field := by
  have childInside := linked.children_inside (List.mem_of_getElem? here)
  refine linked.upwards (motive := fun top => ∀ field, (diagram.cell id, asked) ∈
    diagram.callsAt top field → (diagram.cell child, request) ∈ diagram.callsAt top field)
    ?_ top inside field call
  intro top inside ih field call
  rw [mem_callsAt linked inside] at call ⊢
  cases call with
  | inl same =>
      obtain rfl : id = top := congrArg (·.1.id) same
      obtain rfl : asked = field := congrArg Prod.snd same
      exact .inr ⟨index, child, request, here, asks, call_self linked childInside request⟩
  | inr deeper =>
      obtain ⟨next, middle, between, listed, asks', member⟩ := deeper
      exact .inr ⟨next, middle, between, listed, asks',
        ih middle (List.mem_of_getElem? listed) between member⟩

theorem Role.asks_eq_none_iff {role : Role} (notToken : role.kind ≠ .token) {field : Field}
    {children : List Role} {index : Nat} {child : Role} :
    role.asks field children index child = none ↔
      role.kind = .alternative ∧ index = 0 ∨
        role.kind.isHeader = true ∧ role.bodyFrom children ≤ index ∧ child.kind = .token := by
  cases hk : role.kind with
  | token => exact absurd hk notToken
  | alternative =>
      simp only [asks, hk, StatementKind.isHeader]
      (repeat' split) <;> simp_all
  | caseHeader selector =>
      simp only [asks, hk, StatementKind.isHeader]
      (repeat' split) <;> simp_all
  | _ =>
      simp only [asks, hk, StatementKind.isHeader]
      (repeat' split) <;> simp_all

theorem Role.bodyFrom_of_isHeader {role : Role} (header : role.kind.isHeader = true)
    (children : List Role) : role.bodyFrom children = children.findIdx role.startsArms := by
  cases hk : role.kind with
  | caseHeader selector =>
      rw [← findIdx?_getD_length]
      simp only [bodyFrom, hk]
  | _ => simp [hk, StatementKind.isHeader] at header

/-- A child is left out with its parent, or because the parent asks nothing of it. -/
theorem isLeftOut_child (linked : diagram.Linked) {id : Nat}
    (notToken : (diagram.role id).kind ≠ .token) {index child : Nat}
    (here : (diagram.children id)[index]? = some child) (field : Field) :
    diagram.isLeftOut child = true ↔ diagram.isLeftOut id = true ∨
      (diagram.role id).asks field (diagram.childRoles id) index (diagram.role child) = none := by
  have link := linked.mem_children.mp (List.mem_of_getElem? here)
  have distinct : (diagram.children id).Nodup := by
    rw [linked.listed]
    exact List.nodup_range.filter _
  obtain ⟨bound, there⟩ := List.getElem?_eq_some_iff.mp here
  have position : (diagram.children id).idxOf child = index := by
    rw [← there]
    exact distinct.idxOf_getElem index bound
  have first : (diagram.children id).head? = some child ↔ index = 0 := by
    rw [List.head?_eq_getElem?]
    constructor
    · intro head
      obtain ⟨bound', same⟩ := List.getElem?_eq_some_iff.mp head
      exact ((distinct.getElem_inj_iff).mp (same.trans there.symm)).symm
    · rintro rfl
      exact here
  have roles : index < (diagram.childRoles id).length := by
    rw [childRoles, List.length_map]
    exact bound
  have keyword : diagram.isKeyword child = true ↔
      (diagram.role id).kind = .alternative ∧ index = 0 := by
    simp [isKeyword, link, first]
  have amongArms : diagram.isTokenAmongArms child = true ↔
      (diagram.role id).kind.isHeader = true ∧
        (diagram.role id).bodyFrom (diagram.childRoles id) ≤ index ∧
          (diagram.role child).kind = .token := by
    simp only [isTokenAmongArms, link, position, Option.any_some, Bool.and_eq_true, beq_iff_eq,
      any_take_succ _ _ roles, decide_eq_true_eq]
    constructor
    · rintro ⟨token, header, late⟩
      exact ⟨header, Role.bodyFrom_of_isHeader header _ ▸ late, token⟩
    · rintro ⟨header, late, token⟩
      exact ⟨token, header, Role.bodyFrom_of_isHeader header (diagram.childRoles id) ▸ late⟩
  have self : diagram.isTokenAmongArms id = false := by
    simp [isTokenAmongArms, notToken]
  rw [isLeftOut, isLeftOut, ancestors, ancestors, lineage_of_some linked.down link,
    List.any_cons, Role.asks_eq_none_iff notToken, ← keyword, ← amongArms, self]
  simp only [Bool.or_eq_true, Bool.or_false]
  rw [or_assoc, or_left_comm]

/-- A walk from the root visits what is not left out. -/
theorem mem_callsAt_iff (linked : diagram.Linked) (childless : ∀ id,
    (diagram.role id).kind = .token → diagram.children id = []) {id : Nat}
    (inside : id < diagram.size) (field : Field) :
    (∃ asked, (diagram.cell id, asked) ∈ diagram.callsAt 0 field) ↔
      diagram.isLeftOut id = false := by
  have nonempty : 0 < diagram.size := Nat.lt_of_le_of_lt (Nat.zero_le id) inside
  have notToken : ∀ {id index child : Nat}, (diagram.children id)[index]? = some child →
      (diagram.role id).kind ≠ .token := by
    intro id index child here token
    rw [childless id token] at here
    cases here
  have top : diagram.isLeftOut 0 = false := by
    have parentless : diagram.parent? 0 = none := linked.root_parent
    rw [isLeftOut, ancestors, lineage_of_none parentless]
    simp [isKeyword, isTokenAmongArms, parentless]
  constructor
  · rintro ⟨asked, call⟩
    -- Nothing that a visited statement asks for is left out, so neither is what lies below it.
    have kept : ∀ top < diagram.size, ∀ field, diagram.isLeftOut top = false →
        ∀ call ∈ diagram.callsAt top field, diagram.isLeftOut call.1.id = false := by
      refine linked.upwards ?_
      intro top inside ih field visited call member
      cases (mem_callsAt linked inside).mp member with
      | inl same =>
          subst same
          exact visited
      | inr deeper =>
          obtain ⟨index, child, request, here, asks, member⟩ := deeper
          apply ih child (List.mem_of_getElem? here) request ?_ call member
          rw [← Bool.not_eq_true, isLeftOut_child linked (notToken here) here field, asks]
          simp [visited]
    exact kept 0 nonempty field top _ call
  · refine linked.downwards (motive := fun id => diagram.isLeftOut id = false →
      ∃ asked, (diagram.cell id, asked) ∈ diagram.callsAt 0 field) ?_ ?_ id inside
    · exact fun _ => ⟨field, call_self linked nonempty field⟩
    · intro id inside ih child member visited
      obtain ⟨index, here⟩ := List.mem_iff_getElem?.mp member
      rw [← Bool.not_eq_true] at visited
      have reaches := fun field => mt (isLeftOut_child linked (notToken here) here field).mpr visited
      obtain ⟨asked, call⟩ := ih (by
        rw [← Bool.not_eq_true]
        exact fun left => reaches field (.inl left))
      obtain ⟨request, asks⟩ := Option.ne_none_iff_exists'.mp fun nothing =>
        reaches asked (.inr nothing)
      exact ⟨request, call_child linked nonempty call here asks⟩

mutual
theorem callsFrom_sublist (tree : Rose Cell) (field : Field) :
    ((callsFrom tree field).map Prod.fst).Sublist tree.preorder := by
  cases tree with
  | node cell trees =>
      rw [callsFrom, Rose.preorder, List.map_cons]
      exact (callsOfAll_sublist trees _).cons_cons cell
theorem callsOfAll_sublist (trees : List (Rose Cell)) (requests : List (Option Field)) :
    ((callsOfAll trees requests).map Prod.fst).Sublist (Rose.preorderAll trees) := by
  cases trees with
  | nil => cases requests <;> exact List.Sublist.refl _
  | cons tree trees =>
      cases requests with
      | nil => exact List.nil_sublist _
      | cons request requests =>
          rw [Rose.preorderAll]
          cases request with
          | none =>
              exact (callsOfAll_sublist trees requests).trans (List.sublist_append_right _ _)
          | some field =>
              rw [callsOfAll, List.map_append]
              exact (callsFrom_sublist tree field).append (callsOfAll_sublist trees requests)
end

theorem mem_below_of_call {id : Nat} {field : Field} {call : Cell × Field}
    (member : call ∈ diagram.callsAt id field) : call.1 = diagram.cell call.1.id := by
  have listed := (callsFrom_sublist _ field).subset (List.mem_map_of_mem member)
  rw [Rose.preorder_map] at listed
  obtain ⟨j, -, same⟩ := List.mem_map.mp listed
  rw [← same]
  rfl

theorem callsAt_nodup (linked : diagram.Linked) {top : Nat} (inside : top < diagram.size)
    (field : Field) : ((diagram.callsAt top field).map fun call => call.1.id).Nodup := by
  have once := linked.preorder_unfold_nodup inside (Nat.le_add_right diagram.size top)
  have visited := (callsFrom_sublist ((diagram.below top).map diagram.cell) field).map Cell.id
  have ids : Cell.id ∘ diagram.cell = id := rfl
  rw [List.map_map, Rose.preorder_map, List.map_map, ids, List.map_id] at visited
  exact visited.nodup once

/-- The statements of a diagram declare the fields of their kinds. -/
def DeclaresByKind (diagram : Diagram) : Prop :=
  ∀ id field, diagram.declares field id = decide (field ∈ (diagram.role id).kind.fields)

theorem above?_of_call (linked : diagram.Linked) (declared : diagram.DeclaresByKind) {top : Nat}
    (inside : top < diagram.size) {field : Field}
    (taken : (diagram.receiver? top field).isSome = true) {call : Cell × Field}
    (member : call ∈ diagram.callsAt top field) :
    call = (diagram.cell top, field) ∨ (diagram.above? call.1.id call.2).isSome = true := by
  refine linked.upwards (motive := fun top => ∀ field,
    (diagram.receiver? top field).isSome = true → ∀ call ∈ diagram.callsAt top field,
      call = (diagram.cell top, field) ∨ (diagram.above? call.1.id call.2).isSome = true)
    ?_ top inside field taken call member
  intro id inside ih field taken call member
  cases (mem_callsAt linked inside).mp member with
  | inl same => exact .inl same
  | inr deeper =>
      obtain ⟨index, child, asked, here, asks, member⟩ := deeper
      right
      have listed := List.mem_of_getElem? here
      have above : (diagram.above? child asked).isSome = true := by
        rw [above?_child (linked.mem_children.mp listed)]
        cases Role.asks_field asks with
        | inl same => exact same ▸ taken
        | inr own =>
            have declares : diagram.declares asked id = true := by
              rw [declared]
              exact decide_eq_true own
            rw [receiver?_eq linked.down, if_pos declares]
            rfl
      have reached : (diagram.receiver? child asked).isSome = true := by
        rw [receiver?_eq linked.down]
        split
        · rfl
        · exact above
      cases ih child listed asked reached call member with
      | inl same => exact same ▸ above
      | inr lower => exact lower

end NassiChart.Diagram
