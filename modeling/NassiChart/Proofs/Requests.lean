import Mathlib.Logic.Basic
import NassiChart.Proofs.Emission

/-! # Plans as requests

A `Plan` lists what the children of a statement are asked for, `Role.asks` says it position by
position.  Both read nothing but the kinds and labels of the children, and they agree for every
kind: `plan_bodyStart` for the start of the body, `plan_requests` for the requests.
-/

namespace NassiChart.Diagram

open NassiChart.Grammar

variable {diagram : Diagram} {id : Nat} {children : List Nat}

theorem dropName?_eq_some_iff {start name rest : List Char} :
    dropName? start name = some rest ↔ name = start ++ rest := by
  induction start generalizing name with
  | nil => simp [dropName?, eq_comm]
  | cons a start ih =>
      cases name with
      | nil => simp [dropName?]
      | cons c name =>
          by_cases same : a = c
          · simp [dropName?, same, ih]
          · simp [dropName?, same, Ne.symm same]

/-- A name continues another one as an arm if it starts with the name of a branch, or is the name
of the arm for no other case. -/
theorem continuesAsArm_eq (decision name : String) :
    continuesAsArm decision name =
      ((decision ++ "_branch").toList.isPrefixOf name.toList || name == decision ++ "_none") := by
  rw [Bool.eq_iff_iff, Bool.or_eq_true, List.isPrefixOf_iff_prefix, beq_iff_eq,
    ← String.toList_inj, String.toList_append, String.toList_append, continuesAsArm]
  cases dropped : dropName? decision.toList name.toList with
  | none =>
      simp only [Bool.false_eq_true, false_iff, not_or]
      constructor
      · rintro ⟨rest, whole⟩
        rw [List.append_assoc, eq_comm, ← dropName?_eq_some_iff, dropped] at whole
        cases whole
      · intro whole
        rw [← dropName?_eq_some_iff, dropped] at whole
        cases whole
  | some rest =>
      have whole := dropName?_eq_some_iff.mp dropped
      rw [whole, List.prefix_append_right_inj, List.append_cancel_left_eq]
      simp

theorem isLoopBody_cell (diagram : Diagram) (id : Nat) :
    (diagram.cell id).isLoopBody = (diagram.role id).holdsLoop := rfl

theorem isArmOf_cell (diagram : Diagram) (id child : Nat) :
    (diagram.cell id).isArmOf (diagram.cell child) =
      (diagram.role id).startsArms (diagram.role child) := by
  simp only [Cell.isArmOf, Role.startsArms, continuesAsArm_eq]
  rfl

theorem findIdx?_getD_length {α : Type} (test : α → Bool) (xs : List α) :
    (xs.findIdx? test).getD xs.length = xs.findIdx test :=
  List.findIdx_eq_getD_findIdx?.symm

theorem replicate_append_replicate {α β : Type} (first second : β) (xs : List α) {n : Nat}
    (bound : n ≤ xs.length) :
    List.replicate n first ++ List.replicate (xs.length - n) second =
      xs.mapIdx fun index _ => if index < n then first else second := by
  apply List.ext_getElem
  · simp [Nat.add_sub_cancel' bound]
  · intro index _ _
    rw [List.getElem_append, List.getElem_mapIdx]
    simp

theorem any_take_succ {α : Type} (test : α → Bool) (xs : List α) {index : Nat}
    (inside : index < xs.length) :
    (xs.take (index + 1)).any test = decide (xs.findIdx test ≤ index) := by
  induction xs generalizing index with
  | nil => exact absurd inside (Nat.not_lt_zero index)
  | cons x xs ih =>
      rw [List.take_succ_cons, List.any_cons, List.findIdx_cons]
      cases passes : test x with
      | true => simp
      | false =>
          cases index with
          | zero => simp
          | succ index => simp [ih (Nat.lt_of_succ_lt_succ inside)]

def Role.plan (role : Role) (field : Field) (children : List Role) : Plan :=
  ⟨role.requests field children, role.bodyFrom children⟩

theorem plan_uniform {role : Role} {field asked : Field}
    (same : ∀ roles index child, role.asks field roles index child = some asked)
    (noBody : ∀ roles, role.bodyFrom roles = 0) :
    Plan.uniform asked (children.map diagram.cell) =
      role.plan field (children.map diagram.role) := by
  have each := List.mapIdx_eq_replicate_iff.mpr fun index inside =>
    same (children.map diagram.role) index (children.map diagram.role)[index]
  simp only [Plan.uniform, List.map_const', Role.plan, Role.requests, each, noBody,
    List.length_map]

theorem plan_forLoop (field : Field) (kind : (diagram.role id).kind = .forLoop) :
    Plan.forLoop (children.map diagram.cell) =
      (diagram.role id).plan field (children.map diagram.role) := by
  -- From the sixth child on all positions are alike; the first five are told apart.
  have later : ∀ (roles : List Role) (rest : List Nat),
      (rest.map diagram.role).mapIdx (fun index =>
        (diagram.role id).asks field roles (index + 1 + 1 + 1 + 1 + 1)) =
          List.replicate rest.length (some .body) := by
    intro roles rest
    have count : rest.length = (rest.map diagram.role).length := (List.length_map _).symm
    rw [count, List.mapIdx_eq_replicate_iff]
    intro index inside
    simp [Role.asks, kind]
  rcases children with _ | ⟨keyword, _ | ⟨control, _ | ⟨lower, _ | ⟨upper, _ | ⟨fifth, rest⟩⟩⟩⟩⟩
  case cons.cons.cons.cons.cons =>
    simp only [Plan.forLoop, Role.plan, Role.requests, Role.bodyFrom, kind, List.map_cons,
      List.mapIdx_cons, later]
    cases loop : (diagram.role fifth).holdsLoop with
    | true => simp [Role.asks, kind, isLoopBody_cell, loop, ← List.replicate_succ]
    | false => simp [Role.asks, kind, isLoopBody_cell, loop]; omega
  all_goals
    simp [Plan.forLoop, Role.plan, Role.requests, Role.bodyFrom, Role.asks, kind,
      List.mapIdx_cons]

theorem plan_whileLoop (field : Field) {subject : LoopSubject}
    (kind : (diagram.role id).kind = .whileLoop subject) :
    Plan.whileLoop (children.map diagram.cell) =
      (diagram.role id).plan field (children.map diagram.role) := by
  have start : ((children.map diagram.cell).findIdx? Cell.isLoopBody).getD
      ((children.map diagram.cell).length - 1) =
        (diagram.role id).bodyFrom (children.map diagram.role) := by
    simp only [Role.bodyFrom, kind, List.findIdx?_map, List.length_map]
    rfl
  have bound : (diagram.role id).bodyFrom (children.map diagram.role) ≤
      (children.map diagram.cell).length := by
    rw [← start]
    cases found : (children.map diagram.cell).findIdx? Cell.isLoopBody with
    | none => exact Nat.sub_le _ _
    | some index =>
        have inside := (List.findIdx?_eq_some_iff_findIdx_eq.mp found).1
        exact Nat.le_of_lt inside
  rw [Plan.whileLoop, start, Plan.headed, replicate_append_replicate _ _ _ bound]
  simp only [Role.plan, Role.requests, Plan.mk.injEq, and_true]
  apply List.ext_getElem
  · simp
  · intro index _ _
    simp only [List.getElem_mapIdx, Role.asks, kind]

theorem plan_alternative (field : Field) (kind : (diagram.role id).kind = .alternative) :
    Plan.alternative (children.map diagram.cell) =
      (diagram.role id).plan field (children.map diagram.role) := by
  cases children with
  | nil => simp [Plan.alternative, Role.plan, Role.requests, Role.bodyFrom, kind]
  | cons keyword rest =>
      let start := (rest.map diagram.cell).findIdx (·.kind.isBranch)
      have body : (diagram.role id).bodyFrom ((keyword :: rest).map diagram.role) = start + 1 := by
        simp only [Role.bodyFrom, kind, start, ← findIdx?_getD_length, List.findIdx?_map,
          List.map_cons, List.drop_succ_cons, List.drop_zero, List.length_cons, List.length_map]
        cases found : rest.findIdx? ((·.kind.isBranch) ∘ diagram.role) with
        | none => simp [show rest.findIdx? ((·.kind.isBranch) ∘ diagram.cell) = none from found]
        | some index =>
            simp [show rest.findIdx? ((·.kind.isBranch) ∘ diagram.cell) = some index from found]
      rw [Role.plan, body, List.map_cons, Plan.alternative, Plan.headed,
        replicate_append_replicate _ _ _ List.findIdx_le_length, Role.requests, List.map_cons,
        List.mapIdx_cons]
      rw [List.map_cons] at body
      refine congrArg₂ Plan.mk (congrArg₂ List.cons ?_ ?_) rfl
      · simp [Role.asks, kind]
      · apply List.ext_getElem
        · simp
        · intro index _ _
          simp only [List.getElem_mapIdx, Role.asks, kind, body, Nat.add_lt_add_iff_right,
            Nat.succ_ne_zero, if_false]
          rfl

theorem length_caseHeaderFields (selector : CaseSelector) (count : Nat) :
    (Plan.caseHeaderFields selector count).length = count := by
  cases selector with
  | condition => simp [Plan.caseHeaderFields]
  | value => cases count <;> simp [Plan.caseHeaderFields]

theorem getElem_caseHeaderFields (selector : CaseSelector) {count index : Nat}
    (inside : index < (Plan.caseHeaderFields selector count).length) :
    (Plan.caseHeaderFields selector count)[index] =
      if selector = .value ∧ index + 1 = count then .control else .comments := by
  rw [length_caseHeaderFields] at inside
  cases selector with
  | condition => simp [Plan.caseHeaderFields]
  | value =>
      cases count with
      | zero => exact absurd inside (Nat.not_lt_zero index)
      | succ count =>
          simp only [Plan.caseHeaderFields, List.getElem_append, List.length_replicate,
            List.getElem_replicate, List.getElem_singleton, true_and, Nat.add_right_cancel_iff]
          split
          · rename_i before
            rw [if_neg (Nat.ne_of_lt before)]
          · rename_i last
            rw [if_pos (by omega)]

theorem plan_caseHeader (field : Field) {selector : CaseSelector}
    (kind : (diagram.role id).kind = .caseHeader selector) :
    Plan.caseHeader selector (diagram.cell id) (children.map diagram.cell) =
      (diagram.role id).plan field (children.map diagram.role) := by
  let start := (children.map diagram.cell).findIdx (Cell.isArmOf (diagram.cell id))
  have bound : start ≤ (children.map diagram.cell).length := List.findIdx_le_length
  have body : (diagram.role id).bodyFrom (children.map diagram.role) = start := by
    simp only [Role.bodyFrom, kind, start, ← findIdx?_getD_length, List.findIdx?_map,
      List.length_map]
    congr 2
    funext child
    exact (isArmOf_cell diagram id child).symm
  rw [Role.plan, body, Plan.caseHeader, Role.requests]
  refine congrArg₂ Plan.mk ?_ rfl
  rw [List.length_map] at bound
  apply List.ext_getElem
  · simp only [List.length_append, List.length_map, length_caseHeaderFields, List.length_drop,
      List.length_mapIdx]
    exact Nat.add_sub_cancel' bound
  · intro index _ _
    simp only [List.getElem_mapIdx, List.getElem_append, List.length_map,
      length_caseHeaderFields, List.getElem_map, getElem_caseHeaderFields, List.getElem_drop,
      Role.asks, kind, body]
    by_cases before : index < start
    · rw [dif_pos before, if_neg (Nat.not_le_of_lt before)]
      split <;> rfl
    · rw [dif_neg before, if_pos (Nat.le_of_not_lt before)]
      have aligned : start + (index - start) = index :=
        Nat.add_sub_cancel' (Nat.le_of_not_lt before)
      simp only [start] at aligned
      simp only [aligned]
      rfl

theorem plan_caseArm (field : Field) (kind : (diagram.role id).kind = .caseArm) :
    Plan.caseArm (children.map diagram.cell) =
      (diagram.role id).plan field (children.map diagram.role) := by
  have body : (diagram.role id).bodyFrom (children.map diagram.role) = 0 := by
    simp [Role.bodyFrom, kind]
  rw [Role.plan, body, Plan.caseArm, Role.requests]
  congr 1
  apply List.ext_getElem
  · simp
  · intro index _ _
    simp [Role.asks, kind]

theorem plan_database (field : Field) (kind : (diagram.role id).kind = .database) :
    Plan.database (children.map diagram.cell) =
      (diagram.role id).plan field (children.map diagram.role) := by
  have body : (diagram.role id).bodyFrom (children.map diagram.role) = 0 := by
    simp [Role.bodyFrom, kind]
  rw [Role.plan, body, Plan.database, Role.requests,
    replicate_append_replicate _ _ _ List.findIdx_le_length]
  congr 1
  apply List.ext_getElem
  · simp
  · intro index inside _
    have shorter : index < (children.map diagram.role).length := by simpa using inside
    simp only [List.getElem_mapIdx, Role.asks, kind, any_take_succ _ _ shorter,
      decide_eq_true_eq, ← Nat.not_lt, ite_not, List.findIdx_map]
    rfl

/-- Every kind of statement but a token plans what its role asks for. -/
theorem plan_of (field : Field) (kind : (diagram.role id).kind ≠ .token) :
    Plan.of field (diagram.cell id) (children.map diagram.cell) =
      (diagram.role id).plan field (children.map diagram.role) := by
  have same : (diagram.cell id).kind = (diagram.role id).kind := rfl
  unfold Plan.of
  rw [same]
  cases hk : (diagram.role id).kind with
  | forLoop => exact plan_forLoop field hk
  | whileLoop subject => exact plan_whileLoop field hk
  | alternative => exact plan_alternative field hk
  | caseHeader selector => exact plan_caseHeader field hk
  | caseArm => exact plan_caseArm field hk
  | database => exact plan_database field hk
  | token => exact absurd hk kind
  | _ =>
      apply plan_uniform
      · intro roles index child
        simp [Role.asks, hk]
      · intro roles
        simp [Role.bodyFrom, hk]

theorem plan_bodyStart (field : Field) :
    (Plan.of field (diagram.cell id) (children.map diagram.cell)).bodyStart =
      (diagram.role id).bodyFrom (children.map diagram.role) := by
  by_cases kind : (diagram.role id).kind = .token
  · have same : (diagram.cell id).kind = .token := kind
    simp [Plan.of, same, Role.bodyFrom, kind]
  · rw [plan_of field kind]
    rfl

/-- The plan of a statement makes the requests of its role.  That of a token has none, where the role
has one that asks nothing for each child. -/
theorem plan_requests (diagram : Diagram) (id : Nat) (children : List Nat) (field : Field) :
    (Plan.of field (diagram.cell id) (children.map diagram.cell)).requests =
        (diagram.role id).requests field (children.map diagram.role) ∨
      (Plan.of field (diagram.cell id) (children.map diagram.cell)).requests = [] ∧
        (diagram.role id).requests field (children.map diagram.role) =
          List.replicate (children.map diagram.role).length none := by
  by_cases kind : (diagram.role id).kind = .token
  · right
    have same : (diagram.cell id).kind = .token := kind
    refine ⟨by simp [Plan.of, same], ?_⟩
    rw [Role.requests, List.mapIdx_eq_replicate_iff]
    intro index inside
    simp [Role.asks, kind]
  · left
    rw [plan_of field kind]
    rfl

theorem fillAll_none (trees : List (Rose Cell)) (count : Nat) (diagram : Diagram) :
    fillAll trees (List.replicate count none) diagram = diagram := by
  induction trees generalizing count with
  | nil => cases count <;> rfl
  | cons tree trees ih =>
      cases count with
      | zero => rfl
      | succ count => exact ih count

/-- The children of a statement are filled as its role asks for. -/
theorem fillAll_plan (field : Field) (trees : List (Rose Cell)) (started : Diagram) :
    fillAll trees (Plan.of field (diagram.cell id) (children.map diagram.cell)).requests started =
      fillAll trees ((diagram.role id).requests field (children.map diagram.role)) started := by
  cases plan_requests diagram id children field with
  | inl same => rw [same]
  | inr token =>
      rw [token.1, token.2, fillAll_none]
      exact fillAll_none trees 0 started

end NassiChart.Diagram
