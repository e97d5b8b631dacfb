import NassiChart.Proofs.Drawing

/-! # What some of the children emit

Many statements ask one run of their children for one field and the rest for another.  What reaches
such a statement is what the first run emits for the first field, followed by what the second run
emits for the second (`arrivalsAt_of_requests`).  For a token and for a production that is passed
through this says what they emit themselves.
-/

namespace NassiChart.Diagram

open NassiChart.Grammar

theorem emitEach_append {trees more : List (Rose Role)} {requests others : List (Option Field)}
    (aligned : trees.length = requests.length) :
    emitEach (trees ++ more) (requests ++ others) =
      emitEach trees requests ++ emitEach more others := by
  induction trees generalizing requests with
  | nil =>
      obtain rfl := List.length_eq_zero_iff.mp aligned.symm
      rfl
  | cons tree trees ih =>
      cases requests with
      | nil => cases aligned
      | cons request requests =>
          have rest := ih (Nat.succ.inj aligned)
          cases request with
          | none => simp only [List.cons_append, emitEach, rest]
          | some field => simp only [List.cons_append, emitEach, rest]

theorem emitEach_replicate (trees : List (Rose Role)) (field : Field) :
    emitEach trees (List.replicate trees.length (some field)) =
      trees.map fun tree => emit tree field := by
  induction trees with
  | nil => rfl
  | cons tree trees ih => rw [List.length_cons, List.replicate_succ, emitEach, ih, List.map_cons]

/-- The text of a token. -/
def Role.text? (role : Role) : Option String :=
  match role.kind, role.label with
  | .token, .token text => some text
  | _, _ => none

theorem Role.text?_of_ne {role : Role} (notToken : role.kind ≠ .token) : role.text? = none := by
  rw [text?]
  split
  · exact absurd ‹_› notToken
  · rfl

/-- The entries of some texts for one field. -/
def entriesFor (field : Field) (texts : List String) : List Entry :=
  texts.map fun text => (field, text)

theorem texts_entriesFor (field other : Field) (texts : List String) :
    ((entriesFor field texts).filter (·.1 = other)).map (·.2) =
      if field = other then texts else [] := by
  by_cases same : field = other <;> simp [entriesFor, List.filter_map, same, Function.comp_def]

theorem passedOn_entriesFor (kind : StatementKind) (field : Field) (texts : List String) :
    passedOn kind (entriesFor field texts) =
      if field ∈ kind.fields then [] else entriesFor field texts := by
  by_cases own : field ∈ kind.fields <;>
    simp [passedOn, entriesFor, List.filter_map, own, Function.comp_def]

variable {diagram : Diagram} {id : Nat}

/-- The children are asked for one field, and from some child on for another. -/
theorem arrivalsAt_of_requests {field first second : Field} {front back : List Nat}
    (plain : (diagram.role id).kind ≠ .caseHeader .condition)
    (split : diagram.children id = front ++ back)
    (requests : (diagram.role id).requests field (diagram.childRoles id) =
      List.replicate front.length (some first) ++ List.replicate back.length (some second)) :
    diagram.arrivalsAt id field =
      (front.flatMap fun child => emit (diagram.rolesAt child) first) ++
        back.flatMap fun child => emit (diagram.rolesAt child) second := by
  have part : ∀ (ids : List Nat) (asked : Field),
      emitEach (ids.map diagram.rolesAt) (List.replicate ids.length (some asked)) =
        ids.map fun child => emit (diagram.rolesAt child) asked := by
    intro ids asked
    have each := emitEach_replicate (ids.map diagram.rolesAt) asked
    rwa [List.length_map, List.map_map] at each
  rw [arrivalsAt, arrivals_of_ne plain, requests, split, List.map_append,
    emitEach_append (by simp), part, part, List.flatten_append, List.flatMap_def, List.flatMap_def]

/-- All children are asked for one field. -/
theorem arrivalsAt_of_replicate {field asked : Field}
    (plain : (diagram.role id).kind ≠ .caseHeader .condition)
    (requests : (diagram.role id).requests field (diagram.childRoles id) =
      List.replicate (diagram.childRoles id).length (some asked)) :
    diagram.arrivalsAt id field =
      (diagram.children id).flatMap fun child => emit (diagram.rolesAt child) asked := by
  have count : (diagram.childRoles id).length = (diagram.children id).length := List.length_map _
  have padded : (diagram.role id).requests field (diagram.childRoles id) =
      List.replicate (diagram.children id).length (some asked) ++
        List.replicate ([] : List Nat).length (some asked) := by
    rw [requests, count]
    exact (List.append_nil _).symm
  have whole := arrivalsAt_of_requests plain (List.append_nil _).symm padded
  rwa [List.flatMap_nil, List.append_nil] at whole

/-- A token emits its text. -/
theorem emit_of_token (linked : diagram.Linked) (inside : id < diagram.size)
    (token : (diagram.role id).kind = .token) (childless : diagram.children id = [])
    (field : Field) :
    emit (diagram.rolesAt id) field = entriesFor field (diagram.role id).text?.toList := by
  rw [emit_rolesAt linked inside]
  simp only [arrivalsAt, childless, List.map_nil, emitEach, arrivals, token, leading, trailing,
    passedOn, Role.text?, List.flatten_nil, List.filter_nil]
  cases (diagram.role id).label <;> rfl

/-- A production that is passed through emits what its children emit. -/
theorem emit_of_passThrough (linked : diagram.Linked) (inside : id < diagram.size)
    (passed : (diagram.role id).kind = .passThrough) (field : Field) :
    emit (diagram.rolesAt id) field =
      (diagram.children id).flatMap fun child => emit (diagram.rolesAt child) field := by
  have plain : (diagram.role id).kind ≠ .caseHeader .condition := by
    rw [passed]
    decide
  rw [emit_rolesAt linked inside,
    arrivalsAt_of_replicate plain (Role.requests_of_isOpen (.inr passed) ..)]
  simp [leading, trailing, passedOn, passed, StatementKind.fields]

end NassiChart.Diagram
