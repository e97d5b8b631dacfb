import NassiChart.Proofs.Calls
import NassiChart.Proofs.Replaced
import NassiChart.Proofs.StatementsOfNodes

/-! # The texts around a body

A body is asked for nothing but body text, so all that can leave it is that and the conditions of
arms.  The statement around the body keeps the first, and the nearest case header the second.  Two
trees that differ in one body only therefore agree in all other texts, which is an equality of what
the two emit outside of a few fields (`AgreeOutside`), carried up from the body to the root.
-/

namespace NassiChart.Diagram

open NassiChart.Grammar

/-- The entries for all other fields are the same, in the same order. -/
def AgreeOutside (hidden : List Field) (entries others : List Entry) : Prop :=
  entries.filter (·.1 ∉ hidden) = others.filter (·.1 ∉ hidden)

namespace AgreeOutside

variable {hidden fewer : List Field} {entries others : List Entry}

theorem refl (hidden : List Field) (entries : List Entry) : AgreeOutside hidden entries entries :=
  rfl

/-- A choice of entries that never takes a hidden field takes the same from both. -/
theorem filter (agree : AgreeOutside hidden entries others) {chosen : Entry → Bool}
    (shown : ∀ entry, chosen entry = true → entry.1 ∉ hidden) :
    entries.filter chosen = others.filter chosen := by
  have twice : ∀ entries : List Entry,
      entries.filter chosen = (entries.filter (·.1 ∉ hidden)).filter chosen := by
    intro entries
    rw [List.filter_filter]
    refine List.filter_congr fun entry _ => ?_
    cases taken : chosen entry with
    | false => rfl
    | true => simp [shown entry taken]
  rw [twice entries, twice others, agree]

theorem append {more rest : List Entry} (first : AgreeOutside hidden entries others)
    (second : AgreeOutside hidden more rest) :
    AgreeOutside hidden (entries ++ more) (others ++ rest) := by
  rw [AgreeOutside, List.filter_append, List.filter_append, first, second]

theorem flatten {parts pieces : List (List Entry)}
    (each : List.Forall₂ (AgreeOutside hidden) parts pieces) :
    AgreeOutside hidden parts.flatten pieces.flatten := by
  induction each with
  | nil => rfl
  | cons here _ ih => exact here.append ih

end AgreeOutside

/-- The kinds that keep the text of their body apart. -/
def StatementKind.holdsBody : StatementKind → Bool
  | forLoop | foreverLoop | whileLoop _ | alternative | caseHeader _ => true
  | _ => false

theorem body_mem_fields {kind : StatementKind} (holds : kind.holdsBody = true) :
    .body ∈ kind.fields := by
  cases kind <;> simp_all [StatementKind.holdsBody, StatementKind.fields]

theorem branches_mem_fields_iff {kind : StatementKind} :
    .branches ∈ kind.fields ↔ kind.isHeader = true := by
  cases kind <;> simp [StatementKind.isHeader, StatementKind.fields]

/-- The children of a body are asked for nothing but body text. -/
theorem Role.eq_body_of_asks {role : Role} (holds : role.kind.holdsBody = true)
    {children : List Role} {index : Nat} {child : Role} (here : children[index]? = some child)
    (late : role.bodyFrom children ≤ index) {field asked : Field}
    (asks : role.asks field children index child = some asked) : asked = .body := by
  have inside := (List.getElem?_eq_some_iff.mp here).1
  cases hk : role.kind with
  | forLoop =>
      have start : (if (children[4]?).any (!·.holdsLoop) then 5 else 4) ≤ index := by
        simp only [Role.bodyFrom, hk] at late
        omega
      split at start
      · obtain ⟨later, rfl⟩ := Nat.exists_eq_add_of_le' start
        simp only [Role.asks, hk] at asks
        exact (Option.some.inj asks).symm
      · rename_i loop
        obtain ⟨later, rfl⟩ := Nat.exists_eq_add_of_le' start
        cases later with
        | zero =>
            have holdsLoop : child.holdsLoop = true := by simpa [here] using loop
            simp only [Role.asks, hk, holdsLoop, if_true] at asks
            exact (Option.some.inj asks).symm
        | succ later =>
            simp only [Role.asks, hk] at asks
            exact (Option.some.inj asks).symm
  | alternative =>
      simp only [Role.asks, hk, Nat.not_lt_of_le late, if_false] at asks
      split at asks
      · cases asks
      · exact (Option.some.inj asks).symm
  | caseHeader selector =>
      simp only [Role.asks, hk, late, if_true] at asks
      split at asks
      · cases asks
      · exact (Option.some.inj asks).symm
  | whileLoop subject =>
      simp only [Role.asks, hk, Nat.not_lt_of_le late, if_false] at asks
      exact (Option.some.inj asks).symm
  | foreverLoop =>
      simp only [Role.asks, hk] at asks
      exact (Option.some.inj asks).symm
  | _ => simp [hk, StatementKind.holdsBody] at holds

theorem get_collected_of_notMem {kind : StatementKind} {field : Field}
    (foreign : field ∉ kind.fields) (entries : List Entry) : (collected kind entries).get field = [] := by
  have absent : (kind.fields.map fun field =>
      (field, (entries.filter (·.1 = field)).map (·.2))).lookup field = none := by
    rw [List.lookup_eq_none_iff]
    intro entry member
    obtain ⟨own, inside, rfl⟩ := List.mem_map.mp member
    exact bne_iff_ne.mpr fun same => foreign (same ▸ inside)
  rw [Buffers.get, collected, absent]
  rfl

/-- What reaches a statement that is asked for a field. -/
def reaching (role : Role) (trees : List (Rose Role)) (field : Field) : List Entry :=
  arrivals role (trees.map Rose.value)
    (emitEach trees (role.requests field (trees.map Rose.value)))

theorem emit_node (role : Role) (trees : List (Rose Role)) (field : Field) :
    emit (.node role trees) field =
      leading role ++ passedOn role.kind (reaching role trees field) ++
        trailing role field (collected role.kind (reaching role trees field)) := by
  rw [emit]
  rfl

section Statement

variable {hidden fewer : List Field} {role : Role} {trees others : List (Rose Role)}
  {field : Field}

theorem AgreeOutside.get_collected {entries others : List Entry}
    (agree : AgreeOutside hidden entries others) (kind : StatementKind) (shown : field ∉ hidden) :
    (collected kind entries).get field = (collected kind others).get field := by
  by_cases own : field ∈ kind.fields
  · rw [Diagram.get_collected own, Diagram.get_collected own]
    refine congrArg _ (agree.filter fun entry taken => ?_)
    rw [of_decide_eq_true taken]
    exact shown
  · rw [get_collected_of_notMem own, get_collected_of_notMem own]

theorem AgreeOutside.trailing {entries others : List Entry}
    (agree : AgreeOutside hidden entries others) (role : Role) (field : Field)
    (few : hidden ⊆ [.body, .branches]) :
    trailing role field (collected role.kind entries) =
      trailing role field (collected role.kind others) := by
  have joined : ∀ shown : Field, shown ≠ .body → shown ≠ .branches →
      (collected role.kind entries).joined shown = (collected role.kind others).joined shown := by
    intro shown notBody notBranches
    refine congrArg _ (agree.get_collected role.kind fun inside => ?_)
    have either := few inside
    simp [notBody, notBranches] at either
  unfold Diagram.trailing
  rw [joined .condition (by decide) (by decide), joined .instruction (by decide) (by decide)]

/-- What a statement emits agrees outside of the fields that it does not keep. -/
theorem emit_agree
    (reached : AgreeOutside hidden (reaching role trees field) (reaching role others field))
    (few : hidden ⊆ [.body, .branches])
    (kept : ∀ field ∈ hidden, field ∈ role.kind.fields ∨ field ∈ fewer) :
    AgreeOutside fewer (emit (.node role trees) field) (emit (.node role others) field) := by
  have passed : AgreeOutside fewer (passedOn role.kind (reaching role trees field))
      (passedOn role.kind (reaching role others field)) := by
    rw [AgreeOutside, passedOn, passedOn, List.filter_filter, List.filter_filter]
    refine reached.filter fun entry taken inside => ?_
    rw [Bool.and_eq_true, decide_eq_true_eq, decide_eq_true_eq] at taken
    cases kept entry.1 inside with
    | inl own => exact taken.2 own
    | inr left => exact taken.1 left
  have first := AgreeOutside.refl fewer (leading role)
  rw [emit_node, emit_node, reached.trailing role field few]
  exact (first.append passed).append (.refl fewer _)

theorem forall₂_emitEach {trees others : List (Rose Role)} {requests : List (Option Field)}
    (length : trees.length = others.length)
    (each : ∀ (index : Nat) tree other asked, trees[index]? = some tree →
      others[index]? = some other → requests[index]? = some (some asked) →
      AgreeOutside hidden (emit tree asked) (emit other asked)) :
    List.Forall₂ (AgreeOutside hidden) (emitEach trees requests) (emitEach others requests) := by
  induction trees generalizing others requests with
  | nil =>
      obtain rfl := List.length_eq_zero_iff.mp length.symm
      cases requests <;> exact .nil
  | cons tree trees ih =>
      obtain ⟨other, others, rfl⟩ := List.exists_cons_of_length_eq_add_one length.symm
      cases requests with
      | nil => exact .nil
      | cons request requests =>
          have rest := ih (Nat.succ.inj length) fun index => each (index + 1)
          cases request with
          | none => exact .cons (.refl hidden []) rest
          | some asked => exact .cons (each 0 tree other asked rfl rfl rfl) rest

/-- What reaches a statement agrees if all that its children emit does. -/
theorem reaching_agree
    (alike : (trees.map Rose.value).map Role.textless = (others.map Rose.value).map Role.textless)
    (each : ∀ (index : Nat) tree other asked, trees[index]? = some tree →
      others[index]? = some other →
      (role.requests field (trees.map Rose.value))[index]? = some (some asked) →
      AgreeOutside hidden (emit tree asked) (emit other asked)) :
    AgreeOutside hidden (reaching role trees field) (reaching role others field) := by
  obtain ⟨requests, start⟩ := requests_congr role field alike
  have length : trees.length = others.length := by
    have lengths := congrArg List.length alike
    simpa only [List.length_map] using lengths
  have parts := forall₂_emitEach length each
  unfold reaching arrivals
  rw [← requests, ← start]
  split
  · exact (AgreeOutside.flatten (List.forall₂_take _ parts)).append
      (.append (.refl hidden [_]) (.flatten (List.forall₂_drop _ parts)))
  · exact .flatten parts

end Statement

/-- The requests for the children of a statement that is asked for a field, or left alone. -/
def Role.requestsFor (role : Role) (request : Option Field) (children : List Role) :
    List (Option Field) :=
  match request with
  | some field => role.requests field children
  | none => children.map fun _ => none

/-- The outcome of a statement that is asked for a field, or left alone. -/
def outcomeFor (role : Role) (request : Option Field) (trees : List (Rose Role)) : Outcome :=
  match request with
  | some field => ⟨role, collected role.kind (reaching role trees field),
      role.bodyFrom (trees.map Rose.value)⟩
  | none => .blank role

theorem filled_node (role : Role) (trees : List (Rose Role)) (request : Option Field) :
    filled (.node role trees) request = .node (outcomeFor role request trees)
      (List.zipWith filled trees (role.requestsFor request (trees.map Rose.value))) := by
  cases request with
  | some field =>
      rw [filled, filledEach_eq_zipWith]
      rfl
  | none =>
      rw [filled_none, Rose.map, Rose.mapAll_eq_map, Role.requestsFor, List.map_map,
        List.zipWith_map_right, List.zipWith_self]
      exact congrArg _ (List.map_congr_left fun tree _ => (filled_none tree).symm)

theorem at?_filled_cons (role : Role) (trees : List (Rose Role)) (request : Option Field)
    (index : Nat) (place : List Nat) :
    (filled (.node role trees) request).at? (index :: place) =
      trees[index]?.bind fun tree =>
        (role.requestsFor request (trees.map Rose.value))[index]?.bind fun asked =>
          (filled tree asked).at? place := by
  rw [filled_node, Rose.at?, List.getElem?_zipWith]
  cases trees[index]? with
  | none => rfl
  | some tree =>
      cases (role.requestsFor request (trees.map Rose.value))[index]? <;> rfl

theorem requestsFor_congr (role : Role) (request : Option Field) {children others : List Role}
    (same : children.map Role.textless = others.map Role.textless) :
    role.requestsFor request children = role.requestsFor request others := by
  cases request with
  | some field => exact (requests_congr role field same).1
  | none =>
      have lengths := congrArg List.length same
      simp only [List.length_map] at lengths
      simp only [Role.requestsFor, List.map_const', lengths]

theorem getElem?_append_cons_self {α : Type} (before after : List α) (x : α) :
    (before ++ x :: after)[before.length]? = some x := by
  simp

theorem getElem?_append_cons_ne {α : Type} {before after : List α} {x : α} {index : Nat} (y : α)
    (apart : index ≠ before.length) :
    (before ++ x :: after)[index]? = (before ++ y :: after)[index]? := by
  rw [List.getElem?_append, List.getElem?_append]
  split
  · rfl
  · obtain ⟨later, rfl⟩ : ∃ later, index = before.length + (later + 1) :=
      ⟨index - before.length - 1, by omega⟩
    rw [Nat.add_sub_cancel_left, List.getElem?_cons_succ, List.getElem?_cons_succ]

/-- The statement at the place holds a body from its child number `start` on. -/
def HoldsBodyAt (tree : Rose Role) (request : Option Field) (place : List Nat) (start : Nat) :
    Prop :=
  ∃ outcome, (filled tree request).at? place = some outcome ∧
    outcome.role.kind.holdsBody = true ∧ outcome.bodyStart = start

theorem HoldsBodyAt.deeper {role : Role} {before after : List (Rose Role)} {tree : Rose Role}
    {request : Option Field} {place : List Nat} {start : Nat}
    (holds : HoldsBodyAt (.node role (before ++ tree :: after)) request (before.length :: place)
      start) {asked : Option Field}
    (here : (role.requestsFor request ((before ++ tree :: after).map Rose.value))[before.length]? =
      some asked) : HoldsBodyAt tree asked place start := by
  obtain ⟨outcome, found, rest⟩ := holds
  rw [at?_filled_cons, getElem?_append_cons_self, here] at found
  exact ⟨outcome, found, rest⟩

/-- What may leave the replaced part: conditions of arms, if no case header is on the way. -/
def escaping (tree : Rose Role) (place : List Nat) : List Field :=
  if (tree.lowest? (·.kind.isHeader) place).isSome then [] else [.branches]

theorem lowest?_deeper (test : Role → Bool) (role : Role) (before after : List (Rose Role))
    (tree : Rose Role) (place : List Nat) :
    (Rose.node role (before ++ tree :: after)).lowest? test (before.length :: place) =
      ((tree.lowest? test place).map (before.length :: ·)).or
        (if test role then some [] else none) := by
  rw [Rose.lowest?, getElem?_append_cons_self]
  rfl

theorem mem_escaping_iff {tree : Rose Role} {place : List Nat} {field : Field} :
    field ∈ escaping tree place ↔
      field = .branches ∧ tree.lowest? (·.kind.isHeader) place = none := by
  rw [escaping]
  cases tree.lowest? (·.kind.isHeader) place <;> simp

theorem escaping_subset (tree : Rose Role) (place : List Nat) :
    escaping tree place ⊆ [.body, .branches] := by
  intro field member
  rw [(mem_escaping_iff.mp member).1]
  exact List.mem_cons_of_mem _ List.mem_cons_self

theorem agreeOutside_of_body {field : Field} (body : field = .body) (tree other : Rose Role) :
    AgreeOutside [.body, .branches] (emit tree field) (emit other field) := by
  have all : ∀ tree, (emit tree field).filter (·.1 ∉ [Field.body, .branches]) = [] := by
    intro tree
    rw [List.filter_eq_nil_iff]
    intro entry member
    rcases emit_field tree member with same | same <;> simp [same, body]
  rw [AgreeOutside, all, all]

section Replaced

variable {start : Nat} {role : Role} {field : Field} {place : List Nat}

theorem reaching_here {before inner outer : List (Rose Role)}
    (each : List.Forall₂ (fun tree other => Role.Alike tree.value other.value) inner outer)
    (holds : role.kind.holdsBody = true)
    (body : role.bodyFrom ((before ++ inner).map Rose.value) = before.length) :
    AgreeOutside [.body, .branches] (reaching role (before ++ inner) field)
      (reaching role (before ++ outer) field) := by
  apply reaching_agree (textless_here each)
  intro index tree other asked here there request
  by_cases early : index < before.length
  · rw [List.getElem?_append_left early] at here there
    obtain rfl := Option.some.inj (here.symm.trans there)
    exact .refl _ _
  · have child : ((before ++ inner).map Rose.value)[index]? = some tree.value := by
      rw [List.getElem?_map, here]
      rfl
    rw [Role.requests, List.getElem?_mapIdx, child] at request
    exact agreeOutside_of_body (Role.eq_body_of_asks holds child
      (body ▸ Nat.le_of_not_lt early) (Option.some.inj request)) tree other

theorem reaching_deeper {before after : List (Rose Role)} {tree other : Rose Role}
    (role : Role) (field : Field) (hidden : List Field)
    (further : Rose.Replaced Role.Alike start place tree other)
    (each : ∀ asked,
      (role.requests field ((before ++ tree :: after).map Rose.value))[before.length]? =
        some (some asked) → AgreeOutside hidden (emit tree asked) (emit other asked)) :
    AgreeOutside hidden (reaching role (before ++ tree :: after) field)
      (reaching role (before ++ other :: after) field) := by
  apply reaching_agree (textless_deeper further)
  intro index first second asked here there request
  by_cases same : index = before.length
  · subst same
    rw [getElem?_append_cons_self, Option.some.injEq] at here there
    exact here ▸ there ▸ each asked request
  · rw [getElem?_append_cons_ne other same] at here
    obtain rfl := Option.some.inj (here.symm.trans there)
    exact .refl _ _

/-- Of what a tree emits, only conditions of arms can depend on a replaced body, and a case header
on the way to the body keeps these as well. -/
theorem emit_replaced {tree other : Rose Role}
    (replaced : Rose.Replaced Role.Alike start place tree other) {field : Field}
    (holds : HoldsBodyAt tree (some field) place start) :
    AgreeOutside (escaping tree place) (emit tree field) (emit other field) := by
  induction replaced generalizing field with
  | @here role before inner outer length each =>
      obtain ⟨outcome, found, kind, body⟩ := holds
      obtain rfl := Option.some.inj found
      refine emit_agree (reaching_here each kind (body.trans length.symm)) (List.Subset.refl _) ?_
      intro hidden member
      rcases List.mem_pair.mp member with rfl | rfl
      · exact .inl (body_mem_fields kind)
      · rw [branches_mem_fields_iff, mem_escaping_iff, Rose.lowest?]
        cases role.kind.isHeader <;> simp
  | @deeper role before after tree other place further ih =>
      have reached := reaching_deeper role field (escaping tree place) further
        fun asked request => ih (holds.deeper request)
      refine emit_agree reached (escaping_subset tree place) ?_
      intro hidden member
      obtain ⟨rfl, noHeader⟩ := mem_escaping_iff.mp member
      rw [branches_mem_fields_iff, mem_escaping_iff, lowest?_deeper, noHeader]
      cases role.kind.isHeader <;> simp

/-- What reaches a statement that holds the replaced part. -/
theorem get_outcomeFor {trees others : List (Rose Role)} {request : Option Field}
    (hidden : List Field)
    (reached : ∀ asked, request = some asked →
      AgreeOutside hidden (reaching role trees asked) (reaching role others asked))
    (shown : field ∈ hidden → field ∉ role.kind.fields) :
    (outcomeFor role request trees).buffers.get field =
      (outcomeFor role request others).buffers.get field := by
  cases request with
  | none => rfl
  | some asked =>
      change (collected _ _).get field = (collected _ _).get field
      by_cases inside : field ∈ hidden
      · rw [get_collected_of_notMem (shown inside), get_collected_of_notMem (shown inside)]
      · exact (reached asked rfl).get_collected role.kind inside

/-- Outside of a replaced body all texts are the same, apart from the body text of the statement
around it and the conditions of the nearest case header. -/
theorem filled_replaced {tree other : Rose Role}
    (replaced : Rose.Replaced Role.Alike start place tree other) {request : Option Field}
    (holds : HoldsBodyAt tree request place start) {target : List Nat}
    (outside : ∀ index, start ≤ index → ¬ place ++ [index] <+: target)
    (notBody : ¬ (target = place ∧ field = .body))
    (notBranches : ¬ (field = .branches ∧
      tree.lowest? (·.kind.isHeader) place = some target)) :
    ((filled tree request).at? target).map (·.buffers.get field) =
      ((filled other request).at? target).map (·.buffers.get field) := by
  induction replaced generalizing request target with
  | @here role before inner outer length each =>
      cases target with
      | nil =>
          rw [filled_node, filled_node]
          refine congrArg some (get_outcomeFor [.body, .branches] ?_ ?_)
          · rintro asked rfl
            obtain ⟨outcome, found, kind, body⟩ := holds
            obtain rfl := Option.some.inj found
            exact reaching_here each kind (body.trans length.symm)
          · intro member own
            rcases List.mem_pair.mp member with rfl | rfl
            · exact notBody ⟨rfl, rfl⟩
            · refine notBranches ⟨rfl, ?_⟩
              rw [Rose.lowest?, if_pos (branches_mem_fields_iff.mp own)]
      | cons index target =>
          have early : index < before.length := by
            by_contra late
            exact outside index (length ▸ Nat.le_of_not_lt late) ⟨target, rfl⟩
          rw [at?_filled_cons, at?_filled_cons, requestsFor_congr role request (textless_here each),
            List.getElem?_append_left early, List.getElem?_append_left early]
  | @deeper role before after tree other place further ih =>
      cases target with
      | nil =>
          rw [filled_node, filled_node]
          refine congrArg some (get_outcomeFor (escaping tree place) ?_ ?_)
          · rintro asked rfl
            exact reaching_deeper role asked _ further fun asked' here =>
              emit_replaced further (holds.deeper here)
          · intro member own
            obtain ⟨rfl, noHeader⟩ := mem_escaping_iff.mp member
            refine notBranches ⟨rfl, ?_⟩
            rw [lowest?_deeper, noHeader, if_pos (branches_mem_fields_iff.mp own)]
            rfl
      | cons index target =>
          rw [at?_filled_cons, at?_filled_cons,
            ← requestsFor_congr role request (textless_deeper further)]
          by_cases same : index = before.length
          · subst same
            simp only [getElem?_append_cons_self, Option.bind_some]
            cases asked : (role.requestsFor request
                ((before ++ tree :: after).map Rose.value))[before.length]? with
            | none => rfl
            | some asked' =>
                refine ih (holds.deeper asked) ?_ ?_ ?_
                · intro index late below
                  exact outside index late (List.cons_prefix_cons.mpr ⟨rfl, below⟩)
                · rintro ⟨rfl, body⟩
                  exact notBody ⟨rfl, body⟩
                · rintro ⟨branches, header⟩
                  refine notBranches ⟨branches, ?_⟩
                  rw [lowest?_deeper, header]
                  rfl
          · rw [getElem?_append_cons_ne other same]

end Replaced

/-- The texts of a field of the statement at a place, if there is one. -/
def textsAt? (diagram : Diagram) (place : List Nat) (field : Field) : Option (List String) :=
  (diagram.shape.at? place).map fun id => (diagram.statement id).buffers.get field

/-- The place of the nearest case header at or above the statement at a place. -/
def headerAbove? (diagram : Diagram) (place : List Nat) : Option (List Nat) :=
  diagram.view.lowest? (·.kind.isHeader) place

/-- The place of the statement for the node at a place.  A document may have been put on top. -/
def seat (tree : Tree) (place : List Nat) : List Nat :=
  if tree.label 0 = .production "program" then place else 0 :: place

/-- The role of the statement for a label, wherever it stands. -/
def labelRole (label : Label) : Role :=
  ⟨0, .ofLabel label, label⟩

theorem labelRole_alike {label other : Label} (same : label.textless = other.textless) :
    (labelRole label).Alike (labelRole other) := by
  have kind : StatementKind.ofLabel label = .ofLabel other := by
    cases label <;> cases other <;> simp_all [Label.textless, StatementKind.ofLabel]
  simp [Role.Alike, Role.textless, labelRole, kind, same]

theorem roles_unplaced (tree : Tree) :
    (roles tree).map Role.unplaced = withDocument (tree.labels.map labelRole) := by
  have nodes : (nodeRoles tree 0).map Role.unplaced = tree.labels.map labelRole := by
    rw [nodeRoles, Tree.labels, Rose.map_map, Rose.map_map]
    rfl
  rw [roles_eq, withDocument, withDocument, ← nodes, Rose.value_map]
  by_cases document : (nodeRoles tree 0).value.kind = .document
  · rw [if_pos document, if_pos (show (nodeRoles tree 0).value.unplaced.kind = .document from
      document)]
  · rw [if_neg document, if_neg (show ¬ (nodeRoles tree 0).value.unplaced.kind = .document from
      document)]
    rfl

theorem replaced_roles {start : Nat} {place : List Nat} {tree other : Tree}
    (replaced : Rose.Replaced (fun label other => label.textless = other.textless) start place
      tree.labels other.labels) :
    Rose.Replaced Role.Alike start (seat tree place) ((roles tree).map Role.unplaced)
      ((roles other).map Role.unplaced) := by
  have inner := replaced.map (f := labelRole) fun _ _ => labelRole_alike
  have same := inner.value_eq
  have root : (tree.labels.map labelRole).value.kind = .document ↔
      tree.label 0 = .production "program" := by
    rw [Rose.value_map, Tree.labels, Rose.value_map, Tree.shape, Rose.value_unfold]
    exact kind_nodeRole_eq_document_iff
  rw [roles_unplaced, roles_unplaced, withDocument, withDocument, ← same, seat]
  by_cases program : tree.label 0 = .production "program"
  · rw [if_pos program, if_pos (root.mpr program), if_pos (root.mpr program)]
    exact inner
  · rw [if_neg program, if_neg (mt root.mp program), if_neg (mt root.mp program)]
    exact inner.onTop _

theorem filled_at? (tree : Tree) (place : List Nat) :
    (filled ((roles tree).map Role.unplaced) (some .instruction)).at? place =
      ((build tree).shape.at? place).map fun id =>
        ((build tree).statement id).outcome.unplaced := by
  have whole : (build tree).shape.map (fun id => ((build tree).statement id).outcome) =
      filled (roles tree) (some .instruction) := by
    rw [← rolesAt_build]
    exact build_filledFor tree
  rw [filled_unplaced, ← whole, Rose.at?_map, Rose.at?_map, Option.map_map]
  rfl

theorem textsAt?_build (tree : Tree) (place : List Nat) (field : Field) :
    (build tree).textsAt? place field =
      ((filled ((roles tree).map Role.unplaced) (some .instruction)).at? place).map
        (·.buffers.get field) := by
  rw [textsAt?, filled_at?, Option.map_map, Function.comp_def]
  rfl

theorem headerAbove?_build (tree : Tree) (place : List Nat) :
    (build tree).headerAbove? place =
      ((roles tree).map Role.unplaced).lowest? (·.kind.isHeader) place := by
  rw [headerAbove?, view, Rose.lowest?_map, Rose.lowest?_map, ← rolesAt_build, rolesAt,
    Rose.lowest?_map]
  rfl

/-- Text of a body never reaches a header.  If two trees differ in nothing but what is below the
children that form the body of one statement, then in their diagrams every text outside of these
children is the same, apart from the body text that the statement itself catches and the conditions
that the nearest case header at or above it lists.  So all other texts of the statement and of
everything above it are the same. -/
theorem texts_around_body {tree other : Tree} {place : List Nat} {holder : StatementId}
    (here : (build tree).shape.at? (seat tree place) = some holder)
    (holds : ((build tree).statement holder).kind.holdsBody = true)
    (replaced : Rose.Replaced (fun label other => label.textless = other.textless)
      ((build tree).statement holder).bodyStart place tree.labels other.labels) :
    (∀ target, (∀ index, ((build tree).statement holder).bodyStart ≤ index →
        ¬ seat tree place ++ [index] <+: target) → ∀ field,
      ¬ (target = seat tree place ∧ field = .body) →
      ¬ (field = .branches ∧ (build tree).headerAbove? (seat tree place) = some target) →
      (build tree).textsAt? target field = (build other).textsAt? target field) ∧
    ∀ target, target <+: seat tree place → ∀ field, field ≠ .body → field ≠ .branches →
      (build tree).textsAt? target field = (build other).textsAt? target field := by
  have roles := replaced_roles replaced
  have found : (filled ((Diagram.roles tree).map Role.unplaced) (some .instruction)).at?
      (seat tree place) = some ((build tree).statement holder).outcome.unplaced := by
    rw [filled_at?, here, Option.map_some]
  have body : HoldsBodyAt ((Diagram.roles tree).map Role.unplaced) (some .instruction)
      (seat tree place) ((build tree).statement holder).bodyStart :=
    ⟨((build tree).statement holder).outcome.unplaced, found, holds, rfl⟩
  have outside : ∀ target, (∀ index, ((build tree).statement holder).bodyStart ≤ index →
      ¬ seat tree place ++ [index] <+: target) → ∀ field,
      ¬ (target = seat tree place ∧ field = .body) →
      ¬ (field = .branches ∧ (build tree).headerAbove? (seat tree place) = some target) →
      (build tree).textsAt? target field = (build other).textsAt? target field := by
    intro target apart field notBody notBranches
    rw [textsAt?_build, textsAt?_build]
    rw [headerAbove?_build] at notBranches
    exact filled_replaced roles body apart notBody notBranches
  refine ⟨outside, ?_⟩
  intro target above field notBody notBranches
  have apart : ∀ index, ((build tree).statement holder).bodyStart ≤ index →
      ¬ seat tree place ++ [index] <+: target := by
    intro index _ below
    have longer := (below.trans above).length_le
    rw [List.length_append, List.length_singleton] at longer
    omega
  exact outside target apart field (fun both => notBody both.2) fun both => notBranches both.1

/-- A decision with a loop in its arm, and some nodes below the statement in the loop. -/
def loopInArm (children : List NodeId) (nodes : Array Node) : Tree :=
  ⟨#[⟨0, "<DECIDE_ON>", none, .expression [1, 2, 3]⟩, ⟨1, "ON", some 0, .terminal⟩,
    ⟨1, "#X", some 0, .terminal⟩, ⟨1, "<DECIDE_ON_branch>", some 0, .expression [4, 5, 6]⟩,
    ⟨2, "VALUE", some 3, .terminal⟩, ⟨2, "1", some 3, .terminal⟩,
    ⟨2, "<REPEAT>", some 3, .expression [7]⟩, ⟨3, "<END>", some 6, .expression children⟩] ++ nodes⟩

def emptyLoopInArm : Tree :=
  loopInArm [] #[]

/-- A keyword and a stray branch with a stray arm are below the statement. -/
def strayArmInLoop : Tree :=
  loopInArm [8, 9] #[⟨4, "END", some 7, .terminal⟩, ⟨4, "<ELSE_open>", some 7, .expression [10]⟩,
    ⟨5, "<DECIDE_ON_none>", some 9, .expression []⟩]

/-- The labels of such a tree. -/
def loopLabels (below : List (Rose Label)) : Rose Label :=
  .node (.production "DECIDE_ON") [.node (.token "ON") [], .node (.token "#X") [],
    .node (.production "DECIDE_ON_branch") [.node (.token "VALUE") [], .node (.token "1") [],
      .node (.production "REPEAT") [.node (.production "END") below]]]

theorem replaced_loopLabels (below more : List (Rose Label)) :
    Rose.Replaced (fun label other => label.textless = other.textless) 0 [2, 2] (loopLabels below)
      (loopLabels more) :=
  @Rose.Replaced.deeper _ _ _ _ [_, _] [] _ _ _ (@Rose.Replaced.deeper _ _ _ _ [_, _] [] _ _ _
    (@Rose.Replaced.here _ _ _ _ [] [_] [_] rfl (.cons rfl .nil)))

/-- The stray arm is listed by the decision, and nothing else of it shows. -/
theorem texts_around_body_stray :
    (build emptyLoopInArm).textsAt? [0] .branches = some ["1"] ∧
    (build strayArmInLoop).textsAt? [0] .branches = some ["NONE", "1"] ∧
    (build strayArmInLoop).textsAt? [0] .control = some ["#X"] ∧
    (build strayArmInLoop).textsAt? [0, 2] .condition = some ["1"] := by
  have first : emptyLoopInArm.labels = loopLabels [] := by rfl
  have second : strayArmInLoop.labels = loopLabels [.node (.token "END") [],
      .node (.production "ELSE_open") [.node (.production "DECIDE_ON_none") []]] := by rfl
  have seated : seat emptyLoopInArm [2, 2] = [0, 2, 2] := by decide +kernel
  have holder : (build emptyLoopInArm).shape.at? (seat emptyLoopInArm [2, 2]) = some 7 := by
    decide +kernel
  have holds : ((build emptyLoopInArm).statement 7).kind.holdsBody = true := by decide +kernel
  have start : ((build emptyLoopInArm).statement 7).bodyStart = 0 := by decide +kernel
  have replaced : Rose.Replaced (fun label other => label.textless = other.textless)
      ((build emptyLoopInArm).statement 7).bodyStart [2, 2] emptyLoopInArm.labels
      strayArmInLoop.labels := by
    rw [start, first, second]
    exact replaced_loopLabels _ _
  obtain ⟨-, same⟩ := texts_around_body holder holds replaced
  rw [seated] at same
  refine ⟨?_, ?_, ?_, ?_⟩
  · decide +kernel
  · decide +kernel
  · rw [← same [0] (by decide) .control (by decide) (by decide)]
    decide +kernel
  · rw [← same [0, 2] (by decide) .condition (by decide) (by decide)]
    decide +kernel

end NassiChart.Diagram
