import NassiChart.Proofs.Links
import NassiChart.Proofs.Requests
import NassiChart.Proofs.Routing

/-! # Filling follows the emissions

The walk `fillFrom` changes an arena, `emit` and `filled` recurse on a bare tree.  `Filled` ties the
two together for the subtree of one statement: statements around it gain what the subtree emits, by
the route that starts above it, and the statements inside of it become what `filled` says.  The
induction is on the depth of the subtree; a step composes what the children emit with what the
statement keeps, passes on and adds.
-/

namespace NassiChart.Diagram

open NassiChart.Grammar

theorem foldl_append_entries (fields : List Field) (texts : Field → List String)
    (entries : List Entry) :
    entries.foldl (fun buffers entry => buffers.append entry.1 entry.2)
        ⟨fields.map fun field => (field, texts field)⟩ =
      (⟨fields.map fun field =>
        (field, texts field ++ (entries.filter (·.1 = field)).map (·.2))⟩ : Buffers) := by
  induction entries generalizing texts with
  | nil => simp
  | cons entry entries ih =>
      have step : (⟨fields.map fun field => (field, texts field)⟩ : Buffers).append
          entry.1 entry.2 = ⟨fields.map fun field =>
            (field, if field = entry.1 then texts field ++ [entry.2] else texts field)⟩ := by
        simp only [Buffers.append, List.map_map, Buffers.mk.injEq]
        apply List.map_congr_left
        intro field _
        simp only [Function.comp_apply]
        split <;> rfl
      rw [List.foldl_cons, step, ih]
      congr 1
      apply List.map_congr_left
      intro field _
      by_cases same : entry.1 = field
      · simp [same]
      · simp [same, Ne.symm same]

theorem collected_eq_foldl (kind : StatementKind) (entries : List Entry) :
    entries.foldl (fun buffers entry => buffers.append entry.1 entry.2) (.blank kind.fields) =
      collected kind entries := by
  have all := foldl_append_entries kind.fields (fun _ => []) entries
  simpa [collected, Buffers.blank] using all

theorem collected_filter (kind : StatementKind) (entries : List Entry) :
    collected kind (entries.filter fun entry => entry.1 ∈ kind.fields) =
      collected kind entries := by
  simp only [collected, Buffers.mk.injEq]
  apply List.map_congr_left
  intro field own
  rw [List.filter_filter]
  congr 2
  apply List.filter_congr
  intro entry _
  by_cases same : entry.1 = field
  · simp [same, own]
  · simp [same]

/-- The order in which entries of different fields arrive does not matter. -/
theorem collected_move (kind : StatementKind) {entry : Entry} {before : List Entry}
    (other : ∀ e ∈ before, e.1 ≠ entry.1) (after : List Entry) :
    collected kind (before ++ entry :: after) = collected kind (entry :: (before ++ after)) := by
  simp only [collected, Buffers.mk.injEq]
  apply List.map_congr_left
  intro field _
  by_cases same : entry.1 = field
  · have nothing : before.filter (fun e => e.1 = field) = [] := by
      rw [List.filter_eq_nil_iff]
      intro e member
      simp [← same, other e member]
    simp [List.filter_append, same, nothing]
  · simp [List.filter_append, same]

/-- What a statement hands to itself before its children are filled. -/
def opened (role : Role) : List Entry :=
  match role.kind with
  | .caseHeader .condition => [(.control, "*")]
  | _ => []

theorem opened_of_ne {role : Role} (kind : role.kind ≠ .caseHeader .condition) :
    opened role = [] := by
  unfold opened
  split
  · contradiction
  · rfl

theorem arrivals_of_ne {role : Role} (kind : role.kind ≠ .caseHeader .condition)
    (children : List Role) (parts : List (List Entry)) :
    arrivals role children parts = parts.flatten := by
  unfold arrivals
  split
  · contradiction
  · rfl

theorem collected_arrivals (role : Role) (field : Field) (children : List Role)
    (trees : List (Rose Role)) :
    collected role.kind
        (opened role ++ (emitEach trees (role.requests field children)).flatten) =
      collected role.kind
        (arrivals role children (emitEach trees (role.requests field children))) := by
  have below := @emitEach_field trees (role.requests field children)
  generalize emitEach trees (role.requests field children) = parts at below
  by_cases kind : role.kind = .caseHeader .condition
  · simp only [opened, arrivals, kind]
    rw [collected_move, ← List.flatten_append, List.take_append_drop]
    · rfl
    · intro entry member control
      obtain ⟨part, inside, mem⟩ := List.mem_flatten.mp member
      have reached := List.mem_flatten.mpr ⟨part, List.mem_of_mem_take inside, mem⟩
      cases below reached with
      | inl asked =>
          obtain ⟨index, child, request⟩ := Role.of_mem_requests asked
          rw [control] at request
          exact Role.asks_ne_control kind request
      | inr branches => exact absurd (control.symm.trans branches) (by decide)
  · rw [opened_of_ne kind, arrivals_of_ne kind, List.nil_append]

theorem passedOn_arrivals (role : Role) (children : List Role) (parts : List (List Entry)) :
    passedOn role.kind (arrivals role children parts) = passedOn role.kind parts.flatten := by
  by_cases kind : role.kind = .caseHeader .condition
  · have own : Field.control ∈ role.kind.fields := by simp [kind, StatementKind.fields]
    have halves := List.take_append_drop (role.bodyFrom children) parts
    simp only [arrivals, kind] at own ⊢
    rw [← halves, List.flatten_append]
    simp [passedOn, List.filter_append, own]
  · rw [arrivals_of_ne kind]

theorem IsBlank.declares {start : Diagram} (blank : start.IsBlank) {id : Nat}
    (inside : id < start.size) (field : Field) :
    start.declares field id = decide (field ∈ (start.role id).kind.fields) := by
  have here : start.statement? id = some (start.statement id) := by
    simp [statement, statement?, Array.getElem?_eq_getElem inside]
  have buffers := congrArg Outcome.buffers (blank id)
  simp only [Statement.outcome, Outcome.blank] at buffers
  rw [declares_eq, here, Option.any_some, buffers, Buffers.fields_blank]

section Ends

variable {start diagram : Diagram} {id : Nat} (same : diagram.frame = start.frame)

include same

theorem gains_opening (down : Descends start.parent?) (blank : start.IsBlank)
    (inside : id < start.size) {j : Nat} (other : j ≠ id) :
    Gains (start.above? id) (leading (start.role id)) diagram
      (diagram.opening (start.cell id)) j := by
  have kind : (start.cell id).kind = (start.role id).kind := rfl
  cases hk : (start.role id).kind with
  | defaultArm =>
      simp only [opening, leading, kind, hk]
      rw [← above?_of_frame same]
      exact gains_report ..
  | caseHeader selector =>
      cases selector with
      | value =>
          simp only [opening, leading, kind, hk]
          exact .nil rfl
      | condition =>
          simp only [opening, leading, kind, hk]
          apply Gains.nil
          apply (gains_addText ..).unreached
          intro entry member
          rw [List.mem_singleton.mp member, receiver?_of_frame same]
          have taken : start.receiver? (start.cell id).id .control = some id := by
            have own : start.declares .control id = true := by
              rw [blank.declares inside, hk]
              decide
            rw [receiver?_eq down]
            exact if_pos own
          rw [taken]
          intro reached
          exact other (Option.some.inj reached).symm
  | _ =>
      simp only [opening, leading, kind, hk]
      exact .nil rfl

theorem gains_opening_self (down : Descends start.parent?) :
    Gains (start.receiver? id) (opened (start.role id)) diagram
      (diagram.opening (start.cell id)) id := by
  have kind : (start.cell id).kind = (start.role id).kind := rfl
  cases hk : (start.role id).kind with
  | defaultArm =>
      simp only [opening, opened, kind, hk]
      apply Gains.nil
      apply (gains_report ..).unreached
      intro entry _ reached
      rw [above?_of_frame same] at reached
      exact absurd (lt_of_above? down reached) (Nat.lt_irrefl id)
  | caseHeader selector =>
      cases selector with
      | value =>
          simp only [opening, opened, kind, hk]
          exact .nil rfl
      | condition =>
          simp only [opening, opened, kind, hk]
          rw [← receiver?_of_frame same]
          exact gains_addText ..
  | _ =>
      simp only [opening, opened, kind, hk]
      exact .nil rfl

theorem gains_closing (field : Field) (j : Nat) :
    Gains (start.above? id) (trailing (start.role id) field (diagram.statement id).buffers)
      diagram (diagram.closing field (start.cell id)) j := by
  have kind : (start.cell id).kind = (start.role id).kind := rfl
  have label : (start.cell id).label = (start.role id).label := rfl
  rw [← above?_of_frame same]
  cases hk : (start.role id).kind with
  | token =>
      cases hl : (start.role id).label with
      | token text =>
          simp only [closing, trailing, kind, hk, label, hl]
          exact gains_report ..
      | production name =>
          simp only [closing, trailing, kind, hk, label, hl]
          exact .nil rfl
  | caseArm =>
      simp only [closing, trailing, kind, hk]
      exact gains_report ..
  | conditionGroup =>
      simp only [closing, trailing, kind, hk]
      exact gains_report ..
  | assignment =>
      simp only [closing, trailing, kind, hk]
      exact gains_report ..
  | _ =>
      simp only [closing, trailing, kind, hk]
      exact .nil rfl

/-- What a statement reports in the end goes above it. -/
theorem statement?_closing (down : Descends start.parent?) (field : Field) {j : Nat}
    (below : id ≤ j) :
    (diagram.closing field (start.cell id)).statement? j = diagram.statement? j := by
  apply (gains_closing same field j).unreached
  intro entry _ reached
  have smaller := lt_of_above? down reached
  omega

theorem frame_opening (cell : Cell) : (diagram.opening cell).frame = start.frame := by
  unfold opening
  split <;> simp [same]

theorem frame_closing (field : Field) (cell : Cell) :
    (diagram.closing field cell).frame = start.frame := by
  unfold closing
  (repeat' split) <;> simp [same]

end Ends

section Subtrees

variable {start : Diagram}

/-- The positions of a statement and of everything below it. -/
abbrev subtree (start : Diagram) (depth id : Nat) : Rose StatementId :=
  Rose.unfold start.children depth id

/-- What `before` holds at the statements below `id` is what `start` holds there. -/
def Untouched (start before : Diagram) (id : StatementId) : Prop :=
  ∀ j, id ∈ lineage start.parent? j → before.statement? j = start.statement? j

def outcomes (diagram : Diagram) (shape : Rose StatementId) : Rose Outcome :=
  shape.map fun j => (diagram.statement j).outcome

/-- The subtree of `id` has been filled for `field`, as its emissions say. -/
structure Filled (start : Diagram) (depth id : Nat) (field : Field) (before after : Diagram) :
    Prop where
  frame : after.frame = start.frame
  around : ∀ j, id ∉ lineage start.parent? j →
    Gains (start.above? id) (emit ((start.subtree depth id).map start.role) field) before after j
  inside : after.outcomes (start.subtree depth id) =
    filled ((start.subtree depth id).map start.role) (some field)

/-- Filling the subtree of `id` does what its emissions say, whatever is filled around it. -/
def FillsSubtree (start : Diagram) (depth id : Nat) : Prop :=
  ∀ field before, before.frame = start.frame → Untouched start before id →
    Filled start depth id field before
      (fillFrom ((start.subtree depth id).map start.cell) field before)

theorem outcomes_congr (links : Links start.size start.parent? start.children) {depth id : Nat}
    (inside : id < start.size) (deep : start.size ≤ depth + id) {diagram other : Diagram}
    (same : ∀ j, id ∈ lineage start.parent? j → diagram.statement? j = other.statement? j) :
    diagram.outcomes (start.subtree depth id) = other.outcomes (start.subtree depth id) := by
  apply Rose.map_congr
  intro j member
  have below := ((links.mem_preorder_unfold inside deep).mp member).2
  rw [statement_eq_of_statement? (same j below)]

theorem outcomes_blank (blank : start.IsBlank) (shape : Rose Nat) :
    start.outcomes shape = (shape.map start.role).map .blank := by
  rw [Rose.map_map]
  apply Rose.map_congr
  intro j _
  exact blank j

theorem above?_child {id child : Nat} (link : start.parent? child = some id) :
    start.above? child = start.receiver? id := by
  funext field
  rw [above?, link]
  rfl

/-- A text from a statement does not reach anything below a child of it. -/
theorem receiver?_ne_below (down : Descends start.parent?) {id child j : Nat} {field : Field}
    (link : start.parent? child = some id) (below : child ∈ lineage start.parent? j) :
    start.receiver? id field ≠ some j := by
  intro reached
  have upward := le_of_mem_lineage down (mem_lineage_of_receiver? reached)
  have downward := le_of_mem_lineage down below
  have larger := down child id link
  omega

/-- Children of a statement have been filled one after the other. -/
structure FilledEach (start : Diagram) (depth id : Nat) (ids : List Nat)
    (requests : List (Option Field)) (before after : Diagram) : Prop where
  frame : after.frame = start.frame
  around : ∀ j, (∀ child ∈ ids, child ∉ lineage start.parent? j) →
    Gains (start.receiver? id)
      (emitEach (ids.map fun child => (start.subtree depth child).map start.role)
        requests).flatten before after j
  inside : ids.map (fun child => after.outcomes (start.subtree depth child)) =
    filledEach (ids.map fun child => (start.subtree depth child).map start.role) requests

/-- Filling some children leaves what is below another child as it was. -/
theorem FilledEach.outcomes_eq (links : Links start.size start.parent? start.children)
    {depth id child : Nat} (deep : start.size ≤ depth + child)
    (link : start.parent? child = some id) {ids : List Nat} (absent : child ∉ ids)
    (siblings : ∀ c ∈ ids, start.parent? c = some id) {requests : List (Option Field)}
    {before after : Diagram} (each : FilledEach start depth id ids requests before after) :
    after.outcomes (start.subtree depth child) = before.outcomes (start.subtree depth child) := by
  apply outcomes_congr links (links.inside child id link) deep
  intro j below
  have away : ∀ c ∈ ids, c ∉ lineage start.parent? j := by
    intro c member
    exact not_mem_lineage_of_sibling links.down link (siblings c member)
      (fun equal => absent (equal ▸ member)) below
  apply (each.around j away).unreached
  intro entry _
  exact receiver?_ne_below links.down link below

/-- Filling a child leaves another child to be filled. -/
theorem Filled.untouched (down : Descends start.parent?) {depth id child other : Nat}
    {field : Field} {before after : Diagram} (filled : Filled start depth child field before after)
    (link : start.parent? child = some id) (link' : start.parent? other = some id)
    (apart : other ≠ child) (fresh : Untouched start before other) :
    Untouched start after other := by
  intro j below
  have outside := not_mem_lineage_of_sibling down link' link apart below
  have unchanged := (filled.around j outside).unreached fun entry _ => by
    rw [above?_child link]
    exact receiver?_ne_below down link' below
  exact unchanged.trans (fresh j below)

theorem filledEach_fillAll (links : Links start.size start.parent? start.children)
    (blank : start.IsBlank) {depth id : Nat} (deep : start.size ≤ depth + 1 + id)
    {ids : List Nat} (distinct : ids.Nodup) (children : ∀ c ∈ ids, start.parent? c = some id)
    (fills : ∀ c ∈ ids, FillsSubtree start depth c) {requests : List (Option Field)}
    (each : requests.length = ids.length) {before : Diagram} (same : before.frame = start.frame)
    (untouched : ∀ c ∈ ids, Untouched start before c) :
    FilledEach start depth id ids requests before
      (fillAll (ids.map fun child => (start.subtree depth child).map start.cell) requests
        before) := by
  induction ids generalizing requests before with
  | nil =>
      obtain rfl := List.length_eq_zero_iff.mp each
      exact ⟨same, fun j _ => .nil rfl, rfl⟩
  | cons child ids ih =>
      obtain ⟨request, requests, rfl⟩ := List.exists_cons_of_length_eq_add_one each
      obtain ⟨absent, distinct⟩ := List.nodup_cons.mp distinct
      have link := children child List.mem_cons_self
      have links' : ∀ c ∈ ids, start.parent? c = some id :=
        fun c member => children c (List.mem_cons_of_mem _ member)
      have deeper : start.size ≤ depth + child := by
        have larger := links.down child id link
        omega
      have fills' : ∀ c ∈ ids, FillsSubtree start depth c :=
        fun c member => fills c (List.mem_cons_of_mem _ member)
      have each' : requests.length = ids.length := Nat.add_right_cancel each
      have fresh := untouched child List.mem_cons_self
      have untouched' : ∀ c ∈ ids, Untouched start before c :=
        fun c member => untouched c (List.mem_cons_of_mem _ member)
      cases request with
      | none =>
          have rest := ih distinct links' fills' each' same untouched'
          have kept := rest.outcomes_eq links deeper link absent links'
          refine ⟨rest.frame, ?_, ?_⟩
          · intro j away
            exact rest.around j fun c member => away c (List.mem_cons_of_mem _ member)
          · have inside := links.inside child id link
            have left := outcomes_congr links inside deeper fresh
            simp only [List.map_cons, filledEach_cons, filled_none]
            exact congrArg₂ List.cons
              (kept.trans (left.trans (outcomes_blank blank _))) rest.inside
      | some field =>
          have first := fills child List.mem_cons_self field before same fresh
          have still : ∀ c ∈ ids, Untouched start
              (fillFrom ((start.subtree depth child).map start.cell) field before) c := by
            intro c member
            exact first.untouched links.down link (links' c member)
              (fun equal => absent (equal ▸ member)) (untouched' c member)
          have rest := ih distinct links' fills' each' first.frame still
          have kept := rest.outcomes_eq links deeper link absent links'
          refine ⟨rest.frame, ?_, ?_⟩
          · intro j away
            have gained := first.around j (away child List.mem_cons_self)
            rw [above?_child link] at gained
            exact gained.append
              (rest.around j fun c member => away c (List.mem_cons_of_mem _ member))
          · simp only [List.map_cons, filledEach_cons]
            exact congrArg₂ List.cons (kept.trans first.inside) rest.inside

theorem map_subtree {α : Type} (f : Nat → α) (depth id : Nat) :
    (start.subtree (depth + 1) id).map f =
      .node (f id) ((start.children id).map fun child => (start.subtree depth child).map f) := by
  simp only [subtree, Rose.unfold, Rose.map, Rose.mapAll_eq_map, List.map_map]
  rfl

theorem map_value_subtree {α : Type} (f : Nat → α) (depth : Nat) (ids : List Nat) :
    (ids.map fun child => (start.subtree depth child).map f).map Rose.value = ids.map f := by
  rw [List.map_map]
  apply List.map_congr_left
  intro child _
  simp [subtree]

def partsBelow (start : Diagram) (depth id : Nat) (field : Field) : List (List Entry) :=
  emitEach ((start.children id).map fun child => (start.subtree depth child).map start.role)
    ((start.role id).requests field ((start.children id).map start.role))

def bufferAt (start : Diagram) (depth id : Nat) (field : Field) : Buffers :=
  collected (start.role id).kind
    (arrivals (start.role id) ((start.children id).map start.role)
      (start.partsBelow depth id field))

theorem emit_subtree (depth id : Nat) (field : Field) :
    emit ((start.subtree (depth + 1) id).map start.role) field =
      leading (start.role id) ++
        passedOn (start.role id).kind (start.partsBelow depth id field).flatten ++
          trailing (start.role id) field (start.bufferAt depth id field) := by
  rw [map_subtree, emit, map_value_subtree, ← passedOn_arrivals]
  rfl

theorem filled_subtree (depth id : Nat) (field : Field) :
    filled ((start.subtree (depth + 1) id).map start.role) (some field) =
      .node ⟨start.role id, start.bufferAt depth id field,
          (start.role id).bodyFrom ((start.children id).map start.role)⟩
        (filledEach
          ((start.children id).map fun child => (start.subtree depth child).map start.role)
          ((start.role id).requests field ((start.children id).map start.role))) := by
  rw [map_subtree, filled, map_value_subtree]
  rfl

theorem fillFrom_subtree (depth id : Nat) (field : Field) (before : Diagram) :
    fillFrom ((start.subtree (depth + 1) id).map start.cell) field before =
      (fillAll ((start.children id).map fun child => (start.subtree depth child).map start.cell)
        ((start.role id).requests field ((start.children id).map start.role))
        ((before.setBodyStart id
          ((start.role id).bodyFrom ((start.children id).map start.role))).opening
            (start.cell id))).closing field (start.cell id) := by
  rw [map_subtree, fillFrom, map_value_subtree, fillAll_plan, plan_bodyStart]
  rfl

/-- Of the entries that set out at a statement, those of its own fields stay with it. -/
theorem arriving_self (down : Descends start.parent?) (blank : start.IsBlank) {id : Nat}
    (inside : id < start.size) (entries : List Entry) :
    arriving (start.receiver? id) id entries =
      entries.filter fun entry => entry.1 ∈ (start.role id).kind.fields := by
  apply List.filter_congr
  intro entry _
  rw [receiver?_eq down, blank.declares inside]
  by_cases own : entry.1 ∈ (start.role id).kind.fields
  · simp [own]
  · have upward : start.above? id entry.1 ≠ some id := by
      intro reached
      exact absurd (lt_of_above? down reached) (Nat.lt_irrefl id)
    simp [own, upward]

/-- The others go on to where a text from above the statement goes. -/
theorem arriving_passedOn (down : Descends start.parent?) (blank : start.IsBlank) {id j : Nat}
    (inside : id < start.size) (other : j ≠ id) (entries : List Entry) :
    arriving (start.above? id) j (passedOn (start.role id).kind entries) =
      arriving (start.receiver? id) j entries := by
  rw [arriving, passedOn, List.filter_filter]
  apply List.filter_congr
  intro entry _
  rw [receiver?_eq down, blank.declares inside]
  by_cases own : entry.1 ∈ (start.role id).kind.fields
  · simp [own, Ne.symm other]
  · simp [own]

theorem outcome_of_gains (down : Descends start.parent?) (blank : start.IsBlank) {id n : Nat}
    (inside : id < start.size) {before after : Diagram} {entries : List Entry}
    (bodied : before.statement? id = some { start.statement id with bodyStart := n })
    (gained : Gains (start.receiver? id) entries before after id) :
    (after.statement id).outcome =
      ⟨start.role id, collected (start.role id).kind entries, n⟩ := by
  have buffers := congrArg Outcome.buffers (blank id)
  simp only [Statement.outcome, Outcome.blank] at buffers
  rw [Gains, bodied, arriving_self down blank inside] at gained
  rw [statement, gained, ← collected_filter, ← collected_eq_foldl, ← buffers]
  rfl

theorem statement?_setBodyStart (diagram : Diagram) (id n : Nat) {j : Nat} (other : j ≠ id) :
    (diagram.setBodyStart id n).statement? j = diagram.statement? j := by
  rw [setBodyStart, statement?_modify, if_neg other]

section Step

variable (links : Links start.size start.parent? start.children) (blank : start.IsBlank)
  {depth id : Nat} (inside : id < start.size) {before : Diagram} (same : before.frame = start.frame)
  (untouched : Untouched start before id)

include links blank inside same untouched

theorem untouched_opening {n child : Nat} (link : start.parent? child = some id) :
    Untouched start ((before.setBodyStart id n).opening (start.cell id)) child := by
  intro j below
  have larger := links.down child id link
  have after := le_of_mem_lineage links.down below
  have other : j ≠ id := by omega
  have top : id ∈ lineage start.parent? j :=
    (mem_lineage_iff_child links.down).mpr (.inr ⟨child, link, below⟩)
  have bodied := (frame_setBodyStart before id n).trans same
  have opened := (gains_opening bodied links.down blank inside other).unreached
    fun entry _ reached => by
      have smaller := lt_of_above? links.down reached
      omega
  exact (opened.trans (statement?_setBodyStart before id n other)).trans (untouched j top)

/-- A statement takes up what its children emit. -/
theorem outcome_fillAll {field : Field} {n : Nat} {middle : Diagram}
    (each : FilledEach start depth id (start.children id)
      ((start.role id).requests field ((start.children id).map start.role))
      ((before.setBodyStart id n).opening (start.cell id)) middle) :
    (middle.statement id).outcome = ⟨start.role id, start.bufferAt depth id field, n⟩ := by
  have bodied : (before.setBodyStart id n).statement? id =
      some { start.statement id with bodyStart := n } := by
    rw [setBodyStart, statement?_modify, if_pos rfl, untouched id (self_mem_lineage id),
      statement?_inside inside]
    rfl
  have sameBodied := (frame_setBodyStart before id n).trans same
  have around : ∀ child ∈ start.children id, child ∉ lineage start.parent? id := by
    intro child member below
    have larger := links.down child id (links.mem_children.mp member)
    have upward := le_of_mem_lineage links.down below
    omega
  have gained := (gains_opening_self sameBodied links.down).append (each.around id around)
  rw [outcome_of_gains links.down blank inside bodied gained, collected_arrivals]
  rfl

end Step

theorem fillsSubtree (links : Links start.size start.parent? start.children)
    (blank : start.IsBlank) {depth id : Nat} (inside : id < start.size)
    (deep : start.size ≤ depth + id) : FillsSubtree start depth id := by
  induction depth generalizing id with
  | zero => omega
  | succ depth ih =>
      intro field before same untouched
      have down := links.down
      have link : ∀ c ∈ start.children id, start.parent? c = some id :=
        fun c member => links.mem_children.mp member
      have fills : ∀ c ∈ start.children id, FillsSubtree start depth c := by
        intro c member
        have larger := down c id (link c member)
        exact ih (links.inside c id (link c member)) (by omega)
      have distinct : (start.children id).Nodup := by
        rw [links.listed]
        exact List.nodup_range.filter _
      rw [fillFrom_subtree]
      generalize hn : (start.role id).bodyFrom ((start.children id).map start.role) = n
      have sameBodied := (frame_setBodyStart before id n).trans same
      have count : ((start.role id).requests field
          ((start.children id).map start.role)).length = (start.children id).length := by
        simp [Role.requests]
      have each := filledEach_fillAll links blank deep distinct link fills count
        (frame_opening sameBodied (start.cell id))
        fun c member => untouched_opening links blank inside same untouched (link c member)
      generalize fillAll _ _ _ = middle at each ⊢
      have own := outcome_fillAll links blank inside same untouched each
      have closed : ∀ j, Gains (start.above? id)
          (trailing (start.role id) field (middle.statement id).buffers) middle
          (middle.closing field (start.cell id)) j :=
        gains_closing each.frame field
      have settled : ∀ j, id ≤ j →
          (middle.closing field (start.cell id)).statement? j = middle.statement? j :=
        fun j below => statement?_closing each.frame down field below
      refine ⟨frame_closing each.frame field (start.cell id), ?_, ?_⟩
      · intro j away
        have other : j ≠ id := by
          rintro rfl
          exact away (self_mem_lineage j)
        have first := gains_opening sameBodied down blank inside other
        rw [Gains, statement?_setBodyStart before id n other] at first
        have outside : ∀ c ∈ start.children id, c ∉ lineage start.parent? j := by
          intro c member below
          exact away ((mem_lineage_iff_child down).mpr (.inr ⟨c, link c member, below⟩))
        have passed := (each.around j outside).reroute
          (arriving_passedOn down blank inside other (start.partsBelow depth id field).flatten)
        have last := closed j
        rw [show (middle.statement id).buffers = start.bufferAt depth id field from
          congrArg Outcome.buffers own] at last
        rw [emit_subtree]
        exact (Gains.append first passed).append last
      · rw [filled_subtree, hn, outcomes, map_subtree]
        have root := statement_eq_of_statement? (settled id (Nat.le_refl id))
        rw [root, own]
        refine congrArg (Rose.node _) (Eq.trans ?_ each.inside)
        apply List.map_congr_left
        intro c member
        have larger := down c id (link c member)
        apply outcomes_congr links (links.inside c id (link c member)) (by omega)
        intro j below
        have after := le_of_mem_lineage down below
        exact settled j (by omega)

end Subtrees

end NassiChart.Diagram
