import Mathlib.Algebra.BigOperators.Group.Finset.Piecewise
import Mathlib.Algebra.GroupWithZero.Nat
import NassiChart.Proofs.Calls

/-! # No text is lost

The deliveries of the walk that builds a diagram, read off in the diagram that it leaves.  Every
visited token, and every visited statement with a report of its own, has one delivery, and it is
taken by the nearest statement above that declares the field; conditions of arms without a decision
around them are the only texts that nothing takes.  Counting the deliveries counts the texts of the
diagram.
-/

namespace NassiChart.Diagram

open NassiChart.Grammar

mutual
/-- Tokens have a text and nothing below them. -/
def TokensEnd : Rose Role → Prop
  | .node role trees =>
    (role.kind = .token → (∃ text, role.label = .token text) ∧ trees = []) ∧ TokensEndEach trees
def TokensEndEach : List (Rose Role) → Prop
  | [] => True
  | tree :: trees => TokensEnd tree ∧ TokensEndEach trees
end

theorem tokensEndEach_iff {trees : List (Rose Role)} :
    TokensEndEach trees ↔ ∀ tree ∈ trees, TokensEnd tree := by
  induction trees with
  | nil => simp [TokensEndEach]
  | cons tree trees ih => simp [TokensEndEach, ih]

theorem children_of_label {tree : Tree} {n : Nat} {text : String}
    (label : tree.label n = .token text) : tree.children n = [] := by
  rw [Tree.label] at label
  rw [Tree.children]
  cases found : tree.node? n with
  | none => rfl
  | some node =>
      cases form : node.form with
      | expression children => simp [found, Node.label, Node.isExpression, form] at label
      | terminal => simp [Node.children, form]

theorem tokensEnd_roles (tree : Tree) : TokensEnd (roles tree) := by
  have unfolded : ∀ depth n, TokensEnd ((Rose.unfold tree.children depth n).map fun id =>
      Role.ofNode (id, tree.label id)) := by
    intro depth
    induction depth with
    | zero =>
        intro n
        exact ⟨fun token => ⟨StatementKind.ofLabel_eq_token_iff.mp token, rfl⟩, trivial⟩
    | succ depth ih =>
        intro n
        rw [Rose.unfold, Rose.map, Rose.mapAll_eq_map]
        refine ⟨fun token => ?_, ?_⟩
        · obtain ⟨text, label⟩ := StatementKind.ofLabel_eq_token_iff.mp token
          refine ⟨⟨text, label⟩, ?_⟩
          rw [children_of_label label]
          rfl
        · rw [tokensEndEach_iff]
          intro below member
          obtain ⟨child, listed, rfl⟩ := List.mem_map.mp member
          obtain ⟨m, -, rfl⟩ := List.mem_map.mp listed
          exact ih m
  rw [roles, Tree.outline, Rose.map_map, withDocument]
  split
  · exact unfolded tree.size tree.root
  · refine ⟨?_, unfolded tree.size tree.root, trivial⟩
    rintro ⟨⟩

theorem tokensEnd_rolesAt (tree : Tree) {id : Nat} (inside : id < (ofTree tree).size) :
    TokensEnd ((ofTree tree).rolesAt id) := by
  have links := (ofTree_sound tree).links
  refine links.downwards (motive := fun id => TokensEnd ((ofTree tree).rolesAt id)) ?_ ?_ id inside
  · rw [rolesAt_ofTree]
    exact tokensEnd_roles tree
  · intro id inside ends child member
    rw [rolesAt_eq links inside] at ends
    exact tokensEndEach_iff.mp ends.2 _ (List.mem_map_of_mem member)

theorem label_of_token (tree : Tree) {id : Nat}
    (token : ((ofTree tree).role id).kind = .token) :
    ∃ text, ((ofTree tree).role id).label = .token text := by
  cases Nat.lt_or_ge id (ofTree tree).size with
  | inl inside =>
      have ends := tokensEnd_rolesAt tree inside
      rw [rolesAt_eq (ofTree_sound tree).links inside] at ends
      exact (ends.1 token).1
  | inr outside =>
      refine ⟨"", ?_⟩
      rw [role, statement, statement?_eq_none outside]
      rfl

theorem children_of_token (tree : Tree) {id : Nat}
    (token : ((ofTree tree).role id).kind = .token) : (ofTree tree).children id = [] := by
  cases Nat.lt_or_ge id (ofTree tree).size with
  | inl inside =>
      have ends := tokensEnd_rolesAt tree inside
      rw [rolesAt_eq (ofTree_sound tree).links inside] at ends
      exact List.map_eq_nil_iff.mp (ends.1 token).2
  | inr outside =>
      rw [children, statement, statement?_eq_none outside]
      rfl

theorem children_build_of_token (tree : Tree) (id : Nat)
    (token : ((build tree).role id).kind = .token) : (build tree).children id = [] := by
  rw [role_build] at token
  rw [children_build, children_of_token tree token]

/-- The deliveries of the walk. -/
def deliveries (tree : Tree) : List Delivery :=
  deliveriesFrom (ofTree tree).cells .instruction (ofTree tree)

/-- The calls of the walk. -/
def calls (tree : Tree) : List (Cell × Field) :=
  callsFrom (ofTree tree).cells .instruction

/-- The visited statements, each with the field that it is asked for. -/
def visited (tree : Tree) : List (StatementId × Field) :=
  (calls tree).map fun call => (call.1.id, call.2)

variable (tree : Tree)

theorem ofTree_declares : (ofTree tree).DeclaresByKind := by
  intro id field
  cases Nat.lt_or_ge id (ofTree tree).size with
  | inl inside => exact (ofTree_sound tree).blank.declares inside field
  | inr outside =>
      rw [declares, role, statement, statement?_eq_none outside]
      rfl

theorem visited_nodup : ((visited tree).map Prod.fst).Nodup := by
  rw [visited, List.map_map]
  exact callsAt_nodup (ofTree_sound tree).links (ofTree_nonempty tree) .instruction

theorem call_of_visited {id : Nat} {field : Field} (member : (id, field) ∈ visited tree) :
    ((ofTree tree).cell id, field) ∈ calls tree := by
  obtain ⟨call, listed, same⟩ := List.mem_map.mp member
  cases same
  rw [← mem_below_of_call listed]
  exact listed

theorem inside_of_visited {id : Nat} {field : Field} (member : (id, field) ∈ visited tree) :
    id < (ofTree tree).size := by
  have call := call_of_visited tree member
  have listed := (callsFrom_sublist (ofTree tree).cells .instruction).subset
    (List.mem_map_of_mem call)
  rw [cells, Rose.preorder_map] at listed
  obtain ⟨j, below, same⟩ := List.mem_map.mp listed
  obtain rfl : j = id := congrArg Cell.id same
  have links := (ofTree_sound tree).links
  exact ((links.mem_preorder_unfold (ofTree_nonempty tree) (Nat.le_refl _)).mp below).1

/-- The walk visits what is not left out. -/
theorem visited_iff {id : Nat} (inside : id < (ofTree tree).size) :
    (∃ field, (id, field) ∈ visited tree) ↔ (ofTree tree).isLeftOut id = false := by
  rw [← mem_callsAt_iff (ofTree_sound tree).links (fun _ => children_of_token tree) inside
    .instruction]
  constructor
  · rintro ⟨field, member⟩
    exact ⟨field, call_of_visited tree member⟩
  · rintro ⟨field, call⟩
    exact ⟨field, List.mem_map_of_mem call⟩

/-- What a visited statement below the document is asked for is declared above it. -/
theorem above?_of_visited {id : Nat} {field : Field} (member : (id, field) ∈ visited tree)
    (other : ((ofTree tree).role id).kind ≠ .document) :
    ((ofTree tree).above? id field).isSome = true := by
  have links := (ofTree_sound tree).links
  have nonempty := ofTree_nonempty tree
  have root : (ofTree tree).declares .instruction 0 = true := by
    rw [ofTree_declares, kind_root]
    rfl
  have taken : ((ofTree tree).receiver? 0 .instruction).isSome = true := by
    rw [receiver?_eq links.down, if_pos root]
    rfl
  cases above?_of_call links (ofTree_declares tree) nonempty taken
      (call_of_visited tree member) with
  | inl same =>
      obtain rfl : id = 0 := congrArg (·.1.id) same
      exact absurd (kind_root tree) other
  | inr above => exact above

/-- One list of deliveries for each call, and together they are all. -/
theorem deliveries_perm : ∃ parts, List.Forall₂ (ofTree tree).Hands (calls tree) parts ∧
    (deliveries tree).Perm parts.flatten :=
  deliveriesFrom_perm (ofTree tree).cells .instruction rfl

theorem exists_call_of_part {start : Diagram} {calls : List (Cell × Field)}
    {parts : List (List Delivery)} (each : List.Forall₂ start.Hands calls parts)
    {part : List Delivery} (member : part ∈ parts) : ∃ call ∈ calls, start.Hands call part := by
  induction each with
  | nil => cases member
  | @cons call first calls parts hands rest ih =>
      cases member with
      | head => exact ⟨call, List.mem_cons_self, hands⟩
      | tail _ later =>
          obtain ⟨other, listed, hands'⟩ := ih later
          exact ⟨other, List.mem_cons_of_mem _ listed, hands'⟩

theorem Hands.source {start : Diagram} {call : Cell × Field} {part : List Delivery}
    (hands : start.Hands call part) : ∀ delivery ∈ part, delivery.source = call.1.id := by
  obtain ⟨text, -, rfl⟩ := hands
  intro delivery member
  obtain ⟨route, -, rfl⟩ := List.mem_map.mp member
  rfl

theorem filter_flatten_of_call {start : Diagram} {calls : List (Cell × Field)}
    {parts : List (List Delivery)} (each : List.Forall₂ start.Hands calls parts)
    (once : (calls.map fun call => call.1.id).Nodup) {call : Cell × Field}
    (member : call ∈ calls) : ∃ part, start.Hands call part ∧
      parts.flatten.filter (fun delivery => delivery.source = call.1.id) = part := by
  induction each with
  | nil => cases member
  | @cons first part calls parts hands rest ih =>
      obtain ⟨fresh, once⟩ := List.nodup_cons.mp once
      rw [List.flatten_cons, List.filter_append]
      cases member with
      | head =>
          -- The later calls are those of other statements.
          have others : parts.flatten.filter (fun delivery => delivery.source = call.1.id) =
              [] := by
            rw [List.filter_eq_nil_iff]
            intro delivery listed
            obtain ⟨other, inParts, inOther⟩ := List.mem_flatten.mp listed
            obtain ⟨later, inCalls, hands'⟩ := exists_call_of_part rest inParts
            have source : delivery.source = later.1.id := hands'.source delivery inOther
            rw [decide_eq_true_eq, source]
            intro same
            exact fresh (List.mem_map.mpr ⟨later, inCalls, same⟩)
          refine ⟨part, hands, ?_⟩
          rw [others, List.append_nil, List.filter_eq_self]
          exact fun delivery listed => decide_eq_true (hands.source delivery listed)
      | tail _ later =>
          obtain ⟨found, hands', same⟩ := ih once later
          refine ⟨found, hands', ?_⟩
          rw [same, List.filter_eq_nil_iff.mpr, List.nil_append]
          intro delivery listed
          rw [decide_eq_true_eq, hands.source delivery listed]
          intro same
          exact fresh (List.mem_map.mpr ⟨call, later, same.symm⟩)

/-- The deliveries of one visited statement. -/
theorem deliveries_of_visited {id : Nat} {field : Field} (member : (id, field) ∈ visited tree) :
    ∃ text, (((ofTree tree).role id).kind = .token →
        ∀ written, ((ofTree tree).role id).label = .token written → text = written) ∧
      (deliveries tree).filter (fun delivery => delivery.source = id) =
        ((ofTree tree).route? field ((ofTree tree).cell id)).toList.map fun route =>
          ⟨id, route.1, text, route.2⟩ := by
  obtain ⟨parts, each, ordered⟩ := deliveries_perm tree
  have once := callsAt_nodup (ofTree_sound tree).links (ofTree_nonempty tree) .instruction
  obtain ⟨part, ⟨text, fixed, rfl⟩, same⟩ :=
    filter_flatten_of_call each once (call_of_visited tree member)
  have own := (ordered.filter fun delivery => delivery.source = id).trans (.of_eq same)
  refine ⟨text, fixed, ?_⟩
  cases route : (ofTree tree).route? field ((ofTree tree).cell id) with
  | none =>
      simp only [route] at own
      exact own.eq_nil
  | some found =>
      simp only [route] at own
      exact List.perm_singleton.mp own

theorem mem_deliveries {delivery : Delivery} (member : delivery ∈ deliveries tree) :
    ∃ field, (delivery.source, field) ∈ visited tree ∧
      (ofTree tree).route? field ((ofTree tree).cell delivery.source) =
        some (delivery.field, delivery.receiver) := by
  obtain ⟨parts, each, ordered⟩ := deliveries_perm tree
  obtain ⟨part, inParts, inPart⟩ := List.mem_flatten.mp (ordered.subset member)
  obtain ⟨call, listed, text, -, rfl⟩ := exists_call_of_part each inParts
  obtain ⟨route, found, rfl⟩ := List.mem_map.mp inPart
  refine ⟨call.2, List.mem_map_of_mem listed, ?_⟩
  rw [← mem_below_of_call listed]
  exact Option.mem_toList.mp found

theorem above?_eq_find? {diagram : Diagram} (down : Descends diagram.parent?) (id : Nat)
    (field : Field) :
    diagram.above? id field = (diagram.ancestors id).tail.find? (diagram.declares field) := by
  rw [above?, ancestors]
  cases link : diagram.parent? id with
  | none =>
      rw [lineage_of_none link]
      rfl
  | some above =>
      rw [lineage_of_some down link]
      rfl

/-- A decision lies around the statement. -/
def isInDecision (diagram : Diagram) (id : StatementId) : Bool :=
  (diagram.ancestors id).tail.any fun above => (diagram.role above).kind.isHeader

theorem above?_branches {diagram : Diagram} (down : Descends diagram.parent?)
    (declared : diagram.DeclaresByKind) (id : Nat) :
    (diagram.above? id .branches).isSome = diagram.isInDecision id := by
  have headers : ∀ kind : StatementKind, decide (Field.branches ∈ kind.fields) = kind.isHeader := by
    intro kind
    cases kind <;> rfl
  have same : diagram.declares .branches = fun above => (diagram.role above).kind.isHeader := by
    funext above
    rw [declared, headers]
  rw [above?_eq_find? down, same, isInDecision, Bool.eq_iff_iff, List.find?_isSome,
    List.any_eq_true]

/-- The three ways in which a statement hands out a text. -/
theorem route?_cases {diagram : Diagram} {field handed : Field} {id : Nat}
    {receiver : Option StatementId}
    (route : diagram.route? field (diagram.cell id) = some (handed, receiver)) :
    ((diagram.role id).kind = .token ∨ (diagram.role id).kind = .conditionGroup ∨
        (diagram.role id).kind = .assignment) ∧
          handed = field ∧ receiver = diagram.above? id field ∨
      (diagram.role id).kind.isArm = true ∧
        handed = .branches ∧ receiver = diagram.above? id .branches ∨
      (diagram.role id).kind = .caseHeader .condition ∧
        handed = .control ∧ receiver = diagram.receiver? id .control := by
  have same : (diagram.cell id).kind = (diagram.role id).kind := rfl
  unfold route? at route
  rw [same] at route
  cases kind : (diagram.role id).kind with
  | token =>
      simp only [kind] at route
      split at route
      · cases route
        exact .inl ⟨.inl rfl, rfl, rfl⟩
      · cases route
  | conditionGroup =>
      simp only [kind, Option.some.injEq, Prod.mk.injEq] at route
      exact .inl ⟨.inr (.inl rfl), route.1.symm, route.2.symm⟩
  | assignment =>
      simp only [kind, Option.some.injEq, Prod.mk.injEq] at route
      exact .inl ⟨.inr (.inr rfl), route.1.symm, route.2.symm⟩
  | caseArm =>
      simp only [kind, Option.some.injEq, Prod.mk.injEq] at route
      exact .inr (.inl ⟨rfl, route.1.symm, route.2.symm⟩)
  | defaultArm =>
      simp only [kind, Option.some.injEq, Prod.mk.injEq] at route
      exact .inr (.inl ⟨rfl, route.1.symm, route.2.symm⟩)
  | caseHeader selector =>
      cases selector with
      | value => simp [kind] at route
      | condition =>
          simp only [kind, Option.some.injEq, Prod.mk.injEq] at route
          exact .inr (.inr ⟨rfl, route.1.symm, route.2.symm⟩)
  | _ => simp [kind] at route

theorem receiver?_control {id : Nat}
    (kind : ((ofTree tree).role id).kind = .caseHeader .condition) :
    (ofTree tree).receiver? id .control = some id := by
  have declares : (ofTree tree).declares .control id = true := by
    rw [ofTree_declares, kind]
    rfl
  rw [receiver?_eq (ofTree_sound tree).links.down, if_pos declares]

/-- The condition of an arm outside of every decision is dropped, and nothing else. -/
theorem receiver_eq_none_iff {delivery : Delivery} (member : delivery ∈ deliveries tree) :
    delivery.receiver = none ↔ delivery.field = .branches ∧
      ((ofTree tree).role delivery.source).kind.isArm = true ∧
        (ofTree tree).isInDecision delivery.source = false := by
  obtain ⟨field, asked, route⟩ := mem_deliveries tree member
  have arms := above?_branches (ofTree_sound tree).links.down (ofTree_declares tree)
    delivery.source
  have notArm : ∀ {kind : StatementKind}, kind = .token ∨ kind = .conditionGroup ∨
      kind = .assignment ∨ kind = .caseHeader .condition → kind.isArm = false ∧ kind ≠ .document := by
    rintro kind (rfl | rfl | rfl | rfl) <;> decide
  rcases route?_cases route with ⟨kind, -, taken⟩ | ⟨kind, handed, taken⟩ | ⟨kind, -, taken⟩
  · obtain ⟨arm, document⟩ := notArm (kind.imp_right fun other => other.imp_right .inl)
    have above := above?_of_visited tree asked document
    rw [← taken] at above
    simp [arm, Option.isSome_iff_ne_none.mp above]
  · rw [← arms, handed, taken, kind]
    simp
  · obtain ⟨arm, -⟩ := notArm (.inr (.inr (.inr kind)))
    rw [taken, receiver?_control tree kind]
    simp [arm]

/-- The number of texts in all buffers of a statement. -/
def Buffers.count (buffers : Buffers) : Nat :=
  (buffers.entries.map (·.2.length)).sum

theorem sum_countP {α κ : Type} [DecidableEq κ] (keys : Finset κ) (key : α → κ) (xs : List α)
    (inside : ∀ x ∈ xs, key x ∈ keys) :
    ∑ k ∈ keys, xs.countP (fun x => key x = k) = xs.length := by
  induction xs with
  | nil => simp
  | cons x xs ih =>
      have rest := ih fun y member => inside y (List.mem_cons_of_mem _ member)
      have here := inside x List.mem_cons_self
      simp [List.countP_cons, Finset.sum_add_distrib, rest, here]

theorem count_collected {kind : StatementKind} {entries : List Entry}
    (own : ∀ entry ∈ entries, entry.1 ∈ kind.fields) :
    (collected kind entries).count = entries.length := by
  have distinct : kind.fields.Nodup := by
    cases kind <;> simp [StatementKind.fields]
  have each : (collected kind entries).count =
      (kind.fields.map fun field => entries.countP fun entry => entry.1 = field).sum := by
    simp [Buffers.count, collected, List.countP_eq_length_filter, Function.comp_def]
  rw [each, ← List.sum_toFinset _ distinct]
  exact sum_countP _ Prod.fst entries fun entry member => List.mem_toFinset.mpr (own entry member)

theorem buffers_build (id : Nat) : ((build tree).statement id).buffers =
    collected ((ofTree tree).role id).kind (received (deliveries tree) id) := by
  have walked : Delivered (deliveries tree) (ofTree tree) (build tree) :=
    delivered_fillFrom (ofTree tree).cells .instruction (ofTree tree)
  have start : ((ofTree tree).statement id).buffers =
      .blank ((ofTree tree).role id).kind.fields :=
    congrArg Outcome.buffers ((ofTree_sound tree).blank id)
  rw [walked id, start, collected_eq_foldl]

theorem declares_of_received {delivery : Delivery} (member : delivery ∈ deliveries tree) {id : Nat}
    (taken : delivery.receiver = some id) :
    (ofTree tree).declares delivery.field id = true := by
  obtain ⟨field, -, route⟩ := mem_deliveries tree member
  have down := (ofTree_sound tree).links.down
  have above : ∀ {source field}, (ofTree tree).above? source field = some id →
      (ofTree tree).declares field id = true := by
    intro source field found
    rw [above?_eq_find? down] at found
    exact List.find?_some found
  rcases route?_cases route with ⟨-, handed, found⟩ | ⟨-, handed, found⟩ | ⟨-, handed, found⟩
  · rw [handed]
    exact above (found.symm.trans taken)
  · rw [handed]
    exact above (found.symm.trans taken)
  · rw [handed]
    exact List.find?_some (found.symm.trans taken)

theorem inside_of_received {delivery : Delivery} (member : delivery ∈ deliveries tree) {id : Nat}
    (taken : delivery.receiver = some id) : id < (ofTree tree).size := by
  by_contra outside
  have declares := declares_of_received tree member taken
  rw [Diagram.declares, statement?_eq_none (Nat.le_of_not_lt outside)] at declares
  cases declares

/-- The buffers of a diagram hold as many texts as its walk has delivered. -/
theorem sum_count_build : ∑ id ∈ Finset.range (ofTree tree).size,
    ((build tree).statement id).buffers.count =
      (deliveries tree).countP fun delivery => delivery.receiver.isSome := by
  -- Every delivery that is taken counts at its receiver, and receivers are inside of the diagram.
  let taken := (deliveries tree).filter fun delivery => delivery.receiver.isSome
  have each : ∀ id, ((build tree).statement id).buffers.count =
      taken.countP fun delivery => delivery.receiver.getD 0 = id := by
    intro id
    rw [buffers_build, count_collected]
    · rw [received, List.length_map, ← List.countP_eq_length_filter, List.countP_filter]
      apply List.countP_congr
      intro delivery _
      cases delivery.receiver <;> simp
    · intro entry member
      obtain ⟨delivery, listed, rfl⟩ := List.mem_map.mp member
      obtain ⟨listed, reached⟩ := List.mem_filter.mp listed
      have declares := declares_of_received tree listed (of_decide_eq_true reached)
      rw [ofTree_declares] at declares
      exact of_decide_eq_true declares
  rw [Finset.sum_congr rfl fun id _ => each id, List.countP_eq_length_filter]
  apply sum_countP
  intro delivery member
  obtain ⟨listed, reached⟩ := List.mem_filter.mp member
  obtain ⟨id, receiver⟩ := Option.isSome_iff_exists.mp reached
  rw [receiver, Option.getD_some, Finset.mem_range]
  exact inside_of_received tree listed receiver

/-- How many of the texts of a statement, if it is visited, end up in a buffer. -/
def textsKept (diagram : Diagram) (id : StatementId) : Nat :=
  let kind := (diagram.role id).kind
  (if kind = .token then 1 else 0) +
    (if kind = .conditionGroup ∨ kind = .assignment then 1 else 0) +
    (if kind.isArm = true ∧ diagram.isInDecision id = true then 1 else 0) +
    (if kind = .caseHeader .condition then 1 else 0)

theorem countP_route? {id : Nat} {field : Field} (member : (id, field) ∈ visited tree) :
    ((ofTree tree).route? field ((ofTree tree).cell id)).toList.countP (·.2.isSome) =
      (ofTree tree).textsKept id := by
  have same : ((ofTree tree).cell id).kind = ((ofTree tree).role id).kind := rfl
  have position : ((ofTree tree).cell id).id = id := rfl
  have above := above?_of_visited tree member
  have arms := above?_branches (ofTree_sound tree).links.down (ofTree_declares tree) id
  unfold route? textsKept
  rw [same, position]
  cases kind : ((ofTree tree).role id).kind with
  | token =>
      obtain ⟨text, label⟩ := label_of_token tree kind
      have named : ((ofTree tree).cell id).label = .token text := label
      have taken := above (by rw [kind]; decide)
      simp [named, taken, StatementKind.isArm]
  | conditionGroup =>
      have taken := above (by rw [kind]; decide)
      simp [taken, StatementKind.isArm]
  | assignment =>
      have taken := above (by rw [kind]; decide)
      simp [taken, StatementKind.isArm]
  | caseArm => simp [arms, StatementKind.isArm, List.countP_singleton]
  | defaultArm => simp [arms, StatementKind.isArm, List.countP_singleton]
  | caseHeader selector =>
      cases selector with
      | value => simp [StatementKind.isArm]
      | condition => simp [receiver?_control tree kind, StatementKind.isArm]
  | _ => simp [StatementKind.isArm]

theorem countP_flatten {start : Diagram} {calls : List (Cell × Field)}
    {parts : List (List Delivery)} (each : List.Forall₂ start.Hands calls parts) :
    parts.flatten.countP (fun delivery => delivery.receiver.isSome) =
      (calls.map fun call => (start.route? call.2 call.1).toList.countP (·.2.isSome)).sum := by
  induction each with
  | nil => rfl
  | @cons call part calls parts hands rest ih =>
      obtain ⟨text, -, rfl⟩ := hands
      rw [List.flatten_cons, List.countP_append, ih, List.map_cons, List.sum_cons,
        List.countP_map]
      rfl

/-- The visited statements of a diagram. -/
def built (diagram : Diagram) : Finset StatementId :=
  (Finset.range diagram.size).filter fun id => diagram.isLeftOut id = false

theorem visited_toFinset : ((visited tree).map Prod.fst).toFinset = (ofTree tree).built := by
  ext id
  rw [List.mem_toFinset, List.mem_map, built, Finset.mem_filter, Finset.mem_range]
  constructor
  · rintro ⟨⟨j, field⟩, member, rfl⟩
    have inside := inside_of_visited tree member
    exact ⟨inside, (visited_iff tree inside).mp ⟨field, member⟩⟩
  · rintro ⟨inside, kept⟩
    obtain ⟨field, member⟩ := (visited_iff tree inside).mpr kept
    exact ⟨(id, field), member, rfl⟩

theorem countP_deliveries :
    (deliveries tree).countP (fun delivery => delivery.receiver.isSome) =
      ∑ id ∈ (ofTree tree).built, (ofTree tree).textsKept id := by
  obtain ⟨parts, each, ordered⟩ := deliveries_perm tree
  rw [ordered.countP_eq, countP_flatten each, ← visited_toFinset,
    List.sum_toFinset _ (visited_nodup tree), List.map_map, visited, List.map_map]
  refine congrArg List.sum (List.map_congr_left fun call member => ?_)
  have asked : (call.1.id, call.2) ∈ visited tree := List.mem_map_of_mem member
  rw [mem_below_of_call member]
  exact countP_route? tree asked

theorem sum_textsKept (diagram : Diagram) : ∑ id ∈ diagram.built, diagram.textsKept id =
    (diagram.built.filter fun id => (diagram.role id).kind = .token).card +
      (diagram.built.filter fun id => (diagram.role id).kind = .conditionGroup ∨
        (diagram.role id).kind = .assignment).card +
      (diagram.built.filter fun id => (diagram.role id).kind.isArm = true ∧
        diagram.isInDecision id = true).card +
      (diagram.built.filter fun id => (diagram.role id).kind = .caseHeader .condition).card := by
  simp only [textsKept, Finset.sum_add_distrib, Finset.card_filter]

@[simp] theorem declares_build : (build tree).declares = (ofTree tree).declares := by
  rw [← declares_frame, frame_build, declares_frame]

@[simp] theorem ancestors_build : (build tree).ancestors = (ofTree tree).ancestors := by
  funext id
  rw [ancestors, ancestors, parent?_build]

@[simp] theorem isLeftOut_build : (build tree).isLeftOut = (ofTree tree).isLeftOut := by
  have keyword : (build tree).isKeyword = (ofTree tree).isKeyword := by
    funext id
    simp [isKeyword]
  funext id
  simp [isLeftOut, keyword, isTokenAmongArms, childRoles]

@[simp] theorem isInDecision_build : (build tree).isInDecision = (ofTree tree).isInDecision := by
  funext id
  simp [isInDecision]

@[simp] theorem built_build : (build tree).built = (ofTree tree).built := by
  rw [built, built, size_build, isLeftOut_build]

/-- What a visited statement hands out to its nearest receiver is delivered there, once. -/
theorem delivered_once {id : Nat} {field : Field} (member : (id, field) ∈ visited tree)
    (other : ((ofTree tree).role id).kind ≠ .document)
    (route : (ofTree tree).route? field ((ofTree tree).cell id) =
      some (field, (ofTree tree).above? id field)) :
    ∃ text receiver, (((ofTree tree).role id).kind = .token →
        ∀ written, ((ofTree tree).role id).label = .token written → text = written) ∧
      ((ofTree tree).ancestors id).tail.find? ((ofTree tree).declares field) = some receiver ∧
      (deliveries tree).filter (fun delivery => delivery.source = id) =
        [⟨id, field, text, some receiver⟩] := by
  obtain ⟨text, fixed, all⟩ := deliveries_of_visited tree member
  obtain ⟨receiver, taken⟩ := Option.isSome_iff_exists.mp (above?_of_visited tree member other)
  rw [route, taken] at all
  rw [above?_eq_find? (ofTree_sound tree).links.down] at taken
  exact ⟨text, receiver, fixed, taken, all⟩

/-- Every token that is not left out has its text delivered once, to the nearest statement above
that declares the field it is asked for; so has every visited statement that gathers texts its
report.  Conditions of arms outside of all decisions are dropped, and nothing else; and the number
of texts in the diagram is the number of deliveries that are taken. -/
theorem no_text_lost (tree : Tree) :
    (∀ id, ∀ field ∈ ((build tree).role id).kind.fields,
      ((build tree).statement id).buffers.get field = ((deliveries tree).filter fun delivery =>
        delivery.receiver = some id ∧ delivery.field = field).map (·.text)) ∧
    (((visited tree).map Prod.fst).Nodup ∧ ∀ id < (build tree).size,
      (∃ field, (id, field) ∈ visited tree) ↔ (build tree).isLeftOut id = false) ∧
    (∀ id < (build tree).size, ((build tree).role id).kind = .token →
      (build tree).isLeftOut id = false → ∃ field text receiver, (id, field) ∈ visited tree ∧
        ((build tree).role id).label = .token text ∧
        ((build tree).ancestors id).tail.find? ((build tree).declares field) = some receiver ∧
        (deliveries tree).filter (fun delivery => delivery.source = id) =
          [⟨id, field, text, some receiver⟩]) ∧
    (∀ id field, (id, field) ∈ visited tree →
      ((build tree).role id).kind = .conditionGroup ∨
        ((build tree).role id).kind = .assignment → ∃ text receiver,
        ((build tree).ancestors id).tail.find? ((build tree).declares field) = some receiver ∧
        (deliveries tree).filter (fun delivery => delivery.source = id) =
          [⟨id, field, text, some receiver⟩]) ∧
    (∀ delivery ∈ deliveries tree, delivery.receiver = none ↔ delivery.field = .branches ∧
      ((build tree).role delivery.source).kind.isArm = true ∧
        (build tree).isInDecision delivery.source = false) ∧
    ∑ id ∈ Finset.range (build tree).size, ((build tree).statement id).buffers.count =
      ((build tree).built.filter fun id => ((build tree).role id).kind = .token).card +
      ((build tree).built.filter fun id => ((build tree).role id).kind = .conditionGroup ∨
        ((build tree).role id).kind = .assignment).card +
      ((build tree).built.filter fun id => ((build tree).role id).kind.isArm = true ∧
        (build tree).isInDecision id = true).card +
      ((build tree).built.filter fun id =>
        ((build tree).role id).kind = .caseHeader .condition).card := by
  simp only [size_build, role_build, ancestors_build, declares_build, isLeftOut_build,
    isInDecision_build, built_build]
  refine ⟨?_, ⟨visited_nodup tree, fun id inside => visited_iff tree inside⟩, ?_, ?_,
    fun delivery member => receiver_eq_none_iff tree member, ?_⟩
  · intro id field own
    rw [buffers_build, get_collected own, received, List.filter_map, List.map_map,
      List.filter_filter]
    simp [Function.comp_def, Bool.and_comm]
  · intro id inside kind kept
    obtain ⟨field, member⟩ := (visited_iff tree inside).mpr kept
    obtain ⟨written, label⟩ := label_of_token tree kind
    have route : (ofTree tree).route? field ((ofTree tree).cell id) =
        some (field, (ofTree tree).above? id field) := by
      have same : ((ofTree tree).cell id).kind = .token := kind
      have named : ((ofTree tree).cell id).label = .token written := label
      simp only [route?, same, named]
      rfl
    obtain ⟨text, receiver, fixed, taken, all⟩ :=
      delivered_once tree member (by rw [kind]; decide) route
    exact ⟨field, text, receiver, member, fixed kind written label ▸ label, taken, all⟩
  · intro id field member kind
    have route : (ofTree tree).route? field ((ofTree tree).cell id) =
        some (field, (ofTree tree).above? id field) := by
      have same : ((ofTree tree).cell id).kind = ((ofTree tree).role id).kind := rfl
      rcases kind with kind | kind <;> simp only [route?, same, kind] <;> rfl
    have other : ((ofTree tree).role id).kind ≠ .document := by
      rcases kind with kind | kind <;> rw [kind] <;> decide
    obtain ⟨text, receiver, -, taken, all⟩ := delivered_once tree member other route
    exact ⟨text, receiver, taken, all⟩
  · rw [sum_count_build, countP_deliveries, sum_textsKept]

end NassiChart.Diagram
