import NassiChart.Proofs.Emission
import NassiChart.Proofs.Links

/-! # Planting a diagram

`plant` makes the statements below one statement, a whole family of children at a time.  Every step
keeps the links of the diagram in agreement and collects nothing (`Sound`), and leaves what has been
made elsewhere alone (`Extends`).  In the end the statements stand in the tree of the roles that
they were made for (`Shows`).
-/

namespace NassiChart.Diagram

open NassiChart.Grammar

/-- The links of the diagram agree, and nothing has been collected. -/
structure Sound (diagram : Diagram) : Prop where
  links : Links diagram.size diagram.parent? diagram.children
  blank : diagram.IsBlank

section Family

variable (diagram : Diagram) (above : Nat) (nodes : List (NodeId × Label))

theorem statement_addChildren_of_ne {id : Nat} (old : id < diagram.size) (other : id ≠ above) :
    (diagram.addChildren above nodes).statement? id = diagram.statement? id := by
  rw [statement?_addChildren_of_lt _ _ old, if_neg other]

theorem parent?_addChildren_of_lt {id : Nat} (old : id < diagram.size) :
    (diagram.addChildren above nodes).parent? id = diagram.parent? id := by
  rw [parent?, parent?, statement?_addChildren_of_lt _ _ old]
  split
  · cases diagram.statement? id <;> rfl
  · rfl

theorem parent?_addChildren_of_le {index : Nat} (new : index < nodes.length) :
    (diagram.addChildren above nodes).parent? (diagram.size + index) = some above := by
  rw [parent?, statement?_addChildren_of_le, List.getElem?_eq_getElem new]
  rfl

theorem parent?_addChildren_of_outside {id : Nat}
    (outside : diagram.size + nodes.length ≤ id) :
    (diagram.addChildren above nodes).parent? id = none := by
  rw [parent?, statement?_eq_none ((size_addChildren ..).trans_le outside)]
  rfl

theorem role_addChildren_of_lt {id : Nat} (old : id < diagram.size) :
    (diagram.addChildren above nodes).role id = diagram.role id := by
  rw [role, role, statement, statement, statement?_addChildren_of_lt _ _ old]
  split
  · cases diagram.statement? id <;> rfl
  · rfl

theorem role_addChildren_of_le {index : Nat} (new : index < nodes.length) :
    (diagram.addChildren above nodes).role (diagram.size + index) = .ofNode nodes[index] := by
  rw [role, statement, statement?_addChildren_of_le, List.getElem?_eq_getElem new]
  rfl

theorem children_addChildren_self (inside : above < diagram.size) :
    (diagram.addChildren above nodes).children above =
      List.range' diagram.size nodes.length := by
  rw [children, statement, statement?_addChildren_of_lt _ _ inside, if_pos rfl,
    statement?_inside inside]
  rfl

theorem children_addChildren_of_ne {id : Nat} (other : id ≠ above) :
    (diagram.addChildren above nodes).children id = diagram.children id := by
  rw [children, children, statement, statement]
  cases Nat.lt_or_ge id diagram.size with
  | inl old => rw [statement_addChildren_of_ne _ _ _ old other]
  | inr new =>
      obtain ⟨index, rfl⟩ := Nat.exists_eq_add_of_le new
      rw [statement?_addChildren_of_le, statement?_eq_none new]
      cases nodes[index]? <;> rfl

end Family

variable {diagram : Diagram} {above : Nat}

theorem old_or_new_or_outside (size count id : Nat) :
    id < size ∨ (∃ index < count, id = size + index) ∨ size + count ≤ id := by
  cases Nat.lt_or_ge id size with
  | inl old => exact .inl old
  | inr later =>
      obtain ⟨index, rfl⟩ := Nat.exists_eq_add_of_le later
      cases Nat.lt_or_ge index count with
      | inl new => exact .inr (.inl ⟨index, new, rfl⟩)
      | inr outside => exact .inr (.inr (by omega))

/-- The links still agree when a statement without children gets some. -/
theorem links_addChildren (links : Links diagram.size diagram.parent? diagram.children)
    (inside : above < diagram.size) (childless : diagram.children above = [])
    (nodes : List (NodeId × Label)) :
    Links (diagram.addChildren above nodes).size (diagram.addChildren above nodes).parent?
      (diagram.addChildren above nodes).children := by
  rw [size_addChildren]
  constructor
  case down =>
    intro id top link
    rcases old_or_new_or_outside diagram.size nodes.length id with old | ⟨index, new, rfl⟩ | outside
    · rw [parent?_addChildren_of_lt _ _ _ old] at link
      exact links.down id top link
    · rw [parent?_addChildren_of_le _ _ _ new] at link
      cases link
      omega
    · rw [parent?_addChildren_of_outside _ _ _ outside] at link
      cases link
  case inside =>
    intro id top link
    rcases old_or_new_or_outside diagram.size nodes.length id with old | ⟨index, new, rfl⟩ | outside
    · omega
    · omega
    · rw [parent?_addChildren_of_outside _ _ _ outside] at link
      cases link
  case rooted =>
    intro id positive bound
    rcases old_or_new_or_outside diagram.size nodes.length id with old | ⟨index, new, rfl⟩ | outside
    · rw [parent?_addChildren_of_lt _ _ _ old]
      exact links.rooted id positive old
    · exact ⟨above, parent?_addChildren_of_le _ _ _ new⟩
    · omega
  case listed =>
    intro id
    have before : (List.range diagram.size).filter
        (fun child => (diagram.addChildren above nodes).parent? child = some id) =
          diagram.children id := by
      rw [links.listed]
      apply List.filter_congr
      intro child member
      rw [parent?_addChildren_of_lt _ _ _ (List.mem_range.mp member)]
    have after : ∀ child ∈ (List.range nodes.length).map (diagram.size + ·),
        (diagram.addChildren above nodes).parent? child = some above := by
      intro child member
      obtain ⟨index, new, rfl⟩ := List.mem_map.mp member
      exact parent?_addChildren_of_le _ _ _ (List.mem_range.mp new)
    rw [List.range_add, List.filter_append, before]
    by_cases same : id = above
    · subst same
      rw [children_addChildren_self _ _ _ inside, childless, List.nil_append,
        List.range'_eq_map_range, List.filter_eq_self.mpr]
      intro child member
      exact decide_eq_true (after child member)
    · rw [children_addChildren_of_ne _ _ _ same, List.filter_eq_nil_iff.mpr, List.append_nil]
      intro child member
      rw [after child member]
      simp [Ne.symm same]

theorem Sound.addChildren (sound : diagram.Sound) (inside : above < diagram.size)
    (childless : diagram.children above = []) (nodes : List (NodeId × Label)) :
    (diagram.addChildren above nodes).Sound := by
  refine ⟨links_addChildren sound.links inside childless nodes, ?_⟩
  intro id
  rw [role, statement]
  rcases old_or_new_or_outside diagram.size nodes.length id with old | ⟨index, new, rfl⟩ | outside
  · rw [statement?_addChildren_of_lt _ _ old, statement?_inside old]
    split
    · exact sound.blank id
    · exact sound.blank id
  · rw [statement?_addChildren_of_le, List.getElem?_eq_getElem new]
    rfl
  · rw [statement?_eq_none ((size_addChildren ..).trans_le outside)]
    rfl

mutual
/-- The statement at a position and those below it stand in the tree of their roles. -/
def Shows (diagram : Diagram) : Rose Role → Nat → Prop
  | .node role trees, id =>
    id < diagram.size ∧ diagram.role id = role ∧ ShowsEach diagram trees (diagram.children id)
def ShowsEach (diagram : Diagram) : List (Rose Role) → List Nat → Prop
  | [], ids => ids = []
  | tree :: trees, ids =>
    ∃ id rest, ids = id :: rest ∧ Shows diagram tree id ∧ ShowsEach diagram trees rest
end

theorem Shows.inside {tree : Rose Role} {id : Nat} (shown : diagram.Shows tree id) :
    id < diagram.size := by
  cases tree
  exact shown.1

mutual
/-- What stands below a position does not depend on the rest of the diagram. -/
theorem Shows.congr (links : Links diagram.size diagram.parent? diagram.children)
    {other : Diagram} (grown : diagram.size ≤ other.size) (tree : Rose Role) {id : Nat}
    (shown : diagram.Shows tree id)
    (same : ∀ j, id ∈ lineage diagram.parent? j → j < diagram.size →
      other.statement? j = diagram.statement? j) : other.Shows tree id := by
  cases tree with
  | node role trees =>
      obtain ⟨inside, here, below⟩ := shown
      have root := same id (self_mem_lineage id) inside
      refine ⟨Nat.lt_of_lt_of_le inside grown, ?_, ?_⟩
      · rw [Diagram.role, statement_eq_of_statement? root]
        exact here
      · rw [children, statement_eq_of_statement? root]
        apply ShowsEach.congr links grown trees below
        intro child member j lower bound
        have link := links.mem_children.mp member
        have top := (mem_lineage_iff_child links.down).mpr (.inr ⟨child, link, lower⟩)
        exact same j top bound
theorem ShowsEach.congr (links : Links diagram.size diagram.parent? diagram.children)
    {other : Diagram} (grown : diagram.size ≤ other.size) (trees : List (Rose Role))
    {ids : List Nat} (shown : diagram.ShowsEach trees ids)
    (same : ∀ id ∈ ids, ∀ j, id ∈ lineage diagram.parent? j → j < diagram.size →
      other.statement? j = diagram.statement? j) : other.ShowsEach trees ids := by
  cases trees with
  | nil => exact shown
  | cons tree trees =>
      obtain ⟨id, rest, rfl, first, others⟩ := shown
      refine ⟨id, rest, rfl, ?_, ?_⟩
      · exact Shows.congr links grown tree first (same id List.mem_cons_self)
      · exact ShowsEach.congr links grown trees others
          fun c member => same c (List.mem_cons_of_mem _ member)
end

mutual
theorem Shows.unfold (links : Links diagram.size diagram.parent? diagram.children)
    (tree : Rose Role) {depth id : Nat} (deep : diagram.size ≤ depth + id)
    (shown : diagram.Shows tree id) :
    (Rose.unfold diagram.children depth id).map diagram.role = tree := by
  cases tree with
  | node role trees =>
      obtain ⟨inside, here, below⟩ := shown
      cases depth with
      | zero => omega
      | succ depth =>
          rw [Rose.unfold, Rose.map, here, Rose.mapAll_eq_map]
          refine congrArg (Rose.node role) ?_
          apply ShowsEach.unfold links trees below
          intro child member
          have larger := links.down child id (links.mem_children.mp member)
          omega
theorem ShowsEach.unfold (links : Links diagram.size diagram.parent? diagram.children)
    (trees : List (Rose Role)) {depth : Nat} {ids : List Nat}
    (shown : diagram.ShowsEach trees ids) (deep : ∀ id ∈ ids, diagram.size ≤ depth + id) :
    (ids.map (Rose.unfold diagram.children depth)).map (Rose.map diagram.role) = trees := by
  cases trees with
  | nil =>
      obtain rfl : ids = [] := shown
      rfl
  | cons tree trees =>
      obtain ⟨id, rest, rfl, first, others⟩ := shown
      have head := Shows.unfold links tree (deep id List.mem_cons_self) first
      have tail := ShowsEach.unfold links trees others
        fun c member => deep c (List.mem_cons_of_mem _ member)
      rw [List.map_cons, List.map_cons, head, tail]
end

/-- The later diagram has all statements of the earlier one.  Apart from those in `touched` they
are the same, and those have kept their roles. -/
structure Extends (touched : Nat → Prop) (before after : Diagram) : Prop where
  grown : before.size ≤ after.size
  kept : ∀ id < before.size, ¬ touched id → after.statement? id = before.statement? id
  roles : ∀ id < before.size, after.role id = before.role id

theorem Extends.trans {touched more : Nat → Prop} {before middle after : Diagram}
    (first : Extends touched before middle) (second : Extends more middle after) :
    Extends (fun id => touched id ∨ (id < before.size ∧ more id)) before after := by
  refine ⟨Nat.le_trans first.grown second.grown, ?_, ?_⟩
  · intro id inside away
    have later := Nat.lt_of_lt_of_le inside first.grown
    have untouched := second.kept id later fun other => away (.inr ⟨inside, other⟩)
    exact untouched.trans (first.kept id inside fun other => away (.inl other))
  · intro id inside
    exact (second.roles id (Nat.lt_of_lt_of_le inside first.grown)).trans (first.roles id inside)

theorem Extends.weaken {touched more : Nat → Prop} {before after : Diagram}
    (extended : Extends touched before after)
    (wider : ∀ id < before.size, touched id → more id) : Extends more before after :=
  ⟨extended.grown, fun id inside away => extended.kept id inside fun other =>
    away (wider id inside other), extended.roles⟩

theorem extends_addChildren (diagram : Diagram) (above : Nat) (nodes : List (NodeId × Label)) :
    Extends (· = above) diagram (diagram.addChildren above nodes) := by
  refine ⟨?_, ?_, ?_⟩
  · rw [size_addChildren]
    exact Nat.le_add_right ..
  · intro id inside other
    exact statement_addChildren_of_ne diagram above nodes inside other
  · intro id inside
    exact role_addChildren_of_lt diagram above nodes inside

/-- The statement at a position is there for a node, and has no children yet. -/
structure Awaits (diagram : Diagram) (node : NodeId × Label) (id : Nat) : Prop where
  inside : id < diagram.size
  childless : diagram.children id = []
  role : diagram.role id = .ofNode node

theorem Awaits.extends {touched : Nat → Prop} {before after : Diagram} {node : NodeId × Label}
    {id : Nat} (awaits : before.Awaits node id) (extended : Extends touched before after)
    (away : ¬ touched id) : after.Awaits node id := by
  refine ⟨Nat.lt_of_lt_of_le awaits.inside extended.grown, ?_, ?_⟩
  · rw [children, statement_eq_of_statement? (extended.kept id awaits.inside away)]
    exact awaits.childless
  · exact (extended.roles id awaits.inside).trans awaits.role

theorem awaits_addChildren {diagram : Diagram} {above : Nat} (inside : above < diagram.size)
    (nodes : List (NodeId × Label)) {index : Nat} (new : index < nodes.length) :
    (diagram.addChildren above nodes).Awaits nodes[index] (diagram.size + index) := by
  refine ⟨?_, ?_, role_addChildren_of_le diagram above nodes new⟩
  · rw [size_addChildren]
    omega
  · rw [children_addChildren_of_ne _ _ _ (by omega), children,
      statement, statement?_eq_none (Nat.le_add_right ..)]
    rfl

mutual
/-- Planting below a statement makes the tree of its node, and touches nothing else. -/
theorem plant_spec (tree : Rose (NodeId × Label)) {id : Nat} {diagram : Diagram}
    (sound : diagram.Sound) (awaits : diagram.Awaits tree.value id) :
    (plant tree id diagram).Sound ∧ Extends (· = id) diagram (plant tree id diagram) ∧
      (plant tree id diagram).Shows (tree.map Role.ofNode) id := by
  cases tree with
  | node node trees =>
      let family := diagram.addChildren id (trees.map Rose.value)
      have familySound : family.Sound :=
        sound.addChildren awaits.inside awaits.childless (trees.map Rose.value)
      have extended := extends_addChildren diagram id (trees.map Rose.value)
      have each : ∀ index tree, trees[index]? = some tree →
          family.Awaits tree.value (diagram.size + index) := by
        intro index tree here
        obtain ⟨inList, rfl⟩ := List.getElem?_eq_some_iff.mp here
        have new : index < (trees.map Rose.value).length := by simpa using inList
        have awaited := awaits_addChildren awaits.inside _ new
        rwa [List.getElem_map] at awaited
      obtain ⟨planted, further, below⟩ := plantAll_spec trees familySound each
      refine ⟨planted, (extended.trans further).weaken ?_, ?_⟩
      · rintro other inside (same | ⟨_, late, _⟩)
        · exact same
        · omega
      · have inside := Nat.lt_of_lt_of_le awaits.inside extended.grown
        have old := awaits.inside
        have kept := further.kept id inside (by omega)
        refine ⟨Nat.lt_of_lt_of_le inside further.grown, ?_, ?_⟩
        · exact ((further.roles id inside).trans (extended.roles id old)).trans awaits.role
        · have listed : (plantAll trees diagram.size family).children id =
              List.range' diagram.size trees.length := by
            have made := children_addChildren_self diagram id (trees.map Rose.value) old
            rw [List.length_map] at made
            rw [children, statement_eq_of_statement? kept]
            exact made
          rw [plant, listed]
          exact below
theorem plantAll_spec (trees : List (Rose (NodeId × Label))) {first : Nat} {diagram : Diagram}
    (sound : diagram.Sound) (awaits : ∀ index tree, trees[index]? = some tree →
      diagram.Awaits tree.value (first + index)) :
    (plantAll trees first diagram).Sound ∧
      Extends (fun id => first ≤ id ∧ id < first + trees.length) diagram
        (plantAll trees first diagram) ∧
      (plantAll trees first diagram).ShowsEach (Rose.mapAll Role.ofNode trees)
        (List.range' first trees.length) := by
  cases trees with
  | nil => exact ⟨sound, ⟨Nat.le_refl _, fun _ _ _ => rfl, fun _ _ => rfl⟩, rfl⟩
  | cons tree trees =>
      have others : ∀ index other, trees[index]? = some other →
          diagram.Awaits other.value (first + 1 + index) := by
        intro index other here
        have awaited := awaits (index + 1) other here
        rwa [show first + (index + 1) = first + 1 + index by omega] at awaited
      obtain ⟨laterSound, later, laterShown⟩ := plantAll_spec trees sound others
      have here : (plantAll trees (first + 1) diagram).Awaits tree.value first :=
        (awaits 0 tree rfl).extends later (by omega)
      obtain ⟨planted, extended, shown⟩ := plant_spec tree laterSound here
      refine ⟨planted, (later.trans extended).weaken ?_, ?_⟩
      · rw [List.length_cons]
        rintro other inside (⟨after, before⟩ | ⟨_, same⟩)
        · omega
        · omega
      · refine ⟨first, List.range' (first + 1) trees.length, rfl, shown, ?_⟩
        apply laterShown.congr laterSound.links extended.grown
        intro child member j below bound
        have larger := (List.mem_range'_1.mp member).1
        have after := le_of_mem_lineage laterSound.links.down below
        exact extended.kept j bound (by omega)
end

theorem statement?_ofRoot_succ (root : NodeId × Label) (id : Nat) :
    (ofRoot root).statement? (id + 1) = none := by
  simp [ofRoot, statement?]

theorem parent?_ofRoot (root : NodeId × Label) (id : Nat) : (ofRoot root).parent? id = none := by
  cases id with
  | zero => rfl
  | succ id => rw [parent?, statement?_ofRoot_succ]; rfl

theorem children_ofRoot (root : NodeId × Label) (id : Nat) : (ofRoot root).children id = [] := by
  cases id with
  | zero => rfl
  | succ id => rw [children, statement, statement?_ofRoot_succ]; rfl

theorem ofRoot_sound (root : NodeId × Label) : (ofRoot root).Sound := by
  constructor
  case links =>
    constructor
    case down =>
      intro id above link
      rw [parent?_ofRoot] at link
      cases link
    case inside =>
      intro id above link
      rw [parent?_ofRoot] at link
      cases link
    case rooted =>
      intro id positive inside
      have single : (ofRoot root).size = 1 := rfl
      omega
    case listed =>
      intro id
      simp [children_ofRoot, parent?_ofRoot]
  case blank =>
    intro id
    cases id with
    | zero => rfl
    | succ id => rw [role, statement, statement?_ofRoot_succ]; rfl

/-- Every outline is made into a sound diagram that stands in the tree of its roles. -/
theorem ofOutline_spec (outline : Rose (NodeId × Label)) :
    (ofOutline outline).Sound ∧
      (ofOutline outline).Shows (withDocument (outline.map Role.ofNode)) 0 := by
  have sound := ofRoot_sound outline.value
  have inside : 0 < (ofRoot outline.value).size := Nat.one_pos
  unfold ofOutline withDocument
  simp only [Rose.value_map, Role.ofNode]
  split
  · rename_i document
    have awaits : (ofRoot outline.value).Awaits outline.value 0 := by
      refine ⟨inside, rfl, ?_⟩
      rw [Role.ofNode, document]
      rfl
    obtain ⟨planted, -, shown⟩ := plant_spec outline sound awaits
    exact ⟨planted, shown⟩
  · let family := (ofRoot outline.value).addChildren 0 [outline.value]
    have familySound : family.Sound := sound.addChildren inside rfl [outline.value]
    have awaits : family.Awaits outline.value 1 :=
      awaits_addChildren inside [outline.value] Nat.one_pos
    obtain ⟨planted, extended, shown⟩ := plant_spec outline familySound awaits
    have top : 0 < family.size := by
      rw [size_addChildren]
      exact Nat.lt_of_lt_of_le inside (Nat.le_add_right ..)
    have kept := extended.kept 0 top (by omega)
    refine ⟨planted, Nat.lt_of_lt_of_le top extended.grown, ?_, 1, [], ?_, shown, rfl⟩
    · rw [extended.roles 0 top, role_addChildren_of_lt _ _ _ inside]
      rfl
    · rw [children, statement_eq_of_statement? kept]
      exact children_addChildren_self (ofRoot outline.value) 0 [outline.value] inside

end NassiChart.Diagram
