import NassiChart.Export.Reader
import NassiChart.Proofs.Surface

/-! # The two arms of an alternative

An alternative shows two arms, one for each outcome.  An arm that its body lacks is written empty,
and the body lacks an arm if none of its children is one; but a body is drawn through productions
that are passed through, so an arm in such a production is drawn beside the empty one.
`two_arms_iff` says when the arms that are drawn are the two that the alternative has.
-/

namespace NassiChart.Diagram

open NassiChart.Grammar NassiChart.Document

/-- The element is an arm of an alternative. -/
def isArmElement : Element → Bool
  | .node tag _ => tag.name == "qTrue" || tag.name == "qFalse"

/-- The wrapper that a branch is drawn as. -/
def armName : StatementKind → String
  | .trueBranch => "qTrue"
  | _ => "qFalse"

/-- The branches that some statements stand for. -/
def branchesIn (diagram : Diagram) (ids : List StatementId) : List StatementId :=
  (ids.flatMap diagram.surface).filter fun id => (diagram.role id).kind.isBranch

def branchKinds (diagram : Diagram) (ids : List StatementId) : List StatementKind :=
  (diagram.branchesIn ids).map fun branch => (diagram.role branch).kind

/-- The branches of one kind that some statements stand for. -/
def branchesOfKind (diagram : Diagram) (kind : StatementKind) (ids : List StatementId) :
    List StatementId :=
  (diagram.branchesIn ids).filter fun id => (diagram.role id).kind = kind

/-- What the branches of one kind hold. -/
def armContent (options : Options) (diagram : Diagram) (kind : StatementKind)
    (ids : List StatementId) : List Element :=
  (diagram.branchesOfKind kind ids).flatMap (elementsBelow options diagram)

/-- What an alternative draws for its body: the body, with an empty arm for each kind of branch
that it lacks. -/
def bodyOfAlternative (options : Options) (diagram : Diagram) (body : List StatementId) :
    List Element :=
  let kinds := body.map fun id => (diagram.role id).kind
  missing .trueBranch "qTrue" kinds ++ body.flatMap (elementsAt options diagram) ++
    missing .falseBranch "qFalse" kinds

/-- The children of an alternative from the first branch on.  The first child is the keyword and no
branch. -/
def branchesOn (diagram : Diagram) (id : StatementId) : List StatementId :=
  (diagram.children id).tail.dropWhile fun child => !(diagram.role child).kind.isBranch

/-- The children of an alternative in front of the first branch. -/
def beforeBranches (diagram : Diagram) (id : StatementId) : List StatementId :=
  (diagram.children id).take 1 ++
    (diagram.children id).tail.takeWhile fun child => !(diagram.role child).kind.isBranch

variable {diagram : Diagram}

theorem Role.bodyFrom_of_alternative {role : Role} (kind : role.kind = .alternative)
    (keyword : Role) (rest : List Role) :
    role.bodyFrom (keyword :: rest) = rest.findIdx (·.kind.isBranch) + 1 := by
  simp only [bodyFrom, kind, List.drop_succ_cons, List.drop_zero, List.length_cons,
    ← findIdx?_getD_length]
  cases rest.findIdx? (·.kind.isBranch) <;> rfl

/-- A filled alternative is cut in front of its first branch. -/
theorem FilledFor.cut_of_alternative (linked : diagram.Linked) {id : Nat}
    (inside : id < diagram.size) {field : Field} (filledFor : diagram.FilledFor id (some field))
    (kind : (diagram.role id).kind = .alternative) :
    (diagram.children id).take (diagram.statement id).bodyStart = diagram.beforeBranches id ∧
      (diagram.children id).drop (diagram.statement id).bodyStart = diagram.branchesOn id := by
  rw [filledFor.bodyStart linked inside, childRoles, beforeBranches, branchesOn]
  cases diagram.children id with
  | nil => simp
  | cons keyword rest =>
      rw [List.map_cons, Role.bodyFrom_of_alternative kind, List.findIdx_map, List.take_succ_cons,
        List.drop_succ_cons, List.tail_cons, List.takeWhile_eq_take_findIdx_not,
        List.dropWhile_eq_drop_findIdx_not]
      simp only [Bool.not_not]
      exact ⟨rfl, rfl⟩

theorem elementsAt_of_isBranch (linked : diagram.Linked) (options : Options) {id : Nat}
    (inside : id < diagram.size) (branch : (diagram.role id).kind.isBranch = true) :
    elementsAt options diagram id =
      [wrapper (armName (diagram.role id).kind) (elementsBelow options diagram id)] := by
  have kind : (diagram.role id).kind = (diagram.statement id).kind := rfl
  rw [kind] at branch ⊢
  rw [elementsAt_eq linked options inside, statementElements]
  cases hk : (diagram.statement id).kind <;> simp_all [StatementKind.isBranch] <;> rfl

/-- Of what is not passed through, branches are drawn as an arm, and nothing else is. -/
theorem filter_elementsAt (linked : diagram.Linked) (options : Options) {id : Nat}
    (inside : id < diagram.size) (other : (diagram.role id).kind ≠ .passThrough) :
    (elementsAt options diagram id).filter isArmElement =
      if (diagram.role id).kind.isBranch then elementsAt options diagram id else [] := by
  have kind : (diagram.role id).kind = (diagram.statement id).kind := rfl
  rw [kind] at other ⊢
  rw [elementsAt_eq linked options inside, statementElements]
  cases hk : (diagram.statement id).kind with
  | passThrough => exact absurd hk other
  | jump scope => cases scope <;> rfl
  | whileLoop subject => cases subject <;> rfl
  | _ => rfl

/-- The arms that are drawn for some statements are those of their branches. -/
theorem filter_flatMap_elementsAt (linked : diagram.Linked) (options : Options) {ids : List Nat}
    (inside : ∀ id ∈ ids, id < diagram.size) :
    (ids.flatMap (elementsAt options diagram)).filter isArmElement =
      (diagram.branchesIn ids).flatMap (elementsAt options diagram) := by
  have shown : ∀ ids : List Nat, (∀ id ∈ ids, id < diagram.size ∧
      (diagram.role id).kind ≠ .passThrough) →
      (ids.flatMap (elementsAt options diagram)).filter isArmElement =
        (ids.filter fun id => (diagram.role id).kind.isBranch).flatMap
          (elementsAt options diagram) := by
    intro ids each
    induction ids with
    | nil => rfl
    | cons id ids ih =>
        obtain ⟨bound, other⟩ := each id List.mem_cons_self
        rw [List.flatMap_cons, List.filter_append, filter_elementsAt linked options bound other,
          ih fun next member => each next (List.mem_cons_of_mem _ member), List.filter_cons]
        split <;> rfl
  have surface : ids.flatMap (elementsAt options diagram) =
      (ids.flatMap diagram.surface).flatMap (elementsAt options diagram) := by
    rw [List.flatMap_assoc]
    exact List.flatMap_congr fun id member =>
      elementsAt_eq_surface linked options (inside id member)
  rw [surface, shown, branchesIn]
  intro id member
  obtain ⟨above, listed, on⟩ := List.mem_flatMap.mp member
  exact of_mem_surface linked (inside above listed) on

theorem mem_branchesIn_of_mem (linked : diagram.Linked) {ids : List Nat} {id : Nat}
    (inside : id < diagram.size) (member : id ∈ ids)
    (branch : (diagram.role id).kind.isBranch = true) : id ∈ diagram.branchesIn ids := by
  have other : (diagram.role id).kind ≠ .passThrough := by
    intro passed
    rw [passed] at branch
    cases branch
  refine List.mem_filter.mpr ⟨List.mem_flatMap.mpr ⟨id, member, ?_⟩, branch⟩
  rw [surface_of_ne linked inside other]
  exact List.mem_singleton_self id

/-- Some statements lack a kind of branch if none of their branches of this kind is one of them. -/
theorem mem_kinds_iff (linked : diagram.Linked) {ids : List Nat}
    (inside : ∀ id ∈ ids, id < diagram.size) {kind : StatementKind}
    (isBranch : kind.isBranch = true) : kind ∈ ids.map (fun id => (diagram.role id).kind) ↔
      ∃ branch ∈ diagram.branchesOfKind kind ids, branch ∈ ids := by
  rw [List.mem_map]
  constructor
  · rintro ⟨id, member, rfl⟩
    have listed := mem_branchesIn_of_mem linked (inside id member) member isBranch
    exact ⟨id, List.mem_filter.mpr ⟨listed, by simp⟩, member⟩
  · rintro ⟨branch, listed, member⟩
    exact ⟨branch, member, of_decide_eq_true (List.mem_filter.mp listed).2⟩

theorem append_eq_singleton_comm {α : Type} {first second : List α} {x : α} :
    first ++ second = [x] ↔ second ++ first = [x] := by
  rw [List.append_eq_singleton_iff, List.append_eq_singleton_iff, or_comm, and_comm,
    and_comm (a := second = [x])]

theorem append_eq_pair_iff {α : Type} {first second : List α} {x y : α} (some : first ≠ [])
    (other : second ≠ []) : first ++ second = [x, y] ↔ first = [x] ∧ second = [y] := by
  constructor
  · intro pair
    obtain ⟨a, first, rfl⟩ := List.exists_cons_of_ne_nil some
    obtain ⟨b, second, rfl⟩ := List.exists_cons_of_ne_nil other
    cases first <;> simp_all
  · rintro ⟨rfl, rfl⟩
    rfl

/-- A list whose keys are two at most, in this order, is cut between them. -/
theorem filter_append_filter {α κ : Type} [DecidableEq κ] (key : α → κ) {first second : κ}
    (different : first ≠ second) {xs : List α} (keys : (xs.map key).Sublist [first, second]) :
    xs.filter (key · = first) ++ xs.filter (key · = second) = xs ∧
      (xs.filter (key · = first)).length ≤ 1 ∧ (xs.filter (key · = second)).length ≤ 1 := by
  refine ⟨?_, ?_, ?_⟩
  · rcases xs with _ | ⟨x, _ | ⟨y, _ | ⟨z, xs⟩⟩⟩
    · rfl
    · have listed := keys.subset List.mem_cons_self
      rcases List.mem_pair.mp listed with same | same <;>
        simp [same, different, different.symm]
    · obtain ⟨same, same', -⟩ : key x = first ∧ key y = second ∧ True := by
        simpa using keys.eq_of_length rfl
      simp [same, same', different, different.symm]
    · have longer := keys.length_le
      simp at longer
  · have once := keys.count_le first
    rw [← List.countP_eq_length_filter]
    simpa [List.count, List.countP_map, Function.comp_def, beq_eq_decide, different.symm] using once
  · have once := keys.count_le second
    rw [← List.countP_eq_length_filter]
    simpa [List.count, List.countP_map, Function.comp_def, beq_eq_decide, different] using once

theorem branchesIn_append (diagram : Diagram) (front ids : List Nat) :
    diagram.branchesIn (front ++ ids) = diagram.branchesIn front ++ diagram.branchesIn ids := by
  rw [branchesIn, List.flatMap_append, List.filter_append]
  rfl

theorem branchesOfKind_append (diagram : Diagram) (kind : StatementKind) (front ids : List Nat) :
    diagram.branchesOfKind kind (front ++ ids) =
      diagram.branchesOfKind kind front ++ diagram.branchesOfKind kind ids := by
  rw [branchesOfKind, branchesIn_append, List.filter_append]
  rfl

theorem lt_size_of_mem_branchesIn (linked : diagram.Linked) {ids : List Nat}
    (inside : ∀ id ∈ ids, id < diagram.size) {branch : Nat}
    (member : branch ∈ diagram.branchesIn ids) : branch < diagram.size := by
  obtain ⟨above, listed, on⟩ := List.mem_flatMap.mp (List.mem_filter.mp member).1
  exact (of_mem_surface linked (inside above listed) on).1

theorem filter_missing (arm : StatementKind) {name : String} (arms : List StatementKind)
    (isArm : isArmElement (wrapper name []) = true) :
    (missing arm name arms).filter isArmElement = missing arm name arms := by
  unfold missing
  split
  · rfl
  · rw [List.filter_cons_of_pos isArm, List.filter_nil]

/-- The arms of one kind for some statements: an empty one if none of them is a branch of this kind,
and those that are drawn. -/
def armsOfKind (options : Options) (diagram : Diagram) (kind : StatementKind)
    (ids : List StatementId) : List Element :=
  missing kind (armName kind) (ids.map fun id => (diagram.role id).kind) ++
    (diagram.branchesOfKind kind ids).flatMap (elementsAt options diagram)

section Arm

variable {kind : StatementKind} {front ids : List Nat}

theorem elementsAt_of_mem_branchesOfKind (linked : diagram.Linked) (options : Options)
    (inside : ∀ id ∈ ids, id < diagram.size) {branch : Nat}
    (member : branch ∈ diagram.branchesOfKind kind ids) : elementsAt options diagram branch =
      [wrapper (armName kind) (elementsBelow options diagram branch)] := by
  obtain ⟨listed, same⟩ := List.mem_filter.mp member
  obtain rfl := of_decide_eq_true same
  exact elementsAt_of_isBranch linked options (lt_size_of_mem_branchesIn linked inside listed)
    (List.mem_filter.mp listed).2

/-- There is an arm of either kind. -/
theorem armsOfKind_ne_nil (linked : diagram.Linked) (options : Options)
    (inside : ∀ id ∈ ids, id < diagram.size) (isBranch : kind.isBranch = true) :
    armsOfKind options diagram kind ids ≠ [] := by
  rw [armsOfKind, missing]
  split
  · rename_i present
    obtain ⟨branch, member, -⟩ := (mem_kinds_iff linked inside isBranch).mp present
    intro nothing
    have empty := List.flatMap_eq_nil_iff.mp (List.append_eq_nil_iff.mp nothing).2 branch member
    rw [elementsAt_of_mem_branchesOfKind linked options inside member] at empty
    cases empty
  · exact List.cons_ne_nil _ _

/-- The arms of one kind are one arm with all that belongs into it if no branch of this kind is
missed, and if those that are not drawn are empty. -/
theorem armsOfKind_eq_singleton_iff (linked : diagram.Linked) (options : Options)
    (inside : ∀ id ∈ ids, id < diagram.size) (isBranch : kind.isBranch = true)
    (once : (diagram.branchesOfKind kind (front ++ ids)).length ≤ 1) :
    armsOfKind options diagram kind ids =
        [wrapper (armName kind) (armContent options diagram kind (front ++ ids))] ↔
    (∀ branch ∈ diagram.branchesOfKind kind ids, branch ∈ ids) ∧
      ∀ branch ∈ diagram.branchesOfKind kind front, elementsBelow options diagram branch = [] := by
  have listed := mem_kinds_iff linked inside isBranch
  have drawn : ∀ branch ∈ diagram.branchesOfKind kind ids, elementsAt options diagram branch =
      [wrapper (armName kind) (elementsBelow options diagram branch)] :=
    fun branch member => elementsAt_of_mem_branchesOfKind linked options inside member
  rw [branchesOfKind_append] at once
  rw [armsOfKind, armContent, branchesOfKind_append]
  generalize diagram.branchesOfKind kind front = missed at once
  generalize diagram.branchesOfKind kind ids = shown at listed drawn once
  match missed, shown with
  | [], [] => simp [missing, listed]
  | [branch], [] =>
      simp [missing, listed, wrapper, eq_comm (b := elementsBelow options diagram branch)]
  | [], [branch] =>
      have element := drawn branch (List.mem_singleton_self branch)
      by_cases member : branch ∈ ids <;> simp [missing, listed, element, member]
  | _ :: _, _ :: _ =>
      rw [List.length_append, List.length_cons, List.length_cons] at once
      omega
  | _ :: _ :: _, [] | [], _ :: _ :: _ => simp at once

end Arm

/-- The arms of a body are two if those of either kind are one. -/
theorem filter_bodyOfAlternative_eq_pair_iff (linked : diagram.Linked) (options : Options)
    {ids : List Nat} (inside : ∀ id ∈ ids, id < diagram.size)
    (ordered : (diagram.branchKinds ids).Sublist [.trueBranch, .falseBranch])
    {first second : Element} :
    (bodyOfAlternative options diagram ids).filter isArmElement = [first, second] ↔
      armsOfKind options diagram .trueBranch ids = [first] ∧
        armsOfKind options diagram .falseBranch ids = [second] := by
  obtain ⟨split, -, -⟩ := filter_append_filter _ (by decide) ordered
  have some : armsOfKind options diagram .trueBranch ids ≠ [] :=
    armsOfKind_ne_nil linked options inside rfl
  have other : armsOfKind options diagram .falseBranch ids ≠ [] :=
    armsOfKind_ne_nil linked options inside rfl
  have arms : (bodyOfAlternative options diagram ids).filter isArmElement =
      armsOfKind options diagram .trueBranch ids ++
        ((diagram.branchesOfKind .falseBranch ids).flatMap (elementsAt options diagram) ++
          missing .falseBranch "qFalse" (ids.map fun id => (diagram.role id).kind)) := by
    rw [bodyOfAlternative, List.filter_append, List.filter_append, filter_missing _ _ rfl,
      filter_missing _ _ rfl, filter_flatMap_elementsAt linked options inside, ← split,
      List.flatMap_append, armsOfKind]
    simp only [List.append_assoc]
    rfl
  rw [armsOfKind] at other
  rw [arms, append_eq_pair_iff some (fun nothing => other ?_), append_eq_singleton_comm, armsOfKind,
    armsOfKind]
  · rfl
  · rw [List.append_eq_nil_iff] at nothing ⊢
    exact nothing.symm

theorem two_arms_of_body_iff (linked : diagram.Linked) (options : Options) {front ids : List Nat}
    (inside : ∀ id ∈ ids, id < diagram.size)
    (ordered : (diagram.branchKinds (front ++ ids)).Sublist [.trueBranch, .falseBranch]) :
    (bodyOfAlternative options diagram ids).filter isArmElement =
      [wrapper "qTrue" (armContent options diagram .trueBranch (front ++ ids)),
        wrapper "qFalse" (armContent options diagram .falseBranch (front ++ ids))] ↔
    (∀ branch ∈ diagram.branchesIn ids, branch ∈ ids) ∧
      ∀ branch ∈ diagram.branchesIn front, elementsBelow options diagram branch = [] := by
  obtain ⟨-, onceTrue, onceFalse⟩ := filter_append_filter _ (by decide) ordered
  have forTrue := armsOfKind_eq_singleton_iff linked options inside rfl onceTrue
  have forFalse := armsOfKind_eq_singleton_iff linked options inside rfl onceFalse
  rw [branchKinds, branchesIn_append, List.map_append] at ordered
  have orderedFront := (List.sublist_append_left _ _).trans ordered
  have orderedBody := (List.sublist_append_right _ _).trans ordered
  obtain ⟨splitFront, -, -⟩ := filter_append_filter _ (by decide) orderedFront
  obtain ⟨splitBody, -, -⟩ := filter_append_filter _ (by decide) orderedBody
  rw [filter_bodyOfAlternative_eq_pair_iff linked options inside orderedBody]
  refine (and_congr forTrue forFalse).trans ?_
  rw [and_and_and_comm, ← List.forall_mem_append, ← List.forall_mem_append]
  simp only [branchesOfKind, splitFront, splitBody]

/-- What is drawn for an alternative: an element that shows the condition, and the body. -/
theorem elementsAt_of_alternative (linked : diagram.Linked) (options : Options) {id : Nat}
    (inside : id < diagram.size) {field : Field} (filledFor : diagram.FilledFor id (some field))
    (kind : (diagram.role id).kind = .alternative) :
    elementsAt options diagram id = [.node ⟨"alternative", described
        ("(" ++ (diagram.statement id).buffers.joined .instruction ++ ")") ""
        options.palette.ordinary⟩
      (bodyOfAlternative options diagram (diagram.branchesOn id))] := by
  have cut := (filledFor.cut_of_alternative linked inside kind).2
  have same : (diagram.statement id).kind = .alternative := kind
  rw [elementsAt_eq linked options inside, statementElements, same]
  simp only [← List.map_drop, cut]
  rfl

theorem beforeBranches_append_branchesOn (diagram : Diagram) (id : Nat) :
    diagram.beforeBranches id ++ diagram.branchesOn id = diagram.children id := by
  rw [beforeBranches, branchesOn, List.append_assoc, List.takeWhile_append_dropWhile]
  cases diagram.children id <;> rfl

theorem alternative_element {tree : Tree} (options : Options) {id : Nat}
    (drawn : (build tree).Drawn id) (kind : ((build tree).role id).kind = .alternative)
    (ordered : ((build tree).branchKinds ((build tree).children id)).Sublist
      [.trueBranch, .falseBranch]) :
    ∃ condition,
      elementsAt options (build tree) id =
        [.node ⟨"alternative", described condition "" options.palette.ordinary⟩
          (bodyOfAlternative options (build tree) ((build tree).branchesOn id))] ∧
      ((bodyOfAlternative options (build tree) ((build tree).branchesOn id)).filter isArmElement =
          [wrapper "qTrue"
            (armContent options (build tree) .trueBranch ((build tree).children id)),
          wrapper "qFalse"
            (armContent options (build tree) .falseBranch ((build tree).children id))] ↔
        (∀ branch ∈ (build tree).branchesIn ((build tree).branchesOn id),
          branch ∈ (build tree).branchesOn id) ∧
        ∀ branch ∈ (build tree).branchesIn ((build tree).beforeBranches id),
          elementsBelow options (build tree) branch = []) := by
  have linked := build_linked tree
  have nonempty := build_nonempty tree
  have inside := DrawnFrom.inside linked nonempty drawn
  have notToken : ((build tree).role id).kind ≠ .token := by
    rw [kind]
    decide
  obtain ⟨field, -, filledFor⟩ := drawn.filledFor linked nonempty (build_filledFor tree) notToken
  refine ⟨_, elementsAt_of_alternative linked options inside filledFor kind, ?_⟩
  have parts := (build tree).beforeBranches_append_branchesOn id
  have bounds : ∀ branch ∈ (build tree).branchesOn id, branch < (build tree).size := by
    intro branch member
    have listed : branch ∈ (build tree).children id := parts ▸ List.mem_append_right _ member
    exact linked.children_inside listed
  rw [← parts] at ordered
  have arms := two_arms_of_body_iff linked options bounds ordered
  rwa [parts] at arms

/-- For every drawn alternative whose branches, with productions that are passed through in between
at most, are one for each outcome at most, the true one first: the element shows exactly two arms,
which hold what its branches hold, if and only if each branch of the body is a child of the
alternative itself, and a branch in front of the body draws nothing. -/
theorem two_arms_iff (tree : Tree) (options : Options) {id : Nat} (drawn : (build tree).Drawn id)
    (kind : ((build tree).role id).kind = .alternative)
    (ordered : ((build tree).branchKinds ((build tree).children id)).Sublist
      [.trueBranch, .falseBranch]) :
    (build tree).rowsAt options id <:+: rows options (build tree).view ∧
    ∃ condition inner,
      ReadsAs ((build tree).rowsAt options id)
        [.node ⟨"alternative", described condition "" options.palette.ordinary⟩ inner] ∧
      (inner.filter isArmElement =
          [wrapper "qTrue"
            (armContent options (build tree) .trueBranch ((build tree).children id)),
          wrapper "qFalse"
            (armContent options (build tree) .falseBranch ((build tree).children id))] ↔
        (∀ branch ∈ (build tree).branchesIn ((build tree).branchesOn id),
          branch ∈ (build tree).branchesOn id) ∧
        ∀ branch ∈ (build tree).branchesIn ((build tree).beforeBranches id),
          elementsBelow options (build tree) branch = []) := by
  obtain ⟨condition, element, arms⟩ := alternative_element options drawn kind ordered
  have reads := readsAs_rowsAt options (build tree) id
  rw [element] at reads
  exact ⟨drawn.rowsAt_infix (build_linked tree) (build_nonempty tree) options, condition, _, reads,
    arms⟩

/-- Both branches right below an alternative. -/
def directBranchesExport : String :=
  "\n+--<IF_open>\n|  +--IF\n|  +--#A\n" ++
    "|  +--<THEN_open>\n|  |  +--<END>\n|  |  |  +--END\n" ++
    "|  +--<ELSE_open>\n|  |  +--<IGNORE>\n|  |  |  +--IGNORE\n"

theorem two_arms_direct : ∃ tree, Export.parse directBranchesExport = .ok tree ∧
    ∃ condition inner,
      ReadsAs ((build tree).rowsAt (.standard ⟨2000, 1, 1⟩) 1)
        [.node ⟨"alternative", described condition "" Color.white⟩ inner] ∧
      inner.filter isArmElement =
        [wrapper "qTrue" (elementsBelow (.standard ⟨2000, 1, 1⟩) (build tree) 4),
          wrapper "qFalse" (elementsBelow (.standard ⟨2000, 1, 1⟩) (build tree) 5)] := by
  let tree : Tree := ⟨#[⟨0, "<IF_open>", none, .expression [1, 2, 3, 6]⟩,
    ⟨1, "IF", some 0, .terminal⟩, ⟨1, "#A", some 0, .terminal⟩,
    ⟨1, "<THEN_open>", some 0, .expression [4]⟩, ⟨2, "<END>", some 3, .expression [5]⟩,
    ⟨3, "END", some 4, .terminal⟩,
    ⟨1, "<ELSE_open>", some 0, .expression [7]⟩, ⟨2, "<IGNORE>", some 6, .expression [8]⟩,
    ⟨3, "IGNORE", some 7, .terminal⟩]⟩
  have parsed : Export.parse directBranchesExport = .ok tree := by decide +kernel
  have draws : (build tree).Draws 0 1 := by decide +kernel
  obtain ⟨-, condition, inner, reads, arms⟩ :=
    two_arms_iff tree (.standard ⟨2000, 1, 1⟩) (.tail .refl draws) (by decide +kernel)
      (by decide +kernel)
  have none : (build tree).branchesIn ((build tree).beforeBranches 1) = [] := by decide +kernel
  have one : (build tree).branchesOfKind .trueBranch ((build tree).children 1) = [4] := by
    decide +kernel
  have other : (build tree).branchesOfKind .falseBranch ((build tree).children 1) = [5] := by
    decide +kernel
  have two := arms.mpr ⟨by decide +kernel, by simp [none]⟩
  rw [armContent, armContent, one, other, List.flatMap_singleton, List.flatMap_singleton] at two
  exact ⟨tree, parsed, condition, inner, reads, two⟩

/-- The branch for the other outcome in a production that is passed through. -/
def wrappedBranchExport : String :=
  "\n+--<IF_open>\n|  +--IF\n|  +--#A\n" ++
    "|  +--<THEN_open>\n|  |  +--<END>\n|  |  |  +--END\n" ++
    "|  +--<else_part>\n|  |  +--<ELSE_open>\n|  |  |  +--<IGNORE>\n|  |  |  |  +--IGNORE\n"

/-- The branch is drawn, and after it an empty arm as if it were not there. -/
theorem two_arms_wrapped : ∃ tree, Export.parse wrappedBranchExport = .ok tree ∧
    (build tree).Drawn 1 ∧ ((build tree).role 1).kind = .alternative ∧
    ((build tree).branchKinds ((build tree).children 1)).Sublist [.trueBranch, .falseBranch] ∧
    ∃ condition inner,
      elementsAt (.standard ⟨2000, 1, 1⟩) (build tree) 1 =
        [.node ⟨"alternative", described condition "" Color.white⟩ inner] ∧
      inner.filter isArmElement ≠
        [wrapper "qTrue" (armContent (.standard ⟨2000, 1, 1⟩) (build tree) .trueBranch
            ((build tree).children 1)),
          wrapper "qFalse" (armContent (.standard ⟨2000, 1, 1⟩) (build tree) .falseBranch
            ((build tree).children 1))] := by
  let tree : Tree := ⟨#[⟨0, "<IF_open>", none, .expression [1, 2, 3, 6]⟩,
    ⟨1, "IF", some 0, .terminal⟩, ⟨1, "#A", some 0, .terminal⟩,
    ⟨1, "<THEN_open>", some 0, .expression [4]⟩, ⟨2, "<END>", some 3, .expression [5]⟩,
    ⟨3, "END", some 4, .terminal⟩, ⟨1, "<else_part>", some 0, .expression [7]⟩,
    ⟨2, "<ELSE_open>", some 6, .expression [8]⟩, ⟨3, "<IGNORE>", some 7, .expression [9]⟩,
    ⟨4, "IGNORE", some 8, .terminal⟩]⟩
  have parsed : Export.parse wrappedBranchExport = .ok tree := by decide +kernel
  have draws : (build tree).Draws 0 1 := by decide +kernel
  have drawn : (build tree).Drawn 1 := .tail .refl draws
  have kind : ((build tree).role 1).kind = .alternative := by decide +kernel
  have ordered : ((build tree).branchKinds ((build tree).children 1)).Sublist
      [.trueBranch, .falseBranch] := by decide +kernel
  obtain ⟨condition, element, arms⟩ :=
    alternative_element (.standard ⟨2000, 1, 1⟩) drawn kind ordered
  refine ⟨tree, parsed, drawn, kind, ordered, condition, _, element, fun two => ?_⟩
  have missed : ¬ ∀ branch ∈ (build tree).branchesIn ((build tree).branchesOn 1),
      branch ∈ (build tree).branchesOn 1 := by decide +kernel
  exact missed (arms.mp two).1

end NassiChart.Diagram
