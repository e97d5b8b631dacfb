import Mathlib.Data.List.Basic
import NassiChart.Rose

/-! # Lineages

Where every parent has a smaller index than its child, the step count of `climb` cuts nothing off:
a lineage is a node followed by the lineage of its parent.  Everything else about ancestors
follows from this one equation by induction on the index.
-/

namespace NassiChart

/-- Every parent comes before its child. -/
def Descends (parent : Nat → Option Nat) : Prop :=
  ∀ id above, parent id = some above → above < id

variable {parent : Nat → Option Nat}

theorem climb_eq_lineage (down : Descends parent) {steps id : Nat} (enough : id < steps) :
    climb parent steps id = lineage parent id := by
  induction steps using Nat.strongRecOn generalizing id with
  | ind steps ih =>
      obtain ⟨steps, rfl⟩ : ∃ n, steps = n + 1 := ⟨steps - 1, by omega⟩
      simp only [lineage, climb]
      cases link : parent id with
      | none => rfl
      | some above =>
          have smaller : above < id := down id above link
          simp only
          rw [ih steps (by omega) (by omega), ← ih id (by omega) smaller]

theorem lineage_of_none {id : Nat} (link : parent id = none) : lineage parent id = [id] := by
  simp only [lineage, climb, link]

theorem lineage_of_some (down : Descends parent) {id above : Nat} (link : parent id = some above) :
    lineage parent id = id :: lineage parent above := by
  simp only [lineage, climb, link]
  exact congrArg (id :: ·) (climb_eq_lineage down (down id above link))

theorem lineage_eq_cons (id : Nat) : lineage parent id = id :: (lineage parent id).tail := rfl

theorem self_mem_lineage (id : Nat) : id ∈ lineage parent id := by
  simp only [lineage, climb]
  exact List.mem_cons_self

/-- An ancestor of a node is the node itself or an ancestor of its parent. -/
theorem mem_lineage_iff (down : Descends parent) {above id : Nat} :
    above ∈ lineage parent id ↔
      above = id ∨ ∃ next, parent id = some next ∧ above ∈ lineage parent next := by
  cases link : parent id with
  | none => simp [lineage_of_none link]
  | some next => simp [lineage_of_some down link]

theorem lineage_suffix (down : Descends parent) {above id : Nat}
    (member : above ∈ lineage parent id) : lineage parent above <:+ lineage parent id := by
  induction id using Nat.strongRecOn with
  | ind id ih =>
      rcases (mem_lineage_iff down).mp member with rfl | ⟨next, link, rest⟩
      · exact List.suffix_rfl
      · rw [lineage_of_some down link]
        exact (ih next (down id next link) rest).trans (List.suffix_cons id _)

theorem lineage_trans (down : Descends parent) {top middle id : Nat}
    (upper : top ∈ lineage parent middle) (lower : middle ∈ lineage parent id) :
    top ∈ lineage parent id :=
  (lineage_suffix down lower).mem upper

theorem le_of_mem_lineage (down : Descends parent) {above id : Nat}
    (member : above ∈ lineage parent id) : above ≤ id := by
  induction id using Nat.strongRecOn with
  | ind id ih =>
      rcases (mem_lineage_iff down).mp member with rfl | ⟨next, link, rest⟩
      · exact Nat.le_refl _
      · have smaller := down id next link
        exact Nat.le_of_lt (Nat.lt_of_le_of_lt (ih next smaller rest) smaller)

theorem mem_lineage_of_le (down : Descends parent) {first second id : Nat}
    (member : first ∈ lineage parent id) (member' : second ∈ lineage parent id)
    (before : first ≤ second) : first ∈ lineage parent second := by
  induction id using Nat.strongRecOn with
  | ind id ih =>
      rcases (mem_lineage_iff down).mp member' with rfl | ⟨next, link, rest'⟩
      · exact member
      · rcases (mem_lineage_iff down).mp member with rfl | ⟨next', link', rest⟩
        · have upward := le_of_mem_lineage down rest'
          have downward := down _ next link
          omega
        · obtain rfl : next = next' := Option.some.inj (link.symm.trans link')
          exact ih next (down id next link) rest rest'

theorem lineage_decreasing (down : Descends parent) (id : Nat) :
    (lineage parent id).Pairwise (· > ·) := by
  induction id using Nat.strongRecOn with
  | ind id ih =>
      cases link : parent id with
      | none => simp [lineage_of_none link]
      | some above =>
          have smaller := down id above link
          rw [lineage_of_some down link, List.pairwise_cons]
          refine ⟨fun node member => ?_, ih above smaller⟩
          exact Nat.lt_of_le_of_lt (le_of_mem_lineage down member) smaller

theorem lt_of_mem_tail_lineage (down : Descends parent) {above id : Nat}
    (member : above ∈ (lineage parent id).tail) : above < id := by
  have decreasing := lineage_decreasing down id
  rw [lineage_eq_cons] at decreasing
  exact (List.pairwise_cons.mp decreasing).1 above member

/-- A parent of an ancestor lies strictly above. -/
theorem mem_tail_lineage (down : Descends parent) {above child id : Nat}
    (link : parent child = some above) (member : child ∈ lineage parent id) :
    above ∈ (lineage parent id).tail := by
  rcases (mem_lineage_iff down).mp member with rfl | ⟨next, up, rest⟩
  · rw [lineage_of_some down link]
    exact self_mem_lineage above
  · rw [lineage_of_some down up]
    have upper : above ∈ lineage parent child :=
      (mem_lineage_iff down).mpr (.inr ⟨above, link, self_mem_lineage above⟩)
    exact lineage_trans down upper rest

/-- The nearest ancestor that passes a test is the last index of those that do. -/
theorem find?_lineage_eq_some_iff (down : Descends parent) {test : Nat → Bool} {id found : Nat} :
    (lineage parent id).find? test = some found ↔
      found ∈ lineage parent id ∧ test found = true ∧
        ∀ other ∈ lineage parent id, test other = true → other ≤ found := by
  have decreasing := lineage_decreasing down id
  generalize lineage parent id = nodes at decreasing
  induction nodes with
  | nil => simp
  | cons node nodes ih =>
      obtain ⟨smaller, decreasing⟩ := List.pairwise_cons.mp decreasing
      by_cases passes : test node = true
      · rw [List.find?_cons_of_pos passes]
        constructor
        · rintro ⟨⟩
          refine ⟨List.mem_cons_self, passes, fun other member _ => ?_⟩
          rcases List.mem_cons.mp member with rfl | member
          · exact Nat.le_refl _
          · exact Nat.le_of_lt (smaller other member)
        · rintro ⟨member, -, greatest⟩
          have upper := greatest node List.mem_cons_self passes
          rcases List.mem_cons.mp member with rfl | member
          · rfl
          · have lower := smaller found member
            omega
      · rw [List.find?_cons_of_neg passes]
        refine (ih decreasing).trans ?_
        simp only [List.mem_cons, forall_eq_or_imp, passes, Bool.false_eq_true, false_implies,
          true_and]
        refine and_congr_left fun ⟨good, _⟩ => ⟨Or.inr, ?_⟩
        rintro (rfl | member)
        · exact absurd good passes
        · exact member

theorem lineage_congr {other : Nat → Option Nat} (down : Descends parent) (down' : Descends other)
    {id : Nat} (same : ∀ j ≤ id, other j = parent j) : lineage other id = lineage parent id := by
  induction id using Nat.strongRecOn with
  | ind id ih =>
      cases link : parent id with
      | none => rw [lineage_of_none link, lineage_of_none ((same id (Nat.le_refl _)).trans link)]
      | some above =>
          have smaller := down id above link
          rw [lineage_of_some down link,
            lineage_of_some down' ((same id (Nat.le_refl _)).trans link),
            ih above smaller fun j before => same j (by omega)]

theorem mem_lineage_iff_child (down : Descends parent) {above id : Nat} :
    above ∈ lineage parent id ↔
      above = id ∨ ∃ child, parent child = some above ∧ child ∈ lineage parent id := by
  induction id using Nat.strongRecOn with
  | ind id ih =>
      constructor
      · intro member
        rcases (mem_lineage_iff down).mp member with rfl | ⟨next, link, rest⟩
        · exact .inl rfl
        · right
          rcases (ih next (down id next link)).mp rest with rfl | ⟨child, below, lower⟩
          · exact ⟨id, link, self_mem_lineage id⟩
          · exact ⟨child, below, (mem_lineage_iff down).mpr (.inr ⟨next, link, lower⟩)⟩
      · rintro (rfl | ⟨child, below, lower⟩)
        · exact self_mem_lineage _
        · have top : above ∈ lineage parent child :=
            (mem_lineage_iff down).mpr (.inr ⟨above, below, self_mem_lineage above⟩)
          exact lineage_trans down top lower

/-- Two children of a node have no descendant in common. -/
theorem not_mem_lineage_of_sibling (down : Descends parent) {above first second id : Nat}
    (link : parent first = some above) (link' : parent second = some above)
    (different : first ≠ second) (member : first ∈ lineage parent id) :
    second ∉ lineage parent id := by
  -- The one with the smaller index would be an ancestor of the other, and so of their parent.
  have apart : ∀ {lower upper : Nat}, parent lower = some above → parent upper = some above →
      lower < upper → lower ∉ lineage parent upper := by
    intro lower upper linkLower linkUpper smaller between
    rcases (mem_lineage_iff down).mp between with same | ⟨next, up, rest⟩
    · omega
    · obtain rfl : above = next := Option.some.inj (linkUpper.symm.trans up)
      have upward := le_of_mem_lineage down rest
      have downward := down lower above linkLower
      omega
  intro member'
  cases Nat.lt_or_gt_of_ne different with
  | inl smaller =>
      exact apart link link' smaller (mem_lineage_of_le down member member' (Nat.le_of_lt smaller))
  | inr larger =>
      exact apart link' link larger (mem_lineage_of_le down member' member (Nat.le_of_lt larger))

end NassiChart
