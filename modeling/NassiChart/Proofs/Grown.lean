import NassiChart.Proofs.Reading

/-! # Trees that can be grown

`Tree.IsGrown` holds of the trees that insertion alone can make, at whatever cursors.  They are
sound, and what the reader makes of an export is one of them.
-/

namespace NassiChart

namespace Grammar

namespace Tree

/-- The trees that can be made from a root by inserting new nodes. -/
inductive IsGrown : Tree → Prop where
  | singleton {root : Node} (fresh : root.IsFresh) : IsGrown (singleton root)
  | insert {tree grown : Tree} {cursor id : NodeId} {child : Node} (before : IsGrown tree)
      (fresh : child.IsFresh) (inserted : tree.insert cursor child = .ok (some (id, grown))) :
      IsGrown grown

/-- Inserting attaches the node to an expression that is less deep. -/
theorem exists_attach_of_insert {tree grown : Tree} {cursor id : Nat} {child : Node}
    (inserted : tree.insert cursor child = .ok (some (id, grown))) :
    ∃ above holder, tree.node? above = some holder ∧ holder.isExpression = true ∧
      holder.level < child.level ∧ grown = tree.attach above child := by
  unfold insert at inserted
  cases found : tree.receiver? cursor child.level with
  | none => simp [found] at inserted
  | some above =>
      have shallower : tree.isShallower child.level above = true := List.find?_some found
      obtain ⟨holder, there, lower⟩ := isShallower_iff.mp shallower
      simp only [found, there, Option.any_some] at inserted
      split at inserted
      · rename_i expression
        simp only [Except.ok.injEq, Option.some.injEq, Prod.mk.injEq] at inserted
        exact ⟨above, holder, there, expression, lower, inserted.2.symm⟩
      · cases inserted

theorem IsGrown.sound {tree : Tree} (grown : tree.IsGrown) : tree.Sound := by
  induction grown with
  | singleton fresh => exact singleton_sound fresh
  | insert _ fresh inserted ih =>
      obtain ⟨above, holder, found, expression, lower, rfl⟩ := exists_attach_of_insert inserted
      exact ih.attach found expression lower fresh

/-- A less deep expression takes the node itself. -/
theorem insert_eq_attach {tree : Tree} {above : Nat} {holder child : Node}
    (found : tree.node? above = some holder) (expression : holder.isExpression = true)
    (lower : holder.level < child.level) :
    tree.insert above child = .ok (some (tree.size, tree.attach above child)) := by
  have receiver : tree.receiver? above child.level = some above := by
    have shallower : tree.isShallower child.level above = true :=
      isShallower_iff.mpr ⟨holder, found, lower⟩
    simp only [receiver?, ancestors, lineage, climb]
    exact List.find?_cons_of_pos shallower
  simp [insert, receiver, found, expression]

theorem IsGrown.attach {tree : Tree} (grown : tree.IsGrown) {above : Nat} {holder child : Node}
    (found : tree.node? above = some holder) (expression : holder.isExpression = true)
    (lower : holder.level < child.level) (fresh : child.IsFresh) :
    (tree.attach above child).IsGrown :=
  .insert grown fresh (insert_eq_attach found expression lower)

end Tree

end Grammar

namespace Export

open NassiChart.Grammar

theorem readNodes_isGrown {root : Span} {lines : List Line} {cursor : Nat} {tree grown : Tree}
    (before : tree.IsGrown) (read : readNodes root lines cursor tree = .ok grown) :
    grown.IsGrown := by
  induction lines generalizing cursor tree with
  | nil =>
      obtain rfl : tree = grown := Except.ok.inj read
      exact before
  | cons line lines ih =>
      unfold readNodes at read
      split at read
      · cases read
      · rename_i treeLine _
        split at read
        · cases read
        · exact ih before read
        · rename_i inserted
          exact ih (before.insert (TreeLine.node_isFresh treeLine) inserted) read

/-- What is read from an export has been grown line by line. -/
theorem parse_isGrown {source : String} {tree : Tree} (parsed : parse source = .ok tree) :
    tree.IsGrown := by
  unfold parse reported at parsed
  cases read : readTree (treeSection (sourceLines source)) with
  | error fault => simp [read, Except.mapError] at parsed
  | ok grown =>
      obtain rfl : grown = tree := by simpa [read, Except.mapError] using parsed
      unfold readTree at read
      split at read
      · cases read
      · split at read
        · cases read
        · rename_i line _
          split at read
          · cases read
          · split at read
            · exact readNodes_isGrown (.singleton (TreeLine.node_isFresh line)) read
            · cases read

end Export

end NassiChart
