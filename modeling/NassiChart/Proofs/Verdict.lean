import NassiChart.Convert
import NassiChart.Proofs.LinePosition
import NassiChart.Proofs.Run
import NassiChart.Report

/-! # Which exports are read, and what is said about the others

An export is read exactly if the lines of its tree section form a tree.  Otherwise the first line
that cannot stand where it stands decides the one diagnostic, and every label of it, in the
diagnostic and in the report, selects a line of the export to the byte.
-/

namespace NassiChart.Export

open NassiChart.Grammar NassiChart.Text NassiChart.Document

theorem Refused.shown_mem {lines : List Line} {code : ErrorCode} {shown : List (Line × Bool)}
    (refused : Refused lines code shown) : ∀ mark ∈ shown, mark.1 ∈ lines := by
  cases refused <;> simp

theorem treeSection_sublist (lines : List Line) : (treeSection lines).Sublist lines :=
  (List.takeWhile_sublist _).trans ((List.drop_sublist _ _).trans (List.dropWhile_sublist _))

theorem forall₂_of_map_eq_map {α β γ : Type} {f : α → γ} {g : β → γ} {related : α → β → Prop}
    {xs : List α} {ys : List β} (same : xs.map f = ys.map g)
    (each : ∀ x, ∀ y ∈ ys, f x = g y → related x y) : List.Forall₂ related xs ys := by
  induction xs generalizing ys with
  | nil =>
      obtain rfl : ys = [] := List.map_eq_nil_iff.mp same.symm
      exact .nil
  | cons x xs ih =>
      obtain ⟨y, rest, rfl, first, tail⟩ := List.map_eq_cons_iff.mp same.symm
      refine .cons (each x y List.mem_cons_self first.symm) (ih tail.symm fun a b member => ?_)
      exact each a b (List.mem_cons_of_mem y member)

theorem Accepted.parse {source : String} (accepted : Accepted (treeSection (sourceLines source))) :
    ∃ tree, parse source = .ok tree := by
  obtain ⟨root, rest, whole, isRoot, nested⟩ := accepted
  obtain ⟨treeLines, cursor, tree, ran, -⟩ := readTree_of_isRoot isRoot nested
  refine ⟨tree, ?_⟩
  rw [Export.parse, whole, ran]
  rfl

theorem Refused.parse {source : String} {code : ErrorCode} {shown : List (Line × Bool)}
    (refused : Refused (treeSection (sourceLines source)) code shown) :
    ∃ diagnostic : Diagnostic,
      parse source = .error ⟨[diagnostic]⟩ ∧ diagnostic.code = some code ∧
        diagnostic.labels.map (fun label => (label.span, label.primary)) =
          shown.map (fun mark => (mark.1.span, mark.2)) := by
  obtain ⟨fault, stopped, same, labels⟩ := refused.readTree
  refine ⟨fault.diagnostic, ?_, same, labels⟩
  rw [Export.parse, stopped]
  rfl

end NassiChart.Export
