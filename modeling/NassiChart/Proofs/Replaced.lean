import Mathlib.Data.List.Forall2
import NassiChart.Proofs.Drawing

/-! # Trees with replaced bodies

A place in an ordered tree is the list of child numbers that leads to it from the root.  `Replaced`
relates two trees that differ in nothing but what is below the last children of one node.  What a
statement asks of its children does not depend on the texts of tokens, so it is the same for both.
-/

namespace NassiChart.Rose

variable {α β : Type}

/-- The value at a place. -/
def at? : Rose α → List Nat → Option α
  | node a _, [] => some a
  | node _ trees, index :: place => trees[index]?.bind (at? · place)

/-- The place of the lowest node that passes the test, at `place` or on the way there. -/
def lowest? (test : α → Bool) : Rose α → List Nat → Option (List Nat)
  | node a _, [] => if test a then some [] else none
  | node a trees, index :: place =>
    ((trees[index]?.bind (lowest? test · place)).map (index :: ·)).or
      (if test a then some [] else none)

/-- Below the children from `start` on of the node at `place`, everything may be another.  These
children are alike, and all else is equal. -/
inductive Replaced (alike : α → α → Prop) (start : Nat) : List Nat → Rose α → Rose α → Prop where
  | here {a before inner outer} (length : before.length = start)
      (each : List.Forall₂ (fun tree other => alike tree.value other.value) inner outer) :
      Replaced alike start [] (node a (before ++ inner)) (node a (before ++ outer))
  | deeper {a before after tree other place} (further : Replaced alike start place tree other) :
      Replaced alike start (before.length :: place) (node a (before ++ tree :: after))
        (node a (before ++ other :: after))

theorem at?_map (f : α → β) (tree : Rose α) (place : List Nat) :
    (tree.map f).at? place = (tree.at? place).map f := by
  induction place generalizing tree with
  | nil =>
      cases tree
      rfl
  | cons index place ih =>
      cases tree with
      | node a trees =>
          rw [map, at?, at?, mapAll_eq_map, List.getElem?_map]
          cases trees[index]? with
          | none => rfl
          | some tree => exact ih tree

theorem lowest?_map (f : α → β) (test : β → Bool) (tree : Rose α) (place : List Nat) :
    (tree.map f).lowest? test place = tree.lowest? (test ∘ f) place := by
  induction place generalizing tree with
  | nil =>
      cases tree
      rfl
  | cons index place ih =>
      cases tree with
      | node a trees =>
          have same : (fun tree : Rose α => (tree.map f).lowest? test place) =
              fun tree => tree.lowest? (test ∘ f) place := funext ih
          rw [map, lowest?, lowest?, mapAll_eq_map, List.getElem?_map, Option.bind_map]
          exact congrArg (fun below => ((trees[index]?.bind below).map (index :: ·)).or _) same

theorem Replaced.value_eq {alike : α → α → Prop} {start : Nat} {place : List Nat}
    {tree other : Rose α} (replaced : Replaced alike start place tree other) :
    tree.value = other.value := by
  cases replaced <;> rfl

theorem Replaced.onTop {alike : α → α → Prop} {start : Nat} {place : List Nat} {tree other : Rose α}
    (a : α) (replaced : Replaced alike start place tree other) :
    Replaced alike start (0 :: place) (node a [tree]) (node a [other]) :=
  @Replaced.deeper _ _ _ a [] [] _ _ _ replaced

theorem Replaced.map {alike : α → α → Prop} {alike' : β → β → Prop} {f : α → β} {start : Nat}
    {place : List Nat} {tree other : Rose α} (replaced : Replaced alike start place tree other)
    (kept : ∀ a b, alike a b → alike' (f a) (f b)) :
    Replaced alike' start place (tree.map f) (other.map f) := by
  induction replaced with
  | @here a before inner outer length each =>
      simp only [Rose.map, mapAll_eq_map, List.map_append]
      refine .here ((List.length_map _).trans length) ?_
      rw [List.forall₂_map_left_iff, List.forall₂_map_right_iff]
      refine each.imp fun tree other same => ?_
      rw [value_map, value_map]
      exact kept _ _ same
  | @deeper a before after tree other place further ih =>
      simp only [Rose.map, mapAll_eq_map, List.map_append, List.map_cons]
      have length : (before.map (Rose.map f)).length = before.length := List.length_map _
      exact length ▸ .deeper ih

end NassiChart.Rose

namespace NassiChart.Grammar

/-- The label without the text of a token. -/
def Label.textless : Label → Label
  | .production name => .production name
  | .token _ => .token ""

/-- The labels of a tree, each in its place. -/
def Tree.labels (tree : Tree) : Rose Label :=
  tree.shape.map tree.label

end NassiChart.Grammar

namespace NassiChart.Diagram

open NassiChart.Grammar

namespace Role

def textless (role : Role) : Role :=
  { role with label := role.label.textless }

/-- The same role, up to the text of a token. -/
def Alike (role other : Role) : Prop :=
  role.textless = other.textless

theorem holdsLoop_textless (role : Role) : role.textless.holdsLoop = role.holdsLoop := by
  cases label : role.label <;> simp [holdsLoop, textless, label, Label.textless]

theorem startsArms_textless (header child : Role) :
    header.startsArms child.textless = header.startsArms child := by
  cases label : child.label <;> simp [startsArms, textless, label, Label.textless]

theorem startsAssignments_textless (role : Role) :
    role.textless.startsAssignments = role.startsAssignments := by
  cases label : role.label <;> simp [startsAssignments, textless, label, Label.textless]

theorem textless_keepsPlans : KeepsPlans textless :=
  ⟨fun _ => rfl, holdsLoop_textless, startsArms_textless, startsAssignments_textless⟩

end Role

/-- Requests do not depend on the texts of tokens. -/
theorem requests_congr (role : Role) (field : Field) {children others : List Role}
    (same : children.map Role.textless = others.map Role.textless) :
    role.requests field children = role.requests field others ∧
      role.bodyFrom children = role.bodyFrom others := by
  have keeps := Role.textless_keepsPlans
  rw [← keeps.requests role field children, ← keeps.requests role field others,
    ← keeps.bodyFrom role children, ← keeps.bodyFrom role others, same]
  exact ⟨rfl, rfl⟩

section Children

variable {before inner outer after : List (Rose Role)}

/-- The children of the node with the replaced part are alike. -/
theorem textless_here
    (each : List.Forall₂ (fun tree other => Role.Alike tree.value other.value) inner outer) :
    ((before ++ inner).map Rose.value).map Role.textless =
      ((before ++ outer).map Rose.value).map Role.textless := by
  simp only [List.map_append]
  rw [List.append_cancel_left_eq]
  induction each with
  | nil => rfl
  | cons same _ ih => exact congrArg₂ List.cons same ih

/-- The children of a node on the way there are equal. -/
theorem textless_deeper {start : Nat} {place : List Nat} {tree other : Rose Role}
    (further : Rose.Replaced Role.Alike start place tree other) :
    ((before ++ tree :: after).map Rose.value).map Role.textless =
      ((before ++ other :: after).map Rose.value).map Role.textless := by
  simp only [List.map_append, List.map_cons, further.value_eq]

end Children

end NassiChart.Diagram
