import NassiChart.Grammar.Node

/-!
# Kinds of statement

A diagram is made of statements. The kind of a statement decides which texts it collects
(`StatementKind.fields`), what it asks of its children, and how it is drawn. It is decided by the
name of the production that the statement stands for. Productions outside the table are passed
through; tokens have a kind of their own.

No name stands in the table twice, so the table can be read from its second column: a kind other
than `passThrough` is that of exactly the names that are listed with it.
-/

namespace NassiChart.Diagram

open NassiChart.Grammar

inductive Field where
  | instruction
  | forControl
  | forFrom
  | forTo
  | forStep
  | control
  | branches
  | comments
  | condition
  | assignments
  /-- Catches the text of nested statements, so that keywords of a body never reach the header of
  the construct around it. -/
  | body
  deriving DecidableEq, Repr

inductive JumpScope where
  | internal
  | external
  deriving DecidableEq, Repr

/-- What a conditional loop runs over, which decides its color. -/
inductive LoopSubject where
  | conditional
  | database
  deriving DecidableEq, Repr

inductive CaseSelector where
  /-- Every arm is compared with the value of one operand. -/
  | value
  /-- Every arm has a condition of its own. -/
  | condition
  deriving DecidableEq, Repr

inductive StatementKind where
  | document
  | instruction
  | call
  | jump (scope : JumpScope)
  | forLoop
  | foreverLoop
  | whileLoop (subject : LoopSubject)
  | alternative
  | trueBranch
  | falseBranch
  | caseHeader (selector : CaseSelector)
  | caseArm
  /-- The arm that is taken when no other is. -/
  | defaultArm
  /-- Gathers the values of one arm into a single condition. -/
  | conditionGroup
  | database
  /-- Gathers one assignment of a database statement into a single line. -/
  | assignment
  /-- Collects its text and is not drawn. -/
  | silent
  | token
  /-- A production without a counterpart in the diagram: only its children count. -/
  | passThrough
  deriving DecidableEq, Repr

namespace StatementKind

/-- The texts that a statement of this kind collects, in a fixed order. -/
def fields : StatementKind → List Field
  | document | instruction | call | jump _ | trueBranch | falseBranch | assignment | silent =>
    [.instruction]
  | forLoop => [.instruction, .forControl, .forFrom, .forTo, .forStep, .body]
  | foreverLoop => [.body]
  | whileLoop _ | alternative => [.instruction, .body]
  | caseHeader _ => [.control, .branches, .comments, .body]
  | caseArm | defaultArm => [.instruction, .condition]
  | conditionGroup => [.condition]
  | database => [.instruction, .assignments]
  | token | passThrough => []

def isBranch : StatementKind → Bool
  | trueBranch | falseBranch => true
  | _ => false

def isArm : StatementKind → Bool
  | caseArm | defaultArm => true
  | _ => false

end StatementKind

/-- The productions that have a counterpart in the diagram. -/
def productionKinds : List (String × StatementKind) :=
  [("program", .document),
   ("ADD", .instruction), ("ASSIGN", .instruction), ("anon_ASSIGN", .instruction),
   ("COMPRESS", .instruction), ("COMPUTE", .instruction), ("DEFINE_DATA", .instruction),
   ("DEFINE_WINDOW", .instruction), ("END", .instruction), ("IGNORE", .instruction),
   ("INCLUDE", .instruction), ("INPUT", .instruction), ("MOVE", .instruction),
   ("OBTAIN", .instruction), ("RESET", .instruction), ("SET_KEY", .instruction),
   ("STACK", .instruction), ("SUBTRACT", .instruction),
   ("CALLNAT", .call), ("PERFORM", .call),
   ("ESCAPE", .jump .internal), ("REINPUT", .jump .internal), ("FETCH", .jump .external),
   ("FOR", .forLoop), ("REPEAT", .foreverLoop),
   ("REPEAT_WHILE", .whileLoop .conditional), ("DEFINE_SUBROUTINE", .whileLoop .conditional),
   ("FIND_with_loop", .whileLoop .database), ("READ", .whileLoop .database),
   ("IF_open", .alternative), ("IF_closed", .alternative),
   ("THEN_open", .trueBranch), ("THEN_closed", .trueBranch),
   ("ELSE_open", .falseBranch), ("ELSE_closed", .falseBranch),
   ("DECIDE_ON", .caseHeader .value), ("DECIDE_FOR", .caseHeader .condition),
   ("DECIDE_ON_branch", .caseArm), ("DECIDE_FOR_branch", .caseArm),
   ("DECIDE_ON_none", .defaultArm), ("DECIDE_FOR_none", .defaultArm),
   ("DECIDE_ON_condition", .conditionGroup),
   ("GET", .database), ("STORE", .database), ("UPDATE", .database),
   ("assignment_all", .assignment),
   ("REDEFINE", .silent), ("^", .silent)]

def StatementKind.ofProduction (name : String) : StatementKind :=
  (productionKinds.lookup name).getD .passThrough

def StatementKind.ofLabel : Label → StatementKind
  | .production name => ofProduction name
  | .token _ => .token

namespace StatementKind

theorem ofProduction_eq_iff {name : String} {kind : StatementKind} (other : kind ≠ .passThrough) :
    ofProduction name = kind ↔ (name, kind) ∈ productionKinds := by
  constructor
  · intro entry
    rw [ofProduction] at entry
    cases found : productionKinds.lookup name with
    | none =>
        rw [found] at entry
        exact absurd entry.symm other
    | some listed =>
        obtain ⟨before, after, table, -⟩ := List.lookup_eq_some_iff.mp found
        obtain rfl : listed = kind := by rwa [found] at entry
        rw [table]
        exact List.mem_append_cons_self
  · intro member
    have each : ∀ entry ∈ productionKinds, ofProduction entry.1 = entry.2 := by decide
    exact each _ member

theorem ofProduction_eq_document_iff {name : String} :
    ofProduction name = .document ↔ name = "program" := by
  rw [ofProduction_eq_iff (by decide)]
  simp [productionKinds]

theorem ofLabel_eq_document_iff {label : Label} :
    ofLabel label = .document ↔ label = .production "program" := by
  cases label with
  | production name => simp [ofLabel, ofProduction_eq_document_iff]
  | token text => simp [ofLabel]

theorem ofProduction_ne_token (name : String) : ofProduction name ≠ .token := by
  intro token
  have listed := (ofProduction_eq_iff (by decide)).mp token
  simp [productionKinds] at listed

/-- Tokens are what is labelled as one. -/
theorem ofLabel_eq_token_iff {label : Label} :
    ofLabel label = .token ↔ ∃ text, label = .token text := by
  cases label with
  | production name => simp [ofLabel, ofProduction_ne_token]
  | token text => simp [ofLabel]

end StatementKind

end NassiChart.Diagram
