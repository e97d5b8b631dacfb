import NassiChart.Rose
import NassiChart.Diagram.Kind

/-!
# Diagrams

A `Diagram` keeps its statements in an array, linked by index; statement `0` is the document. A
parent always has a smaller index than its children.

`Buffers` holds the texts that a statement has collected, one list for each field that it
declares. The declared fields are fixed when the statement is made; only their lists grow. Text
enters a diagram through `handText`, which gives it to the nearest statement, from a given one
upwards, that declares the field, and answers with that statement. Text that no statement on the
way declares is dropped.
-/

namespace NassiChart.Diagram

open NassiChart.Grammar

/-- A list of texts for each declared field, in the order of declaration. -/
structure Buffers where
  entries : List (Field × List String)
  deriving DecidableEq, Repr

namespace Buffers

def blank (fields : List Field) : Buffers :=
  ⟨fields.map fun field => (field, [])⟩

def fields (buffers : Buffers) : List Field :=
  buffers.entries.map (·.1)

def declares (buffers : Buffers) (field : Field) : Bool :=
  buffers.entries.any (·.1 == field)

/-- The texts of a field. A field that is not declared has none. -/
def get (buffers : Buffers) (field : Field) : List String :=
  (buffers.entries.lookup field).getD []

def joined (buffers : Buffers) (field : Field) : String :=
  " ".intercalate (buffers.get field)

/-- The same with `text` at the end of `field`. Nothing changes if the field is not declared. -/
def append (buffers : Buffers) (field : Field) (text : String) : Buffers :=
  ⟨buffers.entries.map fun entry =>
    if entry.1 = field then (entry.1, entry.2 ++ [text]) else entry⟩

@[simp] theorem fields_blank (declared : List Field) : (blank declared).fields = declared := by
  simp [blank, fields, Function.comp_def]

/-- Collecting text declares no field and drops none. -/
@[simp] theorem fields_append (buffers : Buffers) (field : Field) (text : String) :
    (buffers.append field text).fields = buffers.fields := by
  simp only [append, fields, List.map_map]
  refine List.map_congr_left fun entry _ => ?_
  by_cases h : entry.1 = field <;> simp [h]

end Buffers

abbrev StatementId := Nat

structure Statement where
  kind : StatementKind
  origin : NodeId
  label : Label
  /-- `none` for the document at the top. -/
  parent : Option StatementId
  children : List StatementId
  buffers : Buffers
  /-- How many of the children come before the body. -/
  bodyStart : Nat
  deriving DecidableEq, Repr

/-- A new statement: no children, nothing collected. -/
def Statement.fresh (kind : StatementKind) (origin : NodeId) (label : Label)
    (parent : Option StatementId) : Statement :=
  { kind, origin, label, parent, children := [], buffers := .blank kind.fields, bodyStart := 0 }

/-- The children that are drawn inside the construct. -/
def Statement.body (statement : Statement) : List StatementId :=
  statement.children.drop statement.bodyStart

end Diagram

open Diagram in
/-- A tree of statements. Statement `0` is the document at its top. -/
structure Diagram where
  statements : Array Statement
  deriving DecidableEq, Repr

namespace Diagram

open NassiChart.Grammar

def size (diagram : Diagram) : Nat :=
  diagram.statements.size

def root (_ : Diagram) : StatementId := 0

def statement? (diagram : Diagram) (id : StatementId) : Option Statement :=
  diagram.statements[id]?

/-- What stands at positions outside the diagram. It is drawn as nothing. -/
def vacant : Statement :=
  .fresh .token 0 (.token "") none

def statement (diagram : Diagram) (id : StatementId) : Statement :=
  (diagram.statement? id).getD vacant

def parent? (diagram : Diagram) (id : StatementId) : Option StatementId :=
  (diagram.statement? id).bind (·.parent)

def children (diagram : Diagram) (id : StatementId) : List StatementId :=
  (diagram.statement id).children

def ancestors (diagram : Diagram) (id : StatementId) : List StatementId :=
  lineage diagram.parent? id

def declares (diagram : Diagram) (field : Field) (id : StatementId) : Bool :=
  (diagram.statement? id).any (·.buffers.declares field)

def joined (diagram : Diagram) (id : StatementId) (field : Field) : String :=
  (diagram.statement id).buffers.joined field

def modify (diagram : Diagram) (id : StatementId) (change : Statement → Statement) : Diagram :=
  ⟨diagram.statements.modify id change⟩

/-- The nearest of `start` and its ancestors that declares the field. -/
def receiver? (diagram : Diagram) (start : StatementId) (field : Field) : Option StatementId :=
  (diagram.ancestors start).find? (diagram.declares field)

def appendText (diagram : Diagram) (id : StatementId) (field : Field) (text : String) : Diagram :=
  diagram.modify id fun statement =>
    { statement with buffers := statement.buffers.append field text }

/-- Hand a text to the receiver of a field from `start` upwards. The result has the receiver, and
the diagram with the text. Without a receiver the text is dropped. -/
def handText (diagram : Diagram) (start : StatementId) (field : Field) (text : String) :
    Option StatementId × Diagram :=
  match diagram.receiver? start field with
  | some id => (some id, diagram.appendText id field text)
  | none => (none, diagram)

/-- `handText` for a text of which nobody asks who took it. -/
def addText (diagram : Diagram) (start : StatementId) (field : Field) (text : String) : Diagram :=
  (diagram.handText start field text).2

/-- Hand a text to the receiver of a field above `id`. -/
def report (diagram : Diagram) (id : StatementId) (field : Field) (text : String) : Diagram :=
  match diagram.parent? id with
  | some parent => diagram.addText parent field text
  | none => diagram

/-- Let the body of a statement start at its child number `start`. -/
def setBodyStart (diagram : Diagram) (id : StatementId) (start : Nat) : Diagram :=
  diagram.modify id fun statement => { statement with bodyStart := start }

def shape (diagram : Diagram) : Rose StatementId :=
  Rose.unfold diagram.children diagram.size diagram.root

def view (diagram : Diagram) : Rose Statement :=
  diagram.shape.map diagram.statement

end Diagram

end NassiChart
