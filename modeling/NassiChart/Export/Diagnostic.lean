import NassiChart.Export.Line

/-!
# Diagnostics

What is told to a user about an export that cannot be read: a message, an error code, the lines
that caused it, and a hint. A `ParseError` holds one or more diagnostics.
-/

namespace NassiChart.Export

/-- The kinds of structural fault. Each has a code that users can search for. -/
inductive ErrorCode where
  | rootIndented
  | rootNotExpression
  | secondRoot
  | malformedLine
  | missingTree
  deriving DecidableEq, Repr

namespace ErrorCode

def text : ErrorCode → String
  | rootIndented => "E100"
  | rootNotExpression => "E101"
  | secondRoot => "E102"
  | malformedLine => "E103"
  | missingTree => "E104"

def description : ErrorCode → String
  | rootIndented => "root not at level 0"
  | rootNotExpression => "root is not an expression"
  | secondRoot => "more than one root"
  | malformedLine => "malformed tree line"
  | missingTree => "missing parse tree"

def all : List ErrorCode :=
  [rootIndented, rootNotExpression, secondRoot, malformedLine, missingTree]

end ErrorCode

/-- A remark on a range of the source. The primary label marks the fault itself. -/
structure SourceLabel where
  span : Span
  message : String
  primary : Bool
  deriving DecidableEq, Repr

structure Diagnostic where
  message : String
  code : Option ErrorCode
  labels : List SourceLabel
  help : Option String
  deriving DecidableEq, Repr

/-- The one-line form: `error[E100]: message`, or `error: message` without a code. -/
def Diagnostic.display (diagnostic : Diagnostic) : String :=
  match diagnostic.code with
  | some code => s!"error[{code.text}]: {diagnostic.message}"
  | none => s!"error: {diagnostic.message}"

structure ParseError where
  diagnostics : List Diagnostic
  deriving DecidableEq, Repr

/-- The first diagnostic, and how many more there are. -/
def ParseError.display (error : ParseError) : String :=
  match error.diagnostics with
  | [] => ""
  | [first] => first.display
  | first :: more => s!"{first.display} (+{more.length} more)"

end NassiChart.Export
