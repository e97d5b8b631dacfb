import NassiChart.Document.Render
import NassiChart.Failure

/-!
# Writing a document

A sink takes bytes until it is full and takes none from then on. Whoever writes offers the bytes
that are left for as long as the sink takes some of them, and fails when it takes none.

A diagram is written row by row while it is walked: the opening tags of a statement, its children,
and its closing tags. A failure ends the walk at once, from whatever depth.
-/

namespace NassiChart.Document

open NassiChart.Diagram

/-- What a sink holds, how many bytes more it takes, and how often it was offered bytes of which it
took none. -/
structure Sink where
  written : List UInt8
  room : Nat
  refusals : Nat
  deriving DecidableEq, Repr

namespace Sink

def ofLimit (limit : Nat) : Sink :=
  ⟨[], limit, 0⟩

/-- Offer some bytes. The result is how many of them the sink takes. -/
def offer (sink : Sink) (bytes : List UInt8) : Nat × Sink :=
  let taken := min bytes.length sink.room
  (taken, ⟨sink.written ++ bytes.take taken, sink.room - taken,
    if taken = 0 then sink.refusals + 1 else sink.refusals⟩)

/-- Write all of some bytes. Nothing is offered if there are none. -/
def write (sink : Sink) : List UInt8 → Except IoFailure Unit × Sink
  | [] => (.ok (), sink)
  | byte :: bytes =>
    match sink.offer (byte :: bytes) with
    | (0, sink) => (.error .writerFull, sink)
    | (taken + 1, sink) => sink.write (bytes.drop taken)
termination_by bytes => bytes.length

end Sink

/-- Something that is written into a sink, and stops at the first failure. -/
abbrev Writing := ExceptT IoFailure (StateM Sink)

def writeText (text : String) : Writing Unit :=
  fun sink => sink.write (Text.bytes text)

def writeRow (row : String) : Writing Unit := do
  writeText row
  writeText "\n"

def writeLeaf (name text : String) (color : Color) : Writing Unit := do
  writeRow (openTag name (elementAttributes text "" color ++
    [attr "rotated" "0", attr "disabled" "0"]))
  writeRow (closeTag name)

/-- Write some children, one after the other. -/
def writeAll (parts : List (Writing Unit)) : Writing Unit :=
  parts.forM id

/-- Write children between the tags of a wrapper, which is indented by `margin`. -/
def writeWrapped (margin name : String) (parts : List (Writing Unit)) : Writing Unit := do
  writeRow (margin ++ openTag name [])
  writeAll parts
  writeRow (margin ++ closeTag name)

def writeDocument (options : Options) (parts : List (Writing Unit)) : Writing Unit := do
  writeRow declaration
  writeRow (openTag "root" (rootAttributes options))
  writeWrapped "  " "children" parts
  writeRow (closeTag "root")

/-- Write a loop, whose children stand in a wrapper. -/
def writeLoop (name wrapper : String) (attributes : List String) (parts : List (Writing Unit)) :
    Writing Unit := do
  writeRow (openTag name attributes)
  writeWrapped "  " wrapper parts
  writeRow (closeTag name)

/-- Write an empty arm, unless a child of the body provides the arm. -/
def writeMissingArm (body : List StatementKind) (kind : StatementKind) (name : String) :
    Writing Unit :=
  if body.contains kind then pure () else writeWrapped "" name []

def writeAlternative (options : Options) (statement : Statement) (body : List StatementKind)
    (parts : List (Writing Unit)) : Writing Unit := do
  let condition := "(" ++ statement.buffers.joined .instruction ++ ")"
  writeRow (openTag "alternative"
    (elementAttributes (escape condition) "" options.palette.ordinary))
  writeMissingArm body .trueBranch "qTrue"
  writeAll parts
  writeMissingArm body .falseBranch "qFalse"
  writeRow (closeTag "alternative")

def writeDecision (options : Options) (statement : Statement) (parts : List (Writing Unit)) :
    Writing Unit := do
  writeRow (openTag "case" (elementAttributes (commaText (caseEntries statement))
    (fieldText statement .comments) options.palette.ordinary))
  writeAll parts
  writeRow (closeTag "case")

/-- Write a statement, given how its children are written and of which kinds they are. -/
def writeStatement (options : Options) (statement : Statement) (kinds : List StatementKind)
    (parts : List (Writing Unit)) : Writing Unit :=
  let palette := options.palette
  let text := fieldText statement .instruction
  let body := parts.drop statement.bodyStart
  match statement.kind with
  | .document => writeDocument options parts
  | .instruction => writeLeaf "instruction" text palette.ordinary
  | .call => writeLeaf "call" text palette.ordinary
  | .jump scope => writeLeaf "jump" text (jumpColor palette scope)
  | .database => writeLeaf "instruction" (commaText (databaseLines statement)) palette.database
  | .forLoop =>
    writeLoop "for" "qFor" (elementAttributes (forHeader statement) "" palette.ordinary) body
  | .foreverLoop =>
    writeLoop "forever" "qForever" [attr "comment" "", attr "color" palette.ordinary.hex] parts
  | .whileLoop subject =>
    writeLoop "while" "qWhile" (elementAttributes text "" (loopColor palette subject)) body
  | .alternative => writeAlternative options statement (kinds.drop statement.bodyStart) body
  | .trueBranch => writeWrapped "" "qTrue" parts
  | .falseBranch => writeWrapped "" "qFalse" parts
  | .caseHeader _ => writeDecision options statement body
  | .caseArm | .defaultArm => writeWrapped "" "qCase" parts
  | .passThrough => writeAll parts
  | .conditionGroup | .assignment | .silent | .token => pure ()

mutual
def writeTree (options : Options) : Rose Statement → Writing Unit
  | .node statement trees =>
    writeStatement options statement (trees.map (·.value.kind)) (writersOf options trees)
def writersOf (options : Options) : List (Rose Statement) → List (Writing Unit)
  | [] => []
  | tree :: trees => writeTree options tree :: writersOf options trees
end

/-- Write a diagram as a whole document. -/
def write (options : Options) (diagram : Diagram) : Writing Unit :=
  writeTree options diagram.view

end NassiChart.Document
