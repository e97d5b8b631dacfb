import NassiChart.Diagram.Basic
import NassiChart.Document.Escape
import NassiChart.Document.Options

/-!
# Rendering

A diagram is written as an XML document, one tag a row. The rows of a statement are its opening
tags, the rows of its children, and its closing tags; text stands in attributes only. `rows` gives
the rows of one statement with everything below it, `render` the whole document.
-/

namespace NassiChart.Document

open NassiChart.Diagram

/-- An attribute with its value, which is escaped already. -/
def attr (name value : String) : String :=
  name ++ "=\"" ++ value ++ "\""

def openTag (name : String) (attributes : List String) : String :=
  "<" ++ " ".intercalate (name :: attributes) ++ ">"

def closeTag (name : String) : String :=
  "</" ++ name ++ ">"

/-- The attributes that every element of the diagram has: its text, a comment and its color. -/
def elementAttributes (text comment : String) (color : Color) : List String :=
  [attr "text" text, attr "comment" comment, attr "color" color.hex]

def leafRows (name text : String) (color : Color) : List String :=
  [openTag name (elementAttributes text "" color ++
      [attr "rotated" "0", attr "disabled" "0"]),
    closeTag name]

/-- The rows of the children between the tags of a wrapper, which is indented by `margin`. -/
def wrapped (margin name : String) (inner : List String) : List String :=
  (margin ++ openTag name []) :: inner ++ [margin ++ closeTag name]

def formatVersion : String := "3.30-12"

/-- Preferences of the diagram editor, which it expects in every document. -/
def preferences : List String :=
  [attr "preRepeat" "until ", attr "postFor" "to", attr "preReturn" "return",
   attr "postForIn" "in", attr "preWhile" "while ", attr "output" "OUTPUT",
   attr "input" "INPUT", attr "preFor" "for", attr "preExit" "exit",
   attr "preLeave" "leave", attr "ignoreCase" "true", attr "preThrow" "throw",
   attr "preForIn" "foreach", attr "stepFor" "by"]

def rootAttributes (options : Options) : List String :=
  [attr "xmlns:nsd" "https://structorizer.fisch.lu", attr "version" formatVersion] ++
    preferences ++
    [attr "author" (escape options.author), attr "created" options.created.text,
     attr "changedby" "", attr "changed" "", attr "origin" (escape options.origin),
     attr "text" (escape options.programName), attr "comment" "",
     attr "color" options.palette.ordinary.hex, attr "type" "program",
     attr "style" "nice"]

def declaration : String := "<?xml version=\"1.0\" encoding=\"UTF-8\"?>"

def documentRows (options : Options) (inner : List String) : List String :=
  declaration :: openTag "root" (rootAttributes options) ::
    wrapped "  " "children" inner ++ [closeTag "root"]

def fieldText (statement : Statement) (field : Field) : String :=
  escape (statement.buffers.joined field)

/-- The header of a counted loop, `FOR #J <- 1 to 10 by 2`. A loop without a step leaves the last
part out. -/
def forHeader (statement : Statement) : String :=
  let step := fieldText statement .forStep
  fieldText statement .instruction ++ " " ++ fieldText statement .forControl ++ " &#60;- " ++
    fieldText statement .forFrom ++ " to " ++ fieldText statement .forTo ++
    (if step = "" then "" else " by " ++ step)

/-- The lines of a database statement: the statement itself, then its assignments, indented. -/
def databaseLines (statement : Statement) : List String :=
  statement.buffers.joined .instruction ::
    (statement.buffers.get .assignments).map ("  " ++ ·)

/-- The entries of a decision: what it selects on, then the condition of every arm. -/
def caseEntries (statement : Statement) : List String :=
  statement.buffers.joined .control :: statement.buffers.get .branches

def jumpColor (palette : Palette) : JumpScope → Color
  | .internal => palette.jump
  | .external => palette.externalJump

def loopColor (palette : Palette) : LoopSubject → Color
  | .conditional => palette.ordinary
  | .database => palette.database

def branchRows (name : String) (inner : List String) : List String :=
  wrapped "" name inner

/-- An alternative. Both arms have to be there, so an arm that no child of the body provides is
written empty: the true arm in front, the false arm at the end. -/
def alternativeRows (options : Options) (statement : Statement) (body : List StatementKind)
    (inner : List String) : List String :=
  let condition := "(" ++ statement.buffers.joined .instruction ++ ")"
  openTag "alternative" (elementAttributes (escape condition) "" options.palette.ordinary) ::
    (if body.contains .trueBranch then [] else branchRows "qTrue" []) ++ inner ++
    (if body.contains .falseBranch then [] else branchRows "qFalse" []) ++
    [closeTag "alternative"]

def statementRows (options : Options) (statement : Statement) (kinds : List StatementKind)
    (parts : List (List String)) : List String :=
  let palette := options.palette
  let text := fieldText statement .instruction
  let all := parts.flatten
  let body := (parts.drop statement.bodyStart).flatten
  match statement.kind with
  | .document => documentRows options all
  | .instruction => leafRows "instruction" text palette.ordinary
  | .call => leafRows "call" text palette.ordinary
  | .jump scope => leafRows "jump" text (jumpColor palette scope)
  | .database => leafRows "instruction" (commaText (databaseLines statement)) palette.database
  | .forLoop =>
    openTag "for" (elementAttributes (forHeader statement) "" palette.ordinary) ::
      wrapped "  " "qFor" body ++ [closeTag "for"]
  | .foreverLoop =>
    openTag "forever" [attr "comment" "", attr "color" palette.ordinary.hex] ::
      wrapped "  " "qForever" all ++ [closeTag "forever"]
  | .whileLoop subject =>
    openTag "while" (elementAttributes text "" (loopColor palette subject)) ::
      wrapped "  " "qWhile" body ++ [closeTag "while"]
  | .alternative =>
    alternativeRows options statement (kinds.drop statement.bodyStart) body
  | .trueBranch => branchRows "qTrue" all
  | .falseBranch => branchRows "qFalse" all
  | .caseHeader _ =>
    openTag "case" (elementAttributes (commaText (caseEntries statement))
        (fieldText statement .comments) palette.ordinary) ::
      body ++ [closeTag "case"]
  | .caseArm | .defaultArm => branchRows "qCase" all
  | .passThrough => all
  | .conditionGroup | .assignment | .silent | .token => []

mutual
def rows (options : Options) : Rose Statement → List String
  | .node statement trees =>
    statementRows options statement (trees.map (·.value.kind)) (rowsOfEach options trees)
def rowsOfEach (options : Options) : List (Rose Statement) → List (List String)
  | [] => []
  | tree :: trees => rows options tree :: rowsOfEach options trees
end

/-- The rows of a document, each with its line end. -/
def pieces (options : Options) (diagram : Diagram) : List String :=
  (rows options diagram.view).map (· ++ "\n")

def render (options : Options) (diagram : Diagram) : String :=
  String.join (pieces options diagram)

end NassiChart.Document
