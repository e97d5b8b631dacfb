import NassiChart.Grammar.Tree
import NassiChart.Export.Diagnostic

/-!
# Reading an export

`parse` reads a whole export, `parseLines` the lines of a tree section alone. Both stop at the
first fault. The reader keeps a cursor into the tree: an expression becomes the cursor once it is
inserted, a terminal leaves the cursor at its parent, and each line is inserted relative to it.
-/

namespace NassiChart.Export

open NassiChart.Grammar

/-- The structural faults, each with the lines that show it. -/
inductive Fault where
  | noTree
  /-- A line has no separator after its level markers. -/
  | noSeparator (line : Span)
  | indentedRoot (line : Span) (level : Nat)
  | terminalRoot (line : Span)
  /-- A later line is no deeper than the root. -/
  | secondRoot (line : Span) (level : Nat) (root : Span)
  deriving DecidableEq, Repr

def Fault.diagnostic : Fault → Diagnostic
  | .noTree =>
    { message := "no parse tree found"
      code := some .missingTree
      labels := []
      help := some "the tree follows the header block after the first blank line" }
  | .noSeparator line =>
    { message := "line is missing the `+--` separator"
      code := some .malformedLine
      labels := [⟨line, "expected level markers followed by `+--`", true⟩]
      help := some "every tree line has the form `|  |  +--<text>`" }
  | .indentedRoot line level =>
    { message := "parse tree root is not at level 0"
      code := some .rootIndented
      labels := [⟨line, s!"found at level {level}", true⟩]
      help := some "the first tree line must start with `+--`" }
  | .terminalRoot line =>
    { message := "parse tree root is not an expression"
      code := some .rootNotExpression
      labels := [⟨line, "found a terminal", true⟩]
      help := some "the root line must name a production such as `<program>`" }
  | .secondRoot line level root =>
    { message := "parse tree has more than one root"
      code := some .secondRoot
      labels := [⟨line, s!"node at level {level} has no parent", true⟩,
        ⟨root, "tree root is here", false⟩]
      help := some "every line after the root must be nested below it" }

/-- A line taken apart, or the fault of a line without a separator. -/
def readLine (line : Line) : Except Fault TreeLine :=
  match TreeLine.ofLine? line with
  | some treeLine => .ok treeLine
  | none => .error (.noSeparator line.span)

def TreeLine.node (line : TreeLine) : Node :=
  Node.classify line.level line.text

/-- Where the line after node `id` is inserted: at the node itself if it is an expression,
otherwise at its parent. -/
def nextCursor (tree : Tree) (id : NodeId) : NodeId :=
  if (tree.node? id).any (·.isExpression) then id else (tree.parent? id).getD id

def readNodes (root : Span) : List Line → (cursor : NodeId) → Tree → Except Fault Tree
  | [], _, tree => .ok tree
  | line :: lines, cursor, tree =>
    match readLine line with
    | .error fault => .error fault
    | .ok treeLine =>
      match tree.insert cursor treeLine.node with
      | .error _ => .error (.secondRoot treeLine.span treeLine.level root)
      | .ok none => readNodes root lines cursor tree
      | .ok (some (id, grown)) => readNodes root lines (nextCursor grown id) grown

def readTree : List Line → Except Fault Tree
  | [] => .error .noTree
  | first :: lines =>
    match readLine first with
    | .error fault => .error fault
    | .ok root =>
      if root.level ≠ 0 then .error (.indentedRoot root.span root.level)
      else if root.node.isExpression then
        readNodes root.span lines 0 (Tree.singleton root.node)
      else .error (.terminalRoot root.span)

/-- The tree, or the fault as an error of one diagnostic. -/
def reported (result : Except Fault Tree) : Except ParseError Tree :=
  result.mapError fun fault => ⟨[fault.diagnostic]⟩

def parse (source : String) : Except ParseError Tree :=
  reported (readTree (treeSection (sourceLines source)))

/-- Read the lines of a tree section, up to the first blank one. Offsets count the lines as if a
single byte stood between one and the next. -/
def parseLines (lines : List String) : Except ParseError Tree :=
  reported (readTree ((Line.layOut 1 0 (lines.map String.toList)).takeWhile (!·.isBlank)))

end NassiChart.Export
