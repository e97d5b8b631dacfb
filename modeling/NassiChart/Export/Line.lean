import NassiChart.Text

/-!
# Lines of an export

An export starts with a header that ends at the first blank line. The tree section follows, one
node a line, up to the next blank line or the end of the text. A tree line is a run of level
markers, the separator `+--`, and the text of the node:

    +--<program> ::= <statement_list>
    |  +--<MOVE> ::= MOVE <operand> TO <operand>
    |  |  +--MOVE

A line keeps the range of bytes that it takes. A `Span` never runs backwards: a range that is given
an end before its start is empty.
-/

namespace NassiChart.Export

open NassiChart.Text

/-- A range of bytes, from `start` up to but not including `stop`. -/
structure Span where
  start : Nat
  stop : Nat
  start_le_stop : start ≤ stop := by omega
  deriving DecidableEq, Repr

namespace Span

/-- The range from `start` to `stop`, empty if `stop` comes first. -/
def between (start stop : Nat) : Span where
  start := start
  stop := max stop start

def length (span : Span) : Nat :=
  span.stop - span.start

def isEmpty (span : Span) : Bool :=
  span.start == span.stop

def union (a b : Span) : Span :=
  between (min a.start b.start) (max a.stop b.stop)

/-- The range as text, `start..stop`. -/
def display (span : Span) : String :=
  s!"{span.start}..{span.stop}"

end Span

/-- A line without its terminator, and the bytes of the source that it takes. -/
structure Line where
  chars : List Char
  span : Span
  deriving DecidableEq, Repr

namespace Line

def isTerminator (c : Char) : Bool :=
  c == '\r' || c == '\n'

/-- The line that starts at byte `offset`. All terminators at its end are dropped. -/
def ofRaw (raw : List Char) (offset : Nat) : Line :=
  let chars := dropEndWhile isTerminator raw
  ⟨chars, Span.between offset (offset + byteLength chars)⟩

def isBlank (line : Line) : Bool :=
  Text.isBlank line.chars

/-- The lines with these raw texts, the first at byte `offset`, with `gap` bytes between one and
the next that belong to neither. -/
def layOut (gap : Nat) : (offset : Nat) → List (List Char) → List Line
  | _, [] => []
  | offset, raw :: raws => ofRaw raw offset :: layOut gap (offset + byteLength raw + gap) raws

end Line

/-- Puts a character in front of a text that is cut after every line feed. -/
def consRaw (c : Char) (raws : List (List Char)) : List (List Char) :=
  if c = '\n' then [c] :: raws
  else match raws with
    | [] => [[c]]
    | raw :: rest => (c :: raw) :: rest

/-- The text cut after every line feed, which stays with the line that it ends. -/
def rawLines (source : List Char) : List (List Char) :=
  source.foldr consRaw []

def sourceLines (source : String) : List Line :=
  Line.layOut 0 0 (rawLines source.toList)

/-- The lines after the first blank line, up to the next one. -/
def treeSection (lines : List Line) : List Line :=
  ((lines.dropWhile (!·.isBlank)).drop 1).takeWhile (!·.isBlank)

structure TreeLine where
  level : Nat
  text : String
  span : Span
  deriving DecidableEq, Repr

/-- Level markers are bars, padded with spaces or tabs. -/
def isMarker (c : Char) : Bool :=
  c == '|' || c == ' ' || c == '\t'

/-- Take a line apart at its separator. `none` if anything but level markers comes before it. -/
def TreeLine.ofLine? (line : Line) : Option TreeLine :=
  match line.chars.dropWhile isMarker with
  | '+' :: '-' :: '-' :: rest =>
    some ⟨(line.chars.takeWhile isMarker).count '|', String.ofList (trim rest), line.span⟩
  | _ => none

example : (TreeLine.ofLine? (Line.ofRaw "|  |\t+-- MOVE ".toList 7)).map
    (fun line => (line.level, line.text)) = some (2, "MOVE") := by decide

example : TreeLine.ofLine? (Line.ofRaw "|  MOVE".toList 0) = none := by decide

end NassiChart.Export
