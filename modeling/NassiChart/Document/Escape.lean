/-!
# Text of an attribute

Text inside a double-quoted attribute. The four characters that would end the value, open a tag or
start a reference are written as references; all others stand for themselves.

Comma text is several lines in one attribute value. Every line is put between `&#34;`, quotes inside
a line are doubled, and the lines are separated by commas. The quotes are written as references,
since the whole stands in a double-quoted attribute.
-/

namespace NassiChart.Document

/-- The character has to be written as a reference. -/
def isReserved (c : Char) : Bool :=
  c == '&' || c == '<' || c == '>' || c == '"'

def escapeChar (c : Char) : List Char :=
  match c with
  | '&' => "&amp;".toList
  | '<' => "&lt;".toList
  | '>' => "&gt;".toList
  | '"' => "&quot;".toList
  | c => [c]

def escapeChars (cs : List Char) : List Char :=
  cs.flatMap escapeChar

def isPlain (text : String) : Bool :=
  !text.toList.any isReserved

/-- A text that was made from another one. -/
inductive Rewritten where
  /-- The text that was given, which nothing had to be changed in. -/
  | shared (text : String)
  | fresh (text : String)
  deriving DecidableEq, Repr

def Rewritten.text : Rewritten → String
  | .shared text => text
  | .fresh text => text

/-- How a text is written in an attribute. No new text is made of a plain one. -/
def escaping (text : String) : Rewritten :=
  if isPlain text then .shared text else .fresh (String.ofList (escapeChars text.toList))

def escape (text : String) : String :=
  (escaping text).text

example : escape "#A < \"5\"" = "#A &lt; &quot;5&quot;" := by decide

def quoteRef : List Char := "&#34;".toList

def quotedChar (c : Char) : List Char :=
  match c with
  | '&' => "&amp;".toList
  | '<' => "&lt;".toList
  | '>' => "&gt;".toList
  | '"' => quoteRef ++ quoteRef
  | c => [c]

def quotedLine (line : List Char) : List Char :=
  quoteRef ++ line.flatMap quotedChar ++ quoteRef

def commaText (lines : List String) : String :=
  String.ofList ([','].intercalate (lines.map fun line => quotedLine line.toList))

example : commaText ["GET", "X := \"1\""] =
    "&#34;GET&#34;,&#34;X := &#34;&#34;1&#34;&#34;&#34;" := by decide

example : commaText [] = "" ∧ commaText [""] = "&#34;&#34;" := by decide

end NassiChart.Document
