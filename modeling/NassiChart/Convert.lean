import NassiChart.Export.Reader
import NassiChart.Diagram.Fill
import NassiChart.Document.Writing

/-!
# Conversion

From an export to a document in three steps: the export is read into a grammar tree, the tree is
made into a diagram, and the diagram is rendered.
-/

namespace NassiChart

open NassiChart.Document

def convert (options : Options) (source : String) : Except Failure String :=
  match Export.parse source with
  | .error error => .error (.parse error source)
  | .ok tree => .ok (render options (Diagram.build tree))

theorem convert_of_parse {options : Options} {source : String} {tree : Grammar.Tree}
    (parsed : Export.parse source = .ok tree) :
    convert options source = .ok (render options (Diagram.build tree)) := by
  rw [convert, parsed]

def renderInto (options : Options) (diagram : Diagram) (sink : Sink) :
    Except Failure Unit × Sink :=
  match (write options diagram).run sink with
  | (.ok (), sink) => (.ok (), sink)
  | (.error cause, sink) => (.error (.io cause), sink)

/-- Convert an export and write the document into a sink. Nothing is written if the export cannot
be read. -/
def convertInto (options : Options) (source : String) (sink : Sink) :
    Except Failure Unit × Sink :=
  match Export.parse source with
  | .error error => (.error (.parse error source), sink)
  | .ok tree => renderInto options (Diagram.build tree) sink

theorem convertInto_of_parse (options : Options) {source : String} {tree : Grammar.Tree}
    (parsed : Export.parse source = .ok tree) (sink : Sink) :
    convertInto options source sink = renderInto options (Diagram.build tree) sink := by
  rw [convertInto, parsed]

end NassiChart
