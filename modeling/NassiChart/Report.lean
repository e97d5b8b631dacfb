import NassiChart.Failure

/-!
# Reports

How a failure is presented to a user. An export that cannot be read gives one report for each
diagnostic, every other failure a single one.
-/

namespace NassiChart

open NassiChart.Export

/-- A remark on a part of the source, given by its first byte and its number of bytes. -/
structure ReportLabel where
  label : String
  offset : Nat
  length : Nat
  primary : Bool
  deriving DecidableEq, Repr

structure Report where
  message : String
  code : Option String
  help : Option String
  /-- The source, where the labels point into one. -/
  source : Option String
  /-- The cause behind the failure, in its own words. -/
  cause : Option String
  labels : List ReportLabel
  deriving DecidableEq, Repr

def ReportLabel.ofLabel (label : SourceLabel) : ReportLabel :=
  ⟨label.message, label.span.start, label.span.length, label.primary⟩

def Report.ofDiagnostic (source : String) (diagnostic : Diagnostic) : Report where
  message := diagnostic.message
  code := diagnostic.code.map ErrorCode.text
  help := diagnostic.help
  source := some source
  cause := none
  labels := diagnostic.labels.map ReportLabel.ofLabel

def ReportLabel.text (label : ReportLabel) : String :=
  s!"  at byte {label.offset}, {label.length} long: {label.label}"

/-- The report as lines of text: the message with its code, the labels, and the hint. -/
def Report.text (report : Report) : String :=
  let head := match report.code with
    | some code => s!"error[{code}]: {report.message}"
    | none => s!"error: {report.message}"
  "\n".intercalate (head :: report.labels.map ReportLabel.text ++
    report.help.toList.map ("  help: " ++ ·))

def Failure.reports (failure : Failure) : List Report :=
  match failure with
  | .parse error source => error.diagnostics.map (Report.ofDiagnostic source)
  | .io cause =>
    [{ message := failure.message, code := some "structogram::io", help := none, source := none
       cause := some cause.message, labels := [] }]
  | .config _ =>
    [{ message := failure.message, code := some "structogram::config"
       help := some "check the [document] and [style] sections of the configuration file"
       source := none, cause := none, labels := [] }]

end NassiChart
