import Std.Time
import NassiChart.Cli.Run
import NassiChart.Report

/-!
# The program

The command line of the converter, on the files of the machine. Reports go to the standard error.
The exit code is `0` if everything was converted, `1` after a failure, and `2` if the arguments
make no run.
-/

namespace NassiChart.Cli

open NassiChart.Files NassiChart.Document

def causeOf : IO.Error → IoFailure
  | .noFileOrDirectory _ _ _ => .notFound
  | .alreadyExists _ _ _ => .alreadyExists
  | .inappropriateType _ 20 _ => .notDirectory
  | .inappropriateType _ 21 _ => .isDirectory
  | error => .other (toString error)

def attempt {α : Type} (action : IO α) : IO (Except IoFailure α) := do
  try return .ok (← action)
  catch error => return .error (causeOf error)

partial def allBytes (stream : IO.FS.Stream) (read : ByteArray) : IO ByteArray := do
  let more ← stream.read 65536
  if more.isEmpty then return read else allBytes stream (read ++ more)

instance : Host IO where
  hasPath path := do
    match ← attempt (IO.FS.Handle.mk path .read) with
    | .ok _ | .error (.other _) => return true
    | .error _ => return false
  read path := do
    return (← attempt (IO.FS.readBinFile path)).bind fun content => decode content.data.toList
  write path text := attempt (IO.FS.writeFile path text)
  makeDirectories path := attempt (IO.FS.createDirAll path)
  input := do
    return (← attempt (do allBytes (← IO.getStdin) .empty)).bind fun content =>
      decode content.data.toList
  print text := attempt (IO.print text)

def today : IO Date := do
  let date := Std.Time.PlainDate.ofEpochDay (← Std.Time.Timestamp.now).toDaysSinceUnixEpoch
  return ⟨date.year.toInt, date.month.toNat, date.day.toNat⟩

/-- The surroundings of the process. Variables that are set to nothing count as not set. -/
def surroundings : IO Surroundings := do
  let nonempty := fun name => return (← IO.getEnv name).filter (!·.isEmpty)
  return { configHome := ← nonempty "XDG_CONFIG_HOME", home := ← nonempty "HOME",
           today := ← today }

def runAndReport (arguments : Arguments) : IO UInt32 := do
  let failures ← run (← surroundings) arguments
  if arguments.logLevel.toLower ≠ "off" then
    for report in failures.flatMap Failure.reports do
      IO.eprintln report.text
  return if failures.isEmpty then 0 else 1

end NassiChart.Cli

open NassiChart.Cli in
def main (argv : List String) : IO UInt32 := do
  match Arguments.parse argv with
  | .ok arguments => runAndReport arguments
  | .error .displayHelp => do IO.print usage; return 0
  | .error .displayVersion => do IO.println version; return 0
  | .error error => do
    IO.eprintln ("error: " ++ error.message)
    IO.eprint usage
    return 2
