import NassiChart.Config.Settings
import NassiChart.Export.Diagnostic

/-!
# Failures

All that can go wrong in a conversion, by cause, with the wording in one place.
-/

namespace NassiChart

open NassiChart.Export NassiChart.Config

inductive IoFailure where
  | notFound
  | alreadyExists
  | notDirectory
  | isDirectory
  | invalidText
  /-- A writer that takes no more bytes. -/
  | writerFull
  /-- Any other cause, in the words of the system. -/
  | other (message : String)
  deriving DecidableEq, Repr

def IoFailure.message : IoFailure → String
  | notFound => "No such file or directory (os error 2)"
  | alreadyExists => "File exists (os error 17)"
  | notDirectory => "Not a directory (os error 20)"
  | isDirectory => "Is a directory (os error 21)"
  | invalidText => "stream did not contain valid UTF-8"
  | writerFull => "failed to write whole buffer"
  | other message => message

inductive ConfigFailure where
  | invalidColor (invalid : InvalidColor)
  | missingFile (path : String)
  /-- The file holds no configuration. -/
  | unreadable (path : String)
  deriving DecidableEq, Repr

namespace ConfigFailure

/-- What is said about a file that holds no configuration, in front of the reason. -/
def unreadableHead (path : String) : String :=
  "Failed to parse TOML configuration in " ++ path ++ ":"

def message : ConfigFailure → String
  | invalidColor invalid => invalid.message
  | missingFile path => "Missing configuration file: " ++ path
  | unreadable path => unreadableHead path ++ " not a valid configuration"

end ConfigFailure

inductive Failure where
  | io (cause : IoFailure)
  /-- The export cannot be read. Its text is kept for the labels. -/
  | parse (error : ParseError) (source : String)
  | config (cause : ConfigFailure)
  deriving DecidableEq, Repr

def Failure.message : Failure → String
  | io cause => "I/O error: " ++ cause.message
  | parse error _ => error.display
  | config cause => "Configuration error: " ++ cause.message

end NassiChart
