import NassiChart.Convert
import NassiChart.Toml.Reader
import NassiChart.Files.Store
import NassiChart.Cli.Arguments

/-!
# Running the converter

`run` does what the arguments ask for: it loads the configuration and converts the standard input,
one file, or several files. Every input is converted on its own, so a failure does not stop the
others. It works on any `Host`; the store of files in memory is one.
-/

namespace NassiChart.Cli

open NassiChart.Files NassiChart.Config NassiChart.Document

/-- What the converter needs from its surroundings. -/
class Host (m : Type → Type) where
  hasPath : Path → m Bool
  read : Path → m (Except IoFailure String)
  write : Path → String → m (Except IoFailure Unit)
  makeDirectories : Path → m (Except IoFailure Unit)
  input : m (Except IoFailure String)
  print : String → m (Except IoFailure Unit)

/-- What is fixed for a run: where the user keeps configurations, and the day. -/
structure Surroundings where
  /-- Directory for the configurations of all programs, if one is set. -/
  configHome : Option Path
  home : Option Path
  today : Date

/-- The configuration file of the project, in the working directory. -/
def localConfig : Path := "structogram/config.toml"

/-- The configuration file of the user. A configuration directory that is not absolute is not
used. -/
def systemConfig? (surroundings : Surroundings) : Option Path :=
  match surroundings.configHome.filter Path.isAbsolute, surroundings.home with
  | some directory, _ => some (Path.join directory localConfig)
  | none, some home => some (Path.join (Path.join home ".config") localConfig)
  | none, none => none

section

variable {m : Type → Type} [Monad m] [Host m]

def loadFile (path : Path) : m (Except Failure Settings) := do
  match ← Host.read path with
  | .error cause => return .error (.io cause)
  | .ok text =>
    match (Toml.read? text).bind (Settings.ofValue? .allowed) with
    | some settings => return .ok settings
    | none => return .error (.config (.unreadable path))

/-- The settings: from the file that is asked for, which has to exist, or else from the project's
file, from the user's file, or none. -/
def loadSettings (surroundings : Surroundings) (config : Option Path) :
    m (Except Failure Settings) := do
  match config with
  | some path =>
    if ← Host.hasPath path then loadFile path
    else return .error (.config (.missingFile path))
  | none =>
    if ← Host.hasPath localConfig then loadFile localConfig
    else match systemConfig? surroundings with
      | none => return .ok {}
      | some path => if ← Host.hasPath path then loadFile path else return .ok {}

/-- The document options for a run. A name among the arguments comes before the configured one. -/
def loadOptions (surroundings : Surroundings) (arguments : Arguments) :
    m (Except Failure Options) := do
  match ← loadSettings surroundings arguments.config with
  | .error failure => return .error failure
  | .ok settings =>
    match settings.options surroundings.today with
    | .error invalid => return .error (.config (.invalidColor invalid))
    | .ok options =>
      return .ok { options with programName := arguments.name.getD options.programName }

def deliver (document : String) : Option Path → m (Except IoFailure Unit)
  | some path => Host.write path document
  | none => Host.print document

def convertText (options : Options) (output : Option Path) (read : Except IoFailure String) :
    m (Option Failure) := do
  match read with
  | .error cause => return some (.io cause)
  | .ok source =>
    match convert options source with
    | .error failure => return some failure
    | .ok document =>
      match ← deliver document output with
      | .error cause => return some (.io cause)
      | .ok () => return none

def convertInput (options : Options) (output : Option Path) : m (Option Failure) := do
  convertText options output (← Host.input)

def convertFile (options : Options) (output : Option Path) (input : Path) :
    m (Option Failure) := do
  convertText options output (← Host.read input)

def documentExtension : String := "nsd"

/-- The file for the document of an input, when there are several inputs: named after the input,
in the output directory, or beside the input if there is none. -/
def batchOutput (input : Path) (directory : Option Path) : Path :=
  let name := match Path.fileName? input with
    | some name => withExtension (stem name) documentExtension
    | none => input
  match directory with
  | some directory => Path.join directory name
  | none => Path.join (Path.parent input) name

def convertEach (options : Options) (directory : Option Path) :
    List Path → m (List Failure)
  | [] => return []
  | input :: inputs => do
    let failure ← convertFile options (some (batchOutput input directory)) input
    let failures ← convertEach options directory inputs
    return failure.toList ++ failures

def convertBatch (options : Options) (directory : Option Path) (inputs : List Path) :
    m (List Failure) := do
  match directory with
  | none => convertEach options none inputs
  | some path =>
    match ← Host.makeDirectories path with
    | .error cause => return [.io cause]
    | .ok () => convertEach options (some path) inputs

/-- Do what the arguments ask for. The result holds all failures: a failure of the configuration
stops the run before anything is converted, otherwise there is one for each input that failed. -/
def run (surroundings : Surroundings) (arguments : Arguments) : m (List Failure) := do
  match ← loadOptions surroundings arguments with
  | .error failure => return [failure]
  | .ok options =>
    match arguments.inputs with
    | [] => return (← convertInput options arguments.output).toList
    | [input] => return (← convertFile options arguments.output input).toList
    | inputs => convertBatch options arguments.output inputs

end

end NassiChart.Cli
