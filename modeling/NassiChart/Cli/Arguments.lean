/-!
# Command-line arguments

`Arguments.parse` reads the arguments of the program. An option that takes a value gets it from
the same argument (`--name=X`, `-oX`, `-o=X`) or from the next one, unless that starts with a dash
and is more than a dash. Arguments that are no options are inputs; after `--` all are.

A value is checked when the argument after it is taken up, so a fault of an earlier argument can
come after that of an unknown option behind it. `Pending` holds what is not checked yet.
-/

namespace NassiChart.Cli

structure Arguments where
  inputs : List String := []
  /-- The file to write, or the directory when there are several inputs. -/
  output : Option String := none
  config : Option String := none
  name : Option String := none
  logLevel : String := "info"
  deriving DecidableEq, Repr

inductive UsageError where
  | unknownArgument
  | invalidValue
  | argumentConflict
  | tooManyValues
  | displayHelp
  | displayVersion
  deriving DecidableEq, Repr

def UsageError.message : UsageError → String
  | unknownArgument => "unknown option"
  | invalidValue => "a value is missing or empty"
  | argumentConflict => "an option is given more than once"
  | tooManyValues => "an option that takes no value has one"
  | displayHelp => "help is asked for"
  | displayVersion => "the version is asked for"

def version : String := "nassichart 0.1.0"

def usage : String :=
  "Usage: nassichart [OPTIONS] [INPUTS]...\n\n" ++
  "Converts parse tree exports to Nassi-Shneiderman diagrams. Without inputs the standard\n" ++
  "input is converted.\n\n" ++
  "  -o, --output <PATH>      output file, or directory when there are several inputs\n" ++
  "  -c, --config <PATH>      configuration file (TOML)\n" ++
  "      --name <NAME>        title of the diagram\n" ++
  "      --log-level <LEVEL>  off, error, warn, info, debug or trace\n" ++
  "  -h, --help               print this text\n" ++
  "  -V, --version            print the version\n"

inductive ValueOption where
  | output
  | config
  | name
  | logLevel
  deriving DecidableEq, Repr

inductive AnyOption where
  | value (option : ValueOption)
  | help
  | version

def AnyOption.ofLong? : List Char → Option AnyOption := fun name =>
  [("output", AnyOption.value .output), ("config", .value .config), ("name", .value .name),
   ("log-level", .value .logLevel), ("help", .help), ("version", .version)].lookup
    (String.ofList name)

def AnyOption.ofShort? : Char → Option AnyOption
  | 'o' => some (.value .output)
  | 'c' => some (.value .config)
  | 'h' => some .help
  | 'V' => some .version
  | _ => none

/-- The value of the option is a path, which is never empty. -/
def ValueOption.isPath : ValueOption → Bool
  | output | config => true
  | name | logLevel => false

def Arguments.set (arguments : Arguments) (value : String) : ValueOption → Arguments
  | .output => { arguments with output := some value }
  | .config => { arguments with config := some value }
  | .name => { arguments with name := some value }
  | .logLevel => { arguments with logLevel := value }

inductive Pending where
  | nothing
  /-- An option, with its value if that has come. -/
  | option (option : ValueOption) (value : Option String)
  | inputs (values : List String)
  deriving DecidableEq, Repr

structure Reading where
  arguments : Arguments := {}
  /-- The options that have a value already. -/
  given : List ValueOption := []
  pending : Pending := .nothing

namespace Reading

/-- Give an option its value. An option is given once at most, and no path is empty. -/
def give (reading : Reading) (option : ValueOption) (value : String) :
    Except UsageError Reading :=
  if reading.given.contains option then .error .argumentConflict
  else if option.isPath && value == "" then .error .invalidValue
  else .ok { reading with
    arguments := reading.arguments.set value option, given := option :: reading.given }

def settle (reading : Reading) : Except UsageError Reading :=
  let settled := { reading with pending := .nothing }
  match reading.pending with
  | .nothing => .ok settled
  | .option _ none => .error .invalidValue
  | .option option (some value) => settled.give option value
  | .inputs values =>
    if values.contains "" then .error .invalidValue
    else .ok { settled with
      arguments := { settled.arguments with inputs := settled.arguments.inputs ++ values } }

def addInput (reading : Reading) (value : String) : Except UsageError Reading :=
  match reading.pending with
  | .inputs values => .ok { reading with pending := .inputs (values ++ [value]) }
  | _ => do return { ← reading.settle with pending := .inputs [value] }

/-- Take up an option, with the value in its own argument if there is one. -/
def addOption (reading : Reading) (option : ValueOption) (value : Option String) :
    Except UsageError Reading := do
  let settled ← reading.settle
  match value with
  | some value => settled.give option value
  | none => return { settled with pending := .option option none }

def display (reading : Reading) (request : UsageError) : Except UsageError Reading := do
  let _ ← reading.settle
  throw request

/-- Take up an argument that starts with two dashes, without those. -/
def addLong (reading : Reading) (text : List Char) : Except UsageError Reading :=
  let value := match text.dropWhile (· != '=') with
    | [] => none
    | _ :: value => some (String.ofList value)
  match AnyOption.ofLong? (text.takeWhile (· != '=')), value with
  | none, _ => .error .unknownArgument
  | some (.value option), value => reading.addOption option value
  | some .help, none => reading.display .displayHelp
  | some .version, none => reading.display .displayVersion
  | some _, some _ => .error .tooManyValues

/-- Take up an argument that starts with one dash, without that. -/
def addShort (reading : Reading) (name : Char) (rest : List Char) : Except UsageError Reading :=
  match AnyOption.ofShort? name with
  | none => .error .unknownArgument
  | some .help => reading.display .displayHelp
  | some .version => reading.display .displayVersion
  | some (.value option) =>
    match rest with
    | [] => reading.addOption option none
    | '=' :: value => reading.addOption option (some (String.ofList value))
    | value => reading.addOption option (some (String.ofList value))

/-- Take up an argument that is no option: the value of the option in front of it, or an input. -/
def addPlain (reading : Reading) (value : String) : Except UsageError Reading :=
  match reading.pending with
  | .option option none => .ok { reading with pending := .option option (some value) }
  | _ => reading.addInput value

def add (reading : Reading) (argument : String) : Except UsageError Reading :=
  match argument.toList with
  | '-' :: '-' :: text => reading.addLong text
  | '-' :: name :: rest => reading.addShort name rest
  | _ => reading.addPlain argument

end Reading

/-- Take up arguments until `--`, and those behind it as inputs. -/
def readArguments : List String → Reading → Except UsageError Reading
  | [], reading => .ok reading
  | argument :: rest, reading =>
    if argument = "--" then rest.foldlM Reading.addInput reading
    else do readArguments rest (← reading.add argument)

def Arguments.parse (argv : List String) : Except UsageError Arguments := do
  let reading ← readArguments argv {}
  return (← reading.settle).arguments

end NassiChart.Cli
