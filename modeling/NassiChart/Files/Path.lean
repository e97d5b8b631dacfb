/-!
# Paths

A path is a text whose names are separated by slashes. Empty names do not count, and `.` counts
only where a directory is looked up. The last name of a path is its file name, unless it is `..`;
the part of a file name in front of its last dot is its stem.
-/

namespace NassiChart.Files

abbrev Path := String

/-- Puts a character in front of a text that is cut at every slash. -/
def consName (c : Char) (names : List (List Char)) : List (List Char) :=
  if c = '/' then [] :: names
  else match names with
    | [] => [[c]]
    | name :: rest => (c :: name) :: rest

def cutAtSlashes (cs : List Char) : List (List Char) :=
  cs.foldr consName [[]]

namespace Path

def names (path : Path) : List String :=
  ((cutAtSlashes path.toList).filter (!·.isEmpty)).map String.ofList

def isAbsolute (path : Path) : Bool :=
  path.toList.head? == some '/'

/-- The path ends with a slash, so it can only be a directory. -/
def endsInSlash (path : Path) : Bool :=
  path.toList.getLast? == some '/'

/-- The names that move: all but `.`. -/
def moves (path : Path) : List String :=
  (names path).filter (· != ".")

/-- The last name of a path, unless it is `..`. -/
def fileName? (path : Path) : Option String :=
  match (moves path).getLast? with
  | some ".." | none => none
  | some name => some name

/-- `name` below the directory `path`. An absolute name stands for itself. -/
def join (path name : Path) : Path :=
  if isAbsolute name || path == "" then name
  else if endsInSlash path then path ++ name
  else path ++ "/" ++ name

/-- The directory that a path with a file name lies in. -/
def parent (path : Path) : Path :=
  let above := "/".intercalate ((names path).takeWhile (· == ".") ++ (moves path).dropLast)
  if isAbsolute path then "/" ++ above else above

end Path

/-- A file name cut at its last dot: its stem, and its extension. A name without a dot, or with no
other dot than one in front, is all stem. -/
def cutAtLastDot (name : List Char) : List Char × Option (List Char) :=
  match name.reverse.span (· != '.') with
  | (_, []) => (name, none)
  | (_, [_]) => (name, none)
  | (after, _ :: before) => (before.reverse, some after.reverse)

def stem (name : String) : String :=
  String.ofList (cutAtLastDot name.toList).1

/-- A file name with another extension in place of its own, if it has one. `.` and `..`, and what
is left of a name that starts with one of them and a dot, are no file names and stay. -/
def withExtension (name extension : String) : String :=
  let base := match cutAtLastDot name.toList with
    | (_, none) => name.toList
    | (before, some _) => before ++ ['.']
  if base = [] ∨ base = ['.'] ∨ base = ['.', '.'] then String.ofList base
  else String.ofList ((cutAtLastDot base).1 ++ '.' :: extension.toList)

example : stem "a.b.txt" = "a.b" ∧ stem ".profile" = ".profile" := by decide
example : withExtension "a.b" "nsd" = "a.nsd" ∧ withExtension "a" "nsd" = "a.nsd" := by decide

end NassiChart.Files
