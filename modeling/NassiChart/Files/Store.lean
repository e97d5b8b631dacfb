import NassiChart.Failure
import NassiChart.Files.Path

/-!
# A file system

A small model of a file system: directories and files by their absolute place, and a working
directory. It has what a converter needs: to look whether something exists, to read and to write a
file as a whole, and to make directories. The failures are those of a POSIX system without links.
-/

namespace NassiChart.Files

abbrev Place := List String

inductive Entry where
  | directory
  | file (content : List UInt8)
  deriving DecidableEq

/-- The places that are taken, and the working directory. The root is always a directory. -/
structure Store where
  entries : List (Place × Entry)
  workplace : Place

inductive Target where
  | directory (place : Place)
  | file (place : Place) (content : List UInt8)
  /-- Nothing is there, in a directory that exists. -/
  | vacant (place : Place)

def decode (content : List UInt8) : Except IoFailure String :=
  match Text.ofBytes? content with
  | some text => .ok text
  | none => .error .invalidText

namespace Store

def entry? (store : Store) (place : Place) : Option Entry :=
  if place = [] then some .directory else store.entries.lookup place

def put (store : Store) (place : Place) (entry : Entry) : Store :=
  if (store.entries.lookup place).isSome then
    { store with entries := store.entries.map fun old =>
        if old.1 = place then (place, entry) else old }
  else { store with entries := store.entries ++ [(place, entry)] }

def follow (store : Store) : (directory : Place) → List String → Except IoFailure Target
  | place, [] => .ok (.directory place)
  | place, name :: names =>
    if name = "." then follow store place names
    else if name = ".." then follow store place.dropLast names
    else
      let next := place ++ [name]
      match store.entry? next with
      | some .directory => follow store next names
      | some (.file content) =>
        if names = [] then .ok (.file next content) else .error .notDirectory
      | none => if names = [] then .ok (.vacant next) else .error .notFound

def start (store : Store) (path : Path) : Place :=
  if Path.isAbsolute path then [] else store.workplace

/-- Follow a path. One that ends with a slash does not lead to a file. -/
def resolve (store : Store) (path : Path) : Except IoFailure Target := do
  match ← store.follow (store.start path) (Path.names path) with
  | .file place content =>
    if Path.endsInSlash path then .error .notDirectory else .ok (.file place content)
  | target => .ok target

def hasPath (store : Store) (path : Path) : Bool :=
  match store.resolve path with
  | .ok (.directory _) | .ok (.file _ _) => true
  | _ => false

def read (store : Store) (path : Path) : Except IoFailure String := do
  match ← store.resolve path with
  | .file _ content => decode content
  | .directory _ => .error .isDirectory
  | .vacant _ => .error .notFound

def writable (store : Store) (path : Path) : Except IoFailure Place := do
  match ← store.follow (store.start path) (Path.names path) with
  | .directory _ => .error .isDirectory
  | .file place _ | .vacant place =>
    if Path.endsInSlash path then .error .isDirectory else .ok place

def write (store : Store) (path : Path) (text : String) : Except IoFailure Store := do
  return store.put (← store.writable path) (.file (Text.bytes text))

/-- Make the directory at the end of a path whose other directories are there. -/
def makeDirectory (store : Store) (start : Place) (names : List String) :
    Except IoFailure Store := do
  match names.getLast? with
  | none => .error .alreadyExists
  | some last =>
    match ← store.follow start names.dropLast with
    | .vacant _ => .error .notFound
    | .file _ _ => .error .notDirectory
    | .directory place =>
      if last = "." ∨ last = ".." then .error .alreadyExists
      else
        match store.entry? (place ++ [last]) with
        | some _ => .error .alreadyExists
        | none => .ok (store.put (place ++ [last]) .directory)

def leadsToDirectory (store : Store) (start : Place) (names : List String) : Bool :=
  match store.follow start names with
  | .ok (.directory _) => true
  | _ => false

/-- Make a directory unless it is there, after making those of `above`, nearest first, that it
needs. What was made stays, also after a failure. -/
def makeDirectoriesFrom (start : Place) :
    (above : List (List String)) → (names : List String) → Store → Except IoFailure Unit × Store
  | above, names, store =>
    match store.makeDirectory start names with
    | .ok store => (.ok (), store)
    | .error .notFound =>
      let (result, store) : Except IoFailure Unit × Store :=
        match above with
        | [] => (.ok (), store)
        | next :: rest => makeDirectoriesFrom start rest next store
      match result with
      | .error cause => (.error cause, store)
      | .ok () =>
        match store.makeDirectory start names with
        | .ok store => (.ok (), store)
        | .error cause =>
          if store.leadsToDirectory start names then (.ok (), store) else (.error cause, store)
    | .error cause =>
      if store.leadsToDirectory start names then (.ok (), store) else (.error cause, store)
  termination_by structural above => above

/-- The proper beginnings of a list, longest first. -/
def beginnings (names : List String) : List (List String) :=
  ((List.range (names.length - 1)).map fun n => names.take (n + 1)).reverse

def makeDirectories (store : Store) (path : Path) : Except IoFailure Unit × Store :=
  makeDirectoriesFrom (store.start path) (beginnings (Path.moves path)) (Path.names path) store

end Store

end NassiChart.Files
