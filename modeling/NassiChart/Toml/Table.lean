import NassiChart.Config.Settings

/-!
# Tables of a TOML text

How the parts of a TOML text are put together. A table can be written in several places, but each
part only once: what may still be added to a table depends on how it came about (`TableForm`).
-/

namespace NassiChart.Toml

inductive TableForm where
  /-- As a part of the name of a deeper table. It may still get a header of its own. -/
  | implied
  | dotted
  | header
  /-- Between braces. Nothing can be added to it. -/
  | inline
  deriving DecidableEq, Repr

inductive Item where
  | text (text : String)
  | scalar
  /-- Written as a number, but none. -/
  | brokenNumber
  | date
  | array (items : List Item)
  | table (form : TableForm) (entries : List (String × Item))
  /-- An array of tables, each written under a header of its own. -/
  | rows (rows : List (List (String × Item)))

/-- Names with their values, in the order of writing. -/
abbrev Entries := List (String × Item)

/-- The entries with `item` in place of the value of `key`. -/
def Entries.replace (entries : Entries) (key : String) (item : Item) : Entries :=
  entries.map fun entry => if entry.1 = key then (key, item) else entry

/-- Change the table at a path, making the tables on the way that are missing. Headers (`dotted` is
false) go through every table but those between braces, and through the last row of an array of
tables. Dotted keys do not go through tables that have a header. They define the tables that they
go through, so an implied one does not get a header of its own any more. A row has a header, so they
may go through it but do not end in it. -/
def descend (dotted : Bool) (change : Entries → Option Entries) :
    List String → Entries → Option Entries
  | [], entries => change entries
  | key :: path, entries =>
    match entries.lookup key with
    | none => do
      let inner ← descend dotted change path []
      return entries ++ [(key, .table (if dotted then .dotted else .implied) inner)]
    | some (.table form inner) =>
      if form = .inline ∨ (dotted = true ∧ form = .header) then none
      else do
        let inner ← descend dotted change path inner
        return entries.replace key (.table (if dotted then .dotted else form) inner)
    | some (.rows rows) =>
      if dotted = true ∧ path = [] then none
      else match rows.getLast? with
      | none => none
      | some last => do
        let last ← descend dotted change path last
        return entries.replace key (.rows (rows.dropLast ++ [last]))
    | some _ => none

def addEntry (key : String) (item : Item) (entries : Entries) : Option Entries :=
  match entries.lookup key with
  | none => some (entries ++ [(key, item)])
  | some _ => none

def assign (entries : Entries) (key : List String × Item) : Option Entries :=
  match key.1.getLast? with
  | none => none
  | some last => descend true (addEntry last key.2) key.1.dropLast entries

/-- Put values under dotted keys, one after the other. -/
def assignAll (keys : List (List String × Item)) (entries : Entries) : Option Entries :=
  keys.foldlM assign entries

inductive Header where
  | table (path : List String)
  | row (path : List String)

structure Section where
  header : Header
  keys : List (List String × Item)

def addTable (key : String) (keys : List (List String × Item)) (entries : Entries) :
    Option Entries :=
  match entries.lookup key with
  | none => do return entries ++ [(key, .table .header (← assignAll keys []))]
  | some (.table .implied inner) => do
    return entries.replace key (.table .header (← assignAll keys inner))
  | some _ => none

def addRow (key : String) (keys : List (List String × Item)) (entries : Entries) :
    Option Entries :=
  match entries.lookup key with
  | none => do return entries ++ [(key, .rows [← assignAll keys []])]
  | some (.rows rows) => do
    return entries.replace key (.rows (rows ++ [← assignAll keys []]))
  | some _ => none

def addSection (entries : Entries) (block : Section) : Option Entries :=
  match block.header with
  | .table path => do descend false (addTable (← path.getLast?) block.keys) path.dropLast entries
  | .row path => do descend false (addRow (← path.getLast?) block.keys) path.dropLast entries

/-- All that a text says: the keys in front of the first header, and the sections. -/
def assemble (keys : List (List String × Item)) (blocks : List Section) : Option Entries := do
  blocks.foldlM addSection (← assignAll keys [])

mutual
/-- The value as configuration data. A date has parts, as a table has, but none with a name that a
section could ask for. -/
def Item.value : Item → Config.Value
  | .text text => .text text
  | .scalar => .scalar
  | .brokenNumber => .brokenNumber
  | .date => .table []
  | .array items => .list (valuesOf items)
  | .table _ entries => .table (entryValues entries)
  | .rows rows => .list (rowValues rows)
def valuesOf : List Item → List Config.Value
  | [] => []
  | item :: items => item.value :: valuesOf items
def entryValues : List (String × Item) → List (String × Config.Value)
  | [] => []
  | (key, item) :: entries => (key, item.value) :: entryValues entries
def rowValues : List (List (String × Item)) → List Config.Value
  | [] => []
  | row :: rows => .table (entryValues row) :: rowValues rows
end

end NassiChart.Toml
