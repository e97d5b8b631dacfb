import NassiChart.Color.Css
import NassiChart.Document.Options

/-!
# Settings

What a configuration looks like before its meaning is known: nested tables and lists of texts and
other values. Of the values that are not texts only the fact that they are none is kept, and
whether they are values at all: a number that stands for nothing is a fault of the configuration,
but only if it is looked at.

The settings that a configuration can make are metadata of the document and colors. All are
optional. `Settings.ofValue?` takes them out of configuration data, `Settings.options` turns them
into document options, which fails if a color is none.
-/

namespace NassiChart.Config

open NassiChart.Document

inductive Value where
  /-- Present without a value. -/
  | null
  | text (text : String)
  /-- A number or a truth value. -/
  | scalar
  /-- Written as a number, but none: beyond every range, or with wrong digits. -/
  | brokenNumber
  | list (items : List Value)
  | table (entries : List (String × Value))
  deriving Inhabited, Repr

mutual
/-- The value can be looked at as a whole: it holds no broken number. -/
def Value.isSound : Value → Bool
  | .brokenNumber => false
  | .list items => areSound items
  | .table entries => haveSoundValues entries
  | .null | .text _ | .scalar => true
def areSound : List Value → Bool
  | [] => true
  | value :: values => value.isSound && areSound values
def haveSoundValues : List (String × Value) → Bool
  | [] => true
  | (_, value) :: entries => value.isSound && haveSoundValues entries
end

structure DocumentSettings where
  author : Option String := none
  programName : Option String := none
  origin : Option String := none
  deriving DecidableEq, Repr

structure StyleSettings where
  ordinary : Option String := none
  jump : Option String := none
  externalJump : Option String := none
  database : Option String := none
  deriving DecidableEq, Repr

structure Settings where
  document : DocumentSettings := {}
  style : StyleSettings := {}
  deriving DecidableEq, Repr

/-- Whether a list may hold more values than the section that it stands for has keys. -/
inductive Surplus where
  | allowed
  | refused
  deriving DecidableEq, Repr

/-- The values of a section for its keys, in the order of the keys. A table gives them by name and
may hold other names as well, whose values are looked at and dropped. A list gives them by
position, and nobody looks at what comes after them. Other values are no section. -/
def Value.section? (surplus : Surplus) (keys : List String) :
    Value → Option (List (Option Value))
  | .table entries =>
    if haveSoundValues (entries.filter fun entry => !keys.contains entry.1) then
      some (keys.map fun key => entries.lookup key)
    else none
  | .list items =>
    if surplus = .refused ∧ keys.length < items.length then none
    else some ((List.range keys.length).map (items[·]?))
  | _ => none

def Value.text? : Option Value → Option (Option String)
  | none | some .null => some none
  | some (.text content) => some (some content)
  | some _ => none

/-- The texts of a section. A section that is missing has none. -/
def Value.texts? (surplus : Surplus) (keys : List String) :
    Option Value → Option (List (Option String))
  | none => some (keys.map fun _ => none)
  | some value => do (← value.section? surplus keys).mapM Value.text?

def documentKeys : List String := ["author", "program_name", "origin"]

def styleKeys : List String :=
  ["default_color", "jump_color", "external_jump_color", "database_color"]

/-- The metadata with the given texts, in the order of `documentKeys`. -/
def DocumentSettings.ofTexts? : List (Option String) → Option DocumentSettings
  | [author, programName, origin] => some { author, programName, origin }
  | _ => none

/-- The colors with the given texts, in the order of `styleKeys`. -/
def StyleSettings.ofTexts? : List (Option String) → Option StyleSettings
  | [ordinary, jump, externalJump, database] => some { ordinary, jump, externalJump, database }
  | _ => none

/-- The settings that configuration data makes, or `none` if it has another form. -/
def Settings.ofValue? (surplus : Surplus) (value : Value) : Option Settings := do
  match ← value.section? surplus ["document", "style"] with
  | [document, style] =>
    return {
      document := ← DocumentSettings.ofTexts? (← Value.texts? surplus documentKeys document)
      style := ← StyleSettings.ofTexts? (← Value.texts? surplus styleKeys style) }
  | _ => none

structure InvalidColor where
  key : String
  text : String
  error : ColorError
  deriving DecidableEq, Repr

def InvalidColor.message (invalid : InvalidColor) : String :=
  "Invalid " ++ invalid.key ++ " in config: " ++ Color.invalidMessage invalid.text invalid.error

/-- The color of a setting, `standard` if it is not made. -/
def colorOf (key : String) (standard : Color) : Option String → Except InvalidColor Color
  | none => .ok standard
  | some text =>
    match Color.read text with
    | .ok color => .ok color
    | .error error => .error ⟨key, text, error⟩

def StyleSettings.palette (style : StyleSettings) : Except InvalidColor Palette := do
  let ordinary ← colorOf "default_color" Palette.standard.ordinary style.ordinary
  let jump ← colorOf "jump_color" Palette.standard.jump style.jump
  let externalJump ←
    colorOf "external_jump_color" Palette.standard.externalJump style.externalJump
  let database ← colorOf "database_color" Palette.standard.database style.database
  return { ordinary, jump, externalJump, database }

/-- The document options that the settings describe, for a document made on a given day. -/
def Settings.options (settings : Settings) (created : Date) : Except InvalidColor Options := do
  let standard := Options.standard created
  let palette ← settings.style.palette
  return {
    author := settings.document.author.getD standard.author
    programName := settings.document.programName.getD standard.programName
    origin := settings.document.origin.getD standard.origin
    created := created
    palette := palette }

end NassiChart.Config
