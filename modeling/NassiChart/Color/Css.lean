import NassiChart.Color.Basic
import NassiChart.Text

/-!
# Reading CSS colors

`Color.read` reads a color as style sheets write it: `#ff8000`, a name, or a function such as
`rgb(255 128 0)`. Digits without the `#` are read too. Any opacity is read and dropped.

Components are read as 64-bit numbers and scaled; the conversion to a channel runs in 32-bit
numbers and rounds half a step up.
-/

namespace NassiChart

inductive ColorError where
  | wrongNumberOfHexDigits
  | expectedEndOfString
  | unknownColorSyntax
  | unknownColorIdentifier
  | expectedArguments
  | expectedComma
  | expectedClosingParenthesis
  | unknownColorComponent
  | unknownAngle
  | unknownAngleDimension
  | expectedColorSpaceIdentifier
  | unknownColorSpace
  deriving DecidableEq, Repr

def ColorError.message : ColorError → String
  | wrongNumberOfHexDigits => "wrong number of hex digits"
  | expectedEndOfString => "expected end of string"
  | unknownColorSyntax => "unknown color syntax"
  | unknownColorIdentifier => "unknown color identifier"
  | expectedArguments => "expected arguments"
  | expectedComma => "expected comma"
  | expectedClosingParenthesis => "expected closing parenthesis"
  | unknownColorComponent => "unknown color component"
  | unknownAngle => "unknown angle"
  | unknownAngleDimension => "unknown angle dimension"
  | expectedColorSpaceIdentifier => "expected color space identifier"
  | unknownColorSpace => "unknown color space"

namespace Color.Css

def afterComment? : List Char → Option (List Char)
  | '*' :: '/' :: rest => some rest
  | _ :: cs => afterComment? cs
  | [] => none

def isBlankChar (c : Char) : Bool :=
  c == ' ' || c == '\t' || c == '\r' || c == '\n'

/-- The text after all comments and all characters of a kind in front, in at most `steps` steps. A
comment that is never closed is not skipped. -/
def skipPast (isSkipped : Char → Bool) : (steps : Nat) → List Char → List Char
  | 0, cs => cs
  | steps + 1, cs =>
    match cs with
    | '/' :: '*' :: inner =>
      match afterComment? inner with
      | some rest => skipPast isSkipped steps rest
      | none => cs
    | c :: rest => if isSkipped c then skipPast isSkipped steps rest else cs
    | [] => []

def skip (cs : List Char) : List Char :=
  skipPast isBlankChar cs.length cs

/-- The text after all comments in front. Blanks stay. -/
def skipComments (cs : List Char) : List Char :=
  skipPast (fun _ => false) cs.length cs

/-- The first character of a name, or the second after a dash. -/
def isIdentStart (c : Char) : Bool :=
  c.isAlpha || c == '_' || c == '-'

def isIdentChar (c : Char) : Bool :=
  isIdentStart c || c.isDigit

/-- An identifier in front of a text, and the text after it. A digit is allowed neither in front
nor after a dash in front, and neither `-` nor a second dash in front is. -/
def ident? : List Char → Option (List Char × List Char)
  | '-' :: c :: cs =>
    if isIdentStart c && c != '-' then
      some ('-' :: c :: cs.takeWhile isIdentChar, cs.dropWhile isIdentChar)
    else none
  | c :: cs =>
    if isIdentStart c && c != '-' then
      some (c :: cs.takeWhile isIdentChar, cs.dropWhile isIdentChar)
    else none
  | [] => none

def lower (cs : List Char) : String :=
  String.ofList (cs.map Char.toLower)

def digitsValue (digits : List Char) : Nat :=
  digits.foldl (fun n c => 10 * n + (c.toNat - '0'.toNat)) 0

/-- A sign in front of a text, as "is a minus", and the text after it. -/
def sign (cs : List Char) : Bool × List Char :=
  match cs with
  | '+' :: rest => (false, rest)
  | '-' :: rest => (true, rest)
  | _ => (false, cs)

/-- The fraction digits in front of a text, after their point, and the text after them. A point
without a digit after it is none. -/
def fraction (cs : List Char) : List Char × List Char :=
  match cs with
  | '.' :: rest =>
    match rest.takeWhile Char.isDigit with
    | [] => ([], cs)
    | digits => (digits, rest.dropWhile Char.isDigit)
  | _ => ([], cs)

/-- The exponent in front of a text, and the text after it. -/
def exponent (cs : List Char) : Int × List Char :=
  match cs with
  | 'e' :: rest | 'E' :: rest =>
    let (minus, rest) := sign rest
    match rest.takeWhile Char.isDigit with
    | [] => (0, cs)
    | digits =>
      let n : Int := digitsValue digits
      (if minus then -n else n, rest.dropWhile Char.isDigit)
  | _ => (0, cs)

/-- The 64-bit number nearest to `digits · 10 ^ power`. Powers beyond the range of such numbers
are cut to ones that are still beyond it. -/
def nearest (minus : Bool) (digits : List Char) (power : Int) : Float :=
  let power := max (-(1000 + digits.length : Int)) (min 1000 power)
  let size := Float.ofScientific (digitsValue digits) (power < 0) power.natAbs
  if minus then -size else size

def number? (cs : List Char) : Option (Float × List Char) :=
  let (minus, rest) := sign cs
  let whole := rest.takeWhile Char.isDigit
  let (part, rest) := fraction (rest.dropWhile Char.isDigit)
  let (power, rest) := exponent rest
  match whole ++ part with
  | [] => none
  | digits => some (nearest minus digits (power - part.length), rest)

inductive Value where
  | number (n : Float)
  | percentage (n : Float)
  | dimension (n : Float) (unit : List Char)
  | symbol (name : List Char)

def value? (cs : List Char) : Option (Value × List Char) :=
  let cs := skip cs
  match number? cs with
  | some (n, '%' :: rest) => some (.percentage n, rest)
  | some (n, rest) =>
    match ident? rest with
    | some (unit, rest) => some (.dimension n unit, rest)
    | none => some (.number n, rest)
  | none => (ident? cs).map fun (name, rest) => (.symbol name, rest)

abbrev Scan := StateT (List Char) (Except ColorError)

/-- Take the character if nothing but comments stands in front of it. The slash of a comment that is
never closed is not taken. -/
def takenAtOnce (c : Char) : Scan Bool := do
  match skipComments (← get) with
  | '/' :: '*' :: _ => return false
  | d :: rest => if d = c then set rest; return true else return false
  | [] => return false

/-- Take the character if nothing but blanks and comments stands in front of it. -/
def taken (c : Char) : Scan Bool := do
  modify skip
  takenAtOnce c

/-- A number times `scale`, a percentage times `percentScale`, or `none`, which counts as zero. -/
def component (scale percentScale : Float) : Scan Float := do
  match value? (← get) with
  | some (.number n, rest) => set rest; return n * scale
  | some (.percentage n, rest) => set rest; return n * percentScale
  | some (.symbol name, rest) =>
    if lower name = "none" then set rest; return 0
    else throw .unknownColorComponent
  | _ => throw .unknownColorComponent

def degreesPer? : String → Option Float
  | "deg" => some 1
  | "rad" => some (180 / 3.14159265358979323846)
  | "grad" => some 0.9
  | "turn" => some 360
  | _ => none

def angle : Scan Float := do
  match value? (← get) with
  | some (.number n, rest) => set rest; return n
  | some (.symbol name, rest) =>
    if lower name = "none" then set rest; return 0 else throw .unknownAngle
  | some (.dimension n unit, rest) =>
    match degreesPer? (lower unit) with
    | some scale => set rest; return n * scale
    | none => throw .unknownAngleDimension
  | _ => throw .unknownAngle

/-- The opacity, if there is one, and the end of the arguments. -/
def opacityAndEnd (separator : Char) : Scan Unit := do
  if (← taken separator) then
    let _ ← component 1 0.01
  if !(← taken ')') then throw .expectedClosingParenthesis

/-- Three components. A comma at once after the first asks for one at once after the second: a comma
with a blank in front of it separates nothing. -/
def legacyComponents (first second third : Scan Float) : Scan (Float × Float × Float) := do
  let a ← first
  let comma ← takenAtOnce ','
  let b ← second
  if comma then
    if !(← takenAtOnce ',') then throw .expectedComma
  let c ← third
  opacityAndEnd (if comma then ',' else '/')
  return (a, b, c)

def plainComponents (first second third : Scan Float) : Scan (Float × Float × Float) := do
  let a ← first
  let b ← second
  let c ← third
  opacityAndEnd '/'
  return (a, b, c)

/-- The larger of two numbers, the other one if one is not a number. -/
def larger (a b : Float32) : Float32 :=
  if a ≥ b || b.isNaN then a else b

/-- The smaller of two numbers, the other one if one is not a number. -/
def smaller (a b : Float32) : Float32 :=
  if a ≤ b || b.isNaN then a else b

/-- The number cut to the range from `low` to `high`. What is not a number stays so. -/
def clamp (low high x : Float32) : Float32 :=
  if x < low then low else if x > high then high else x

/-- One byte for a channel from 0 to 1, rounded half up and cut to the range of a byte. -/
def channel (x : Float32) : UInt8 :=
  (x * 255 + 0.5).toUInt8

def ofChannels (red green blue : Float32) : Color :=
  ⟨channel red, channel green, channel blue⟩

def unit (x : Float) : Float32 :=
  (if x < 0 then 0 else if x > 1 then 1 else x).toFloat32

/-- One channel of a hue in degrees, with saturation and lightness in percent. `n` is 0 for red,
8 for green and 4 for blue. -/
def hslChannel (hue saturation lightness : Float32) (n : Float32) : Float32 :=
  let saturation := saturation * 0.01
  let lightness := lightness * 0.01
  let a := saturation * smaller lightness (1 - lightness)
  let x := n + hue * (1 / 30)
  let k := x - 12 * (x * (1 / 12)).floor
  lightness - a * clamp (-1) 1 (smaller (k - 3) (9 - k))

def ofHsl (hue saturation lightness : Float32) : Color :=
  let part := hslChannel hue saturation lightness
  ofChannels (part 0) (part 8) (part 4)

def ofHwb (hue whiteness blackness : Float32) : Color :=
  let white := whiteness * 0.01
  let black := blackness * 0.01
  if white + black ≥ 1 then
    let gray := white / (white + black)
    ofChannels gray gray gray
  else
    let part := fun n => white + hslChannel hue 100 50 n * (1 - white - black)
    ofChannels (part 0) (part 8) (part 4)

inductive Function where
  | rgb
  | hsl
  | hwb
  | lab
  | lch
  | inSpace

def function? : String → Option Function
  | "rgb" | "rgba" => some .rgb
  | "hsl" | "hsla" => some .hsl
  | "hwb" => some .hwb
  | "lab" | "oklab" => some .lab
  | "lch" | "oklch" => some .lch
  | "color" => some .inSpace
  | _ => none

def spaces : List String :=
  ["srgb", "srgb-linear", "display-p3", "a98-rgb", "prophoto-rgb", "rec2020", "xyz", "xyz-d50",
   "xyz-d65"]

def spaceName : Scan String := do
  match ident? (skip (← get)) with
  | none => throw .expectedColorSpaceIdentifier
  | some (name, rest) =>
    set rest
    if spaces.contains (lower name) then return lower name else throw .unknownColorSpace

/-- The color of a function, read from its arguments. Only the components in the standard space
are converted; what lies in a wider space is read and drawn white. -/
def arguments (function : Function) : Scan Color := do
  match ← get with
  | '(' :: rest => set rest
  | _ => throw .expectedArguments
  match function with
  | .rgb =>
    let part := component (1 / 255) 0.01
    let (r, g, b) ← legacyComponents part part part
    return ofChannels (unit r) (unit g) (unit b)
  | .hsl =>
    let part := component 1 1
    let (h, s, l) ← legacyComponents angle part part
    return ofHsl h.toFloat32 (larger 0 s.toFloat32) l.toFloat32
  | .hwb =>
    let part := component 1 1
    let (h, w, b) ← plainComponents angle part part
    return ofHwb h.toFloat32 w.toFloat32 b.toFloat32
  | .lab =>
    let part := component 1 1
    let _ ← plainComponents part part part
    return Color.white
  | .lch =>
    let part := component 1 1
    let _ ← plainComponents part part angle
    return Color.white
  | .inSpace =>
    let space ← spaceName
    let part := component 1 0.01
    let (r, g, b) ← plainComponents part part part
    return if space = "srgb" then ofChannels r.toFloat32 g.toFloat32 b.toFloat32 else Color.white

def hexValue? (c : Char) : Option Nat :=
  if c.isDigit then some (c.toNat - '0'.toNat)
  else if 'a' ≤ c && c ≤ 'f' then some (c.toNat - 'a'.toNat + 10)
  else if 'A' ≤ c && c ≤ 'F' then some (c.toNat - 'A'.toNat + 10)
  else none

def isHexDigit (c : Char) : Bool :=
  (hexValue? c).isSome

/-- The color of hexadecimal digits, one or two a channel, with or without opacity. -/
def ofDigits? (digits : List Nat) : Option Color :=
  let byte := fun high low : Nat => (16 * high + low).toUInt8
  match digits with
  | [r, g, b] | [r, g, b, _] => some ⟨byte r r, byte g g, byte b b⟩
  | [r, r', g, g', b, b'] | [r, r', g, g', b, b', _, _] =>
    some ⟨byte r r', byte g g', byte b b'⟩
  | _ => none

def color : Scan Color := do
  match ← get with
  | '#' :: rest =>
    let digits := (rest.take 8).takeWhile isHexDigit
    match ofDigits? (digits.filterMap hexValue?) with
    | some color => set (rest.drop digits.length); return color
    | none => throw .wrongNumberOfHexDigits
  | cs =>
    match ident? cs with
    | none => throw .unknownColorSyntax
    | some (name, rest) =>
      set rest
      match function? (lower name) with
      | some function => arguments function
      | none =>
        match ofName? (lower name) with
        | some color => return color
        | none => throw .unknownColorIdentifier

end Color.Css

namespace Color

open Color.Css Text

/-- Three or six hexadecimal digits, without a `#`. -/
def isBareHex (cs : List Char) : Bool :=
  (cs.length == 3 || cs.length == 6) && cs.all isHexDigit

/-- Read a color. White space around it does not count. -/
def read (text : String) : Except ColorError Color :=
  let cs := trim text.toList
  match color (if isBareHex cs then '#' :: cs else cs) with
  | .error error => .error error
  | .ok (color, []) => .ok color
  | .ok (_, _ :: _) => .error .expectedEndOfString

def invalidMessage (text : String) (error : ColorError) : String :=
  "invalid color `" ++ text ++ "`: " ++ error.message

end Color

end NassiChart
