import NassiChart.Toml.Table
import NassiChart.Toml.Scalar

/-!
# Reading TOML

`Toml.read?` reads a TOML text as configuration data. It says only whether a text is valid, not
what is wrong with it. Line ends, comments and trailing commas may stand inside inline tables, as
in version 1.1 of the format.
-/

namespace NassiChart.Toml

abbrev Scan := StateT (List Char) Option

/-- A character that may stand in a comment or a string on one line. -/
def isPrintable (c : Char) : Bool :=
  c == '\t' || (' ' ≤ c && c != '\x7f')

def isBlankChar (c : Char) : Bool :=
  c == ' ' || c == '\t'

/-- Characters of a name without quotes. -/
def isBareChar (c : Char) : Bool :=
  c.isAlphanum || c == '_' || c == '-'

/-- Characters of a value without quotes: all that do not end it. -/
def isScalarChar (c : Char) : Bool :=
  !"=,[]\x7b\x7d# \t\r\n".toList.contains c

def dropText? : (start text : List Char) → Option (List Char)
  | [], rest => some rest
  | _ :: _, [] => none
  | a :: start, c :: text => if a = c then dropText? start text else none

def expectText (text : String) : Scan Unit := fun cs =>
  (dropText? text.toList cs).map ((), ·)

def comesNext (text : String) : Scan Bool := do
  return (dropText? text.toList (← get)).isSome

def skipSpace : Scan Unit :=
  modify fun cs => cs.dropWhile isBlankChar

/-- Skip a comment. Control characters in it are faults. -/
def skipComment : Scan Unit := do
  match ← get with
  | '#' :: cs => set (cs.dropWhile isPrintable)
  | _ => return

def lineEnd : Scan Unit := do
  match ← get with
  | '\n' :: cs | '\r' :: '\n' :: cs => set cs
  | _ => failure

/-- Skip blanks and a comment up to the end of the line or of the text. -/
def endOfLine : Scan Unit := do
  skipSpace
  skipComment
  match ← get with
  | [] => return
  | _ => lineEnd

/-- Skip blanks, comments and line ends, in at most `steps` lines. -/
def skipLines : (steps : Nat) → Scan Unit
  | 0 => return
  | steps + 1 => do
    skipSpace
    skipComment
    match ← get with
    | '\n' :: cs | '\r' :: '\n' :: cs => do
      set cs
      skipLines steps
    | _ => return

/-- The character with a hexadecimal number of `width` digits, and the text after it. -/
def codePoint? (width : Nat) (cs : List Char) : Option (Char × List Char) := do
  let digits ← (cs.take width).mapM (digitValue? 16)
  let n := ofDigits 16 digits
  if digits.length = width ∧ n.isValidChar then return (Char.ofNat n, cs.drop width)
  else none

def escape? : List Char → Option (Char × List Char)
  | 'b' :: cs => some ('\x08', cs)
  | 't' :: cs => some ('\t', cs)
  | 'n' :: cs => some ('\n', cs)
  | 'f' :: cs => some ('\x0c', cs)
  | 'r' :: cs => some ('\r', cs)
  | 'e' :: cs => some ('\x1b', cs)
  | '"' :: cs => some ('"', cs)
  | '\\' :: cs => some ('\\', cs)
  | 'x' :: cs => codePoint? 2 cs
  | 'u' :: cs => codePoint? 4 cs
  | 'U' :: cs => codePoint? 8 cs
  | _ => none

/-- The rest of a string with escapes, up to its quote. -/
def basicRest : (steps : Nat) → List Char → Option (List Char × List Char)
  | 0, _ => none
  | steps + 1, cs =>
    match cs with
    | '"' :: rest => some ([], rest)
    | '\\' :: rest => do
      let (c, rest) ← escape? rest
      let (text, rest) ← basicRest steps rest
      return (c :: text, rest)
    | c :: rest => do
      if !isPrintable c then none
      let (text, rest) ← basicRest steps rest
      return (c :: text, rest)
    | [] => none

def literalRest : List Char → Option (List Char × List Char)
  | '\'' :: rest => some ([], rest)
  | c :: rest => do
    if !isPrintable c then none
    let (text, rest) ← literalRest rest
    return (c :: text, rest)
  | [] => none

def dropLineEnd : List Char → List Char
  | '\n' :: cs | '\r' :: '\n' :: cs => cs
  | cs => cs

/-- The text without blanks and line ends in front. A carriage return alone is no line end. -/
def dropLines : List Char → List Char
  | ' ' :: cs | '\t' :: cs | '\n' :: cs | '\r' :: '\n' :: cs => dropLines cs
  | cs => cs

/-- A backslash at the end of a line takes all blanks and line ends after it away. The text after
them, if a line does end here. -/
def afterFold? (cs : List Char) : Option (List Char) :=
  match cs.dropWhile isBlankChar with
  | '\n' :: rest | '\r' :: '\n' :: rest => some (dropLines rest)
  | _ => none

/-- The rest of a string over several lines, up to its three quotes. Two quotes more may stand in
front of those. `escapes` says whether a backslash starts an escape. -/
def longRest (quote : Char) (escapes : Bool) :
    (steps : Nat) → List Char → Option (List Char × List Char)
  | 0, _ => none
  | steps + 1, cs =>
    match cs with
    | [] => none
    | '\n' :: rest => do
      let (text, rest) ← longRest quote escapes steps rest
      return ('\n' :: text, rest)
    | '\r' :: '\n' :: rest => do
      let (text, rest) ← longRest quote escapes steps rest
      return ('\r' :: '\n' :: text, rest)
    | c :: rest =>
      if c = quote then
        let run := (cs.takeWhile (· == quote)).length
        if run < 3 then do
          let (text, rest) ← longRest quote escapes steps (cs.drop run)
          return (List.replicate run quote ++ text, rest)
        else
          let kept := min (run - 3) 2
          some (List.replicate kept quote, cs.drop (kept + 3))
      else if c = '\\' ∧ escapes = true then
        match afterFold? rest with
        | some rest => longRest quote escapes steps rest
        | none => do
          let (d, rest) ← escape? rest
          let (text, rest) ← longRest quote escapes steps rest
          return (d :: text, rest)
      else do
        if !isPrintable c then none
        let (text, rest) ← longRest quote escapes steps rest
        return (c :: text, rest)

def shortString : Scan String := fun cs =>
  match cs with
  | '"' :: rest => (basicRest (rest.length + 1) rest).map fun (t, rest) => (String.ofList t, rest)
  | '\'' :: rest => (literalRest rest).map fun (t, rest) => (String.ofList t, rest)
  | _ => none

def string : Scan String := fun cs =>
  match dropText? "\"\"\"".toList cs, dropText? "'''".toList cs with
  | some rest, _ =>
    (longRest '"' true (rest.length + 1) (dropLineEnd rest)).map
      fun (t, rest) => (String.ofList t, rest)
  | _, some rest =>
    (longRest '\'' false (rest.length + 1) (dropLineEnd rest)).map
      fun (t, rest) => (String.ofList t, rest)
  | none, none => shortString cs

def simpleKey : Scan String := do
  match ← get with
  | '"' :: _ | '\'' :: _ => shortString
  | cs =>
    match cs.takeWhile isBareChar with
    | [] => failure
    | name => set (cs.dropWhile isBareChar); return String.ofList name

/-- How deep arrays and tables between braces can be nested, and how many parts a key can have. -/
def depthLimit : Nat := 80

/-- Names with points between, at most `parts` of them. -/
def keyParts : (parts : Nat) → Scan (List String)
  | 0 => failure
  | parts + 1 => do
    skipSpace
    let name ← simpleKey
    skipSpace
    match ← get with
    | '.' :: cs => set cs; return name :: (← keyParts parts)
    | _ => return [name]

def dottedKey : Scan (List String) :=
  keyParts depthLimit

/-- The text of a value without quotes. A blank between a day and a time belongs to it. -/
def scalarText (cs : List Char) : List Char :=
  let word := cs.takeWhile isScalarChar
  match cs.drop word.length with
  | ' ' :: c :: rest =>
    if isDate word && c.isDigit then word ++ ' ' :: (c :: rest).takeWhile isScalarChar else word
  | _ => word

def scalar : Scan Item := do
  let cs ← get
  let text := scalarText cs
  set (cs.drop text.length)
  if isPlainScalar text then return .scalar
  else if isDateTime text then return .date
  else if hasNumberForm text then return .brokenNumber
  else failure

mutual
/-- A value. `steps` bounds the number of nested and successive values, `depth` how deep they are
nested. -/
def value : (steps depth : Nat) → Scan Item
  | 0, _ => failure
  | steps + 1, depth => do
    match ← get, depth with
    | '"' :: _, _ | '\'' :: _, _ => return .text (← string)
    | '[' :: cs, depth + 1 => set cs; return .array (← elements steps depth)
    | '\x7b' :: cs, depth + 1 =>
      set cs
      match assignAll (← pairs steps depth) [] with
      | some entries => return .table .inline entries
      | none => failure
    | _, _ => scalar
def elements : (steps depth : Nat) → Scan (List Item)
  | 0, _ => failure
  | steps + 1, depth => do
    skipLines steps
    match ← get with
    | ']' :: cs => set cs; return []
    | _ =>
      let item ← value steps depth
      skipLines steps
      match ← get with
      | ',' :: cs => set cs; return item :: (← elements steps depth)
      | ']' :: cs => set cs; return [item]
      | _ => failure
/-- The keys of an inline table and its closing brace. Lines may end on either side of the equals
sign, but not inside a key. -/
def pairs : (steps depth : Nat) → Scan (List (List String × Item))
  | 0, _ => failure
  | steps + 1, depth => do
    skipLines steps
    match ← get with
    | '\x7d' :: cs => set cs; return []
    | _ =>
      let key ← dottedKey
      skipLines steps
      expectText "="
      skipLines steps
      let item ← value steps depth
      skipLines steps
      match ← get with
      | ',' :: cs => set cs; return (key, item) :: (← pairs steps depth)
      | '\x7d' :: cs => set cs; return [(key, item)]
      | _ => failure
end

inductive Statement where
  | key (path : List String) (item : Item)
  | header (header : Header)

def header : Scan Header := do
  if ← comesNext "[[" then
    expectText "[["
    let path ← dottedKey
    expectText "]]"
    return .row path
  else
    expectText "["
    let path ← dottedKey
    expectText "]"
    return .table path

def statement (steps : Nat) : Scan Statement := do
  let said ← (do
    if ← comesNext "[" then return Statement.header (← header)
    else
      let path ← dottedKey
      expectText "="
      skipSpace
      return Statement.key path (← value steps depthLimit))
  endOfLine
  return said

/-- All statements. Each takes at least one character, so `steps` of them are enough for a text of
`steps` characters. -/
def statements : (steps : Nat) → Scan (List Statement)
  | 0 => do
    match ← get with
    | [] => return []
    | _ => failure
  | steps + 1 => do
    skipLines (steps + 1)
    match ← get with
    | [] => return []
    | _ => return (← statement (steps + 1)) :: (← statements steps)

/-- The keys in front of the first header, and the sections. -/
def sections : List Statement → List (List String × Item) × List Section
  | [] => ([], [])
  | .key path item :: rest =>
    let (keys, blocks) := sections rest
    ((path, item) :: keys, blocks)
  | .header header :: rest =>
    let (keys, blocks) := sections rest
    ([], ⟨header, keys⟩ :: blocks)

/-- The text without a byte order mark in front. -/
def dropMark : List Char → List Char
  | '\uFEFF' :: cs => cs
  | cs => cs

def read? (text : String) : Option Config.Value := do
  let cs := dropMark text.toList
  let (said, _) ← (statements (cs.length + 1)).run cs
  let (keys, blocks) := sections said
  let entries ← assemble keys blocks
  return .table (entryValues entries)

end NassiChart.Toml
