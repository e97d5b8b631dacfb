/-!
# Scalars of a TOML text

The values that are written without quotes: truth values, numbers, dates and times. Only their
form and their range are checked. A number beyond its range still has the form of one.
-/

namespace NassiChart.Toml

def digitValue? (base : Nat) (c : Char) : Option Nat :=
  let value :=
    if c.isDigit then c.toNat - '0'.toNat
    else if 'a' ≤ c && c ≤ 'f' then c.toNat - 'a'.toNat + 10
    else if 'A' ≤ c && c ≤ 'F' then c.toNat - 'A'.toNat + 10
    else base
  if value < base then some value else none

/-- The digits of a number in a base. Single underscores may stand between digits. -/
def digits? (base : Nat) : List Char → Option (List Nat)
  | [] => none
  | [c] => (digitValue? base c).map ([·])
  | c :: '_' :: cs => do return (← digitValue? base c) :: (← digits? base cs)
  | c :: cs => do return (← digitValue? base c) :: (← digits? base cs)

def ofDigits (base : Nat) (digits : List Nat) : Nat :=
  digits.foldl (fun n digit => base * n + digit) 0

def dropSign : List Char → List Char
  | '+' :: cs | '-' :: cs => cs
  | cs => cs

/-- The digits of a decimal number without a zero in front of others. -/
def decimal? (cs : List Char) : Option (List Nat) := do
  let digits ← digits? 10 cs
  match digits with
  | 0 :: _ :: _ => none
  | _ => some digits

/-- The number that a text stands for, without its sign: decimal with a sign or without, or
hexadecimal, octal or binary. -/
def magnitude? (cs : List Char) : Option Nat :=
  match cs with
  | '0' :: 'x' :: cs => (digits? 16 cs).map (ofDigits 16)
  | '0' :: 'o' :: cs => (digits? 8 cs).map (ofDigits 8)
  | '0' :: 'b' :: cs => (digits? 2 cs).map (ofDigits 2)
  | cs => (decimal? (dropSign cs)).map (ofDigits 10)

/-- A whole number of 128 bits, signed or unsigned. -/
def isInteger (cs : List Char) : Bool :=
  match magnitude? cs with
  | none => false
  | some n => if cs.head? = some '-' then n ≤ Nat.pow 2 127 else n < Nat.pow 2 128

/-- A finite number of 64 bits with the given digits and power of ten. -/
def isFinite (digits : List Nat) (power : Int) : Bool :=
  let power := min power 1000
  let n := ofDigits 10 digits
  -- The largest number that does not round to infinity is half a step above the largest one.
  let bound := Nat.pow 2 1024 - Nat.pow 2 970
  if power < 0 then
    n < bound * Nat.pow 10 (min power.natAbs (digits.length + 400))
  else n * Nat.pow 10 power.toNat < bound

def exponent? (cs : List Char) : Option Int := do
  let n := ofDigits 10 (← digits? 10 (dropSign cs))
  return if cs.head? = some '-' then -(n : Int) else n

/-- The digits and the power of ten of a number with a fraction, an exponent or both. -/
def fraction? (cs : List Char) : Option (List Nat × Int) :=
  let body := dropSign cs
  let isMark := fun c => c == 'e' || c == 'E'
  let mantissa := body.takeWhile (!isMark ·)
  let power := (body.dropWhile (!isMark ·)).tail
  let whole := mantissa.takeWhile (· != '.')
  let part := (mantissa.dropWhile (· != '.')).tail
  let hasPoint := mantissa.contains '.'
  let hasMark := body.any isMark
  if !hasPoint && !hasMark then none
  else do
    let digits ← decimal? whole
    let places ← if hasPoint then digits? 10 part else some []
    let power ← if hasMark then exponent? power else some 0
    return (digits ++ places, power - places.length)

/-- A number with a fraction, an exponent or both, or one of the names of what is no finite
number. -/
def isFloat (cs : List Char) : Bool :=
  let body := dropSign cs
  body = "inf".toList || body = "nan".toList ||
    (fraction? cs).any fun (digits, power) => isFinite digits power

/-- Every underscore stands between two digits, hexadecimal ones included. `before` is the
character in front. -/
def underscoresFit : (before : Char) → List Char → Bool
  | before, [] => before != '_'
  | before, c :: cs =>
    let isDigit := fun d => (digitValue? 16 d).isSome
    (if c == '_' then isDigit before else before != '_' || isDigit c) && underscoresFit c cs

/-- A text that starts like a decimal number and has only digits up to its first underscore. What
comes after that is looked at only where it touches an underscore. -/
def startsAsDecimal (cs : List Char) : Bool :=
  match cs with
  | [] => false
  | ['0'] => true
  | c :: rest =>
    let tail := rest.dropWhile Char.isDigit
    c.isDigit && c != '0' && (tail.isEmpty || tail.head? == some '_') &&
      !rest.any (fun d => d == '.' || d == 'e' || d == 'E') && underscoresFit c rest

/-- The form of a whole number, which need not have one: there may be no digit after the mark of a
base, and decimal digits are checked at their start only. -/
def hasIntegerForm (cs : List Char) : Bool :=
  match cs with
  | ['0', 'x'] | ['0', 'o'] | ['0', 'b'] => true
  | '0' :: 'x' :: cs => (digits? 16 cs).isSome
  | '0' :: 'o' :: cs => (digits? 8 cs).isSome
  | '0' :: 'b' :: cs => (digits? 2 cs).isSome
  | cs => startsAsDecimal (dropSign cs)

/-- The form of a number. A text of this form that stands for no number is a fault only where its
value is asked for. -/
def hasNumberForm (cs : List Char) : Bool :=
  hasIntegerForm cs || (fraction? cs).isSome

def fixed? (width : Nat) (cs : List Char) : Option Nat :=
  if cs.length = width ∧ cs.all Char.isDigit then (digits? 10 cs).map (ofDigits 10) else none

def monthDays (year month : Nat) : Nat :=
  if month = 2 then
    if year % 4 = 0 ∧ (year % 100 ≠ 0 ∨ year % 400 = 0) then 29 else 28
  else if month = 4 ∨ month = 6 ∨ month = 9 ∨ month = 11 then 30 else 31

def isDate (cs : List Char) : Bool :=
  cs[4]? = some '-' && cs[7]? = some '-' &&
  match fixed? 4 (cs.take 4), fixed? 2 ((cs.drop 5).take 2), fixed? 2 (cs.drop 8) with
  | some year, some month, some day =>
    1 ≤ month && month ≤ 12 && 1 ≤ day && day ≤ monthDays year month
  | _, _, _ => false

/-- Hours and minutes, `07:32`. -/
def isClock (cs : List Char) : Bool :=
  cs[2]? = some ':' &&
  match fixed? 2 (cs.take 2), fixed? 2 (cs.drop 3) with
  | some hour, some minute => hour ≤ 23 && minute ≤ 59
  | _, _ => false

/-- A time of day. Seconds may be left out, and may have a fraction. -/
def isTime (cs : List Char) : Bool :=
  isClock (cs.take 5) &&
  match cs.drop 5 with
  | [] => true
  | ':' :: rest =>
    (match fixed? 2 (rest.take 2) with
      | some second => second ≤ 60
      | none => false) &&
    match rest.drop 2 with
    | [] => true
    | '.' :: places => !places.isEmpty && places.all Char.isDigit
    | _ => false
  | _ => false

def isZone (cs : List Char) : Bool :=
  match cs with
  | [] | ['Z'] | ['z'] => true
  | '+' :: clock | '-' :: clock => isClock clock
  | _ => false

/-- A day, a time of day, or both with or without a zone. -/
def isDateTime (cs : List Char) : Bool :=
  isDate cs || isTime cs ||
  (isDate (cs.take 10) &&
    match cs.drop 10 with
    | c :: rest =>
      let startsZone := fun d => d == 'Z' || d == 'z' || d == '+' || d == '-'
      (c == 'T' || c == 't' || c == ' ') && isTime (rest.takeWhile (!startsZone ·)) &&
        isZone (rest.dropWhile (!startsZone ·))
    | [] => false)

def isPlainScalar (cs : List Char) : Bool :=
  cs = "true".toList || cs = "false".toList || isInteger cs || isFloat cs

end NassiChart.Toml
