import NassiChart.Proofs.AttributeValue

/-!
# Reading a document back

A plain reader for documents of elements and attributes. `scan` goes over the characters one by
one and cuts them into tags, `nest` puts the tags into one another. Between tags there is white
space and nothing else, values stand between double quotes, and a declaration is skipped if a
`root` element follows it.
-/

namespace NassiChart.Document

/-- What stands in the opening tag of an element. -/
structure Tag where
  name : String
  attributes : List (String × String)
  deriving DecidableEq, Repr

/-- An element with the elements inside of it. -/
abbrev Element := Rose Tag

/-- What a document is cut into. -/
inductive Token where
  | declaration
  | opening (tag : Tag)
  | closing (name : String)
  deriving DecidableEq, Repr

/-- Where in a tag the reader stands. -/
inductive Mode where
  | between
  | bracket
  /-- In a declaration, `mark` if the last character was a question mark. -/
  | declaration (mark : Bool)
  | closing (name : List Char)
  | opening (name : List Char)
  /-- In front of an attribute, or of the end of the tag. -/
  | inside (tag : Tag)
  | key (tag : Tag) (key : List Char)
  | equals (tag : Tag) (key : List Char)
  | value (tag : Tag) (key raw : List Char)
  | quoted (tag : Tag)
  deriving DecidableEq, Repr

def isSpace (c : Char) : Bool :=
  c == ' ' || c == '\t' || c == '\n' || c == '\r'

def isNameChar (c : Char) : Bool :=
  c.isAlphanum || c == ':' || c == '_' || c == '-' || c == '.'

def Tag.add (tag : Tag) (key value : List Char) : Tag :=
  { tag with attributes := tag.attributes ++ [(String.ofList key, String.ofList value)] }

/-- Read one character. The result is where the reader stands then, and the tag that the character
ends. -/
def step : Mode → Char → Option (Mode × List Token)
  | .between, c =>
    if c = '<' then some (.bracket, [])
    else if isSpace c then some (.between, []) else none
  | .bracket, c =>
    if c = '/' then some (.closing [], [])
    else if c = '?' then some (.declaration false, [])
    else if isNameChar c then some (.opening [c], []) else none
  | .declaration mark, c =>
    if mark ∧ c = '>' then some (.between, [.declaration])
    else some (.declaration (c == '?'), [])
  | .closing name, c =>
    if isNameChar c then some (.closing (name ++ [c]), [])
    else if c = '>' then some (.between, [.closing (String.ofList name)]) else none
  | .opening name, c =>
    if isNameChar c then some (.opening (name ++ [c]), [])
    else if isSpace c then some (.inside ⟨String.ofList name, []⟩, [])
    else if c = '>' then some (.between, [.opening ⟨String.ofList name, []⟩]) else none
  | .inside tag, c =>
    if isNameChar c then some (.key tag [c], [])
    else if isSpace c then some (.inside tag, [])
    else if c = '>' then some (.between, [.opening tag]) else none
  | .key tag key, c =>
    if isNameChar c then some (.key tag (key ++ [c]), [])
    else if c = '=' then some (.equals tag key, []) else none
  | .equals tag key, c =>
    if c = '"' then some (.value tag key [], []) else none
  | .value tag key raw, c =>
    if c = '"' then (decode raw).map fun text => (.quoted (tag.add key text), [])
    else if c = '<' then none
    else some (.value tag key (raw ++ [c]), [])
  | .quoted tag, c =>
    if isSpace c then some (.inside tag, [])
    else if c = '>' then some (.between, [.opening tag]) else none

def scan : Mode → List Char → Option (Mode × List Token)
  | mode, [] => some (mode, [])
  | mode, c :: rest => do
    let (mode, first) ← step mode c
    let (mode, more) ← scan mode rest
    return (mode, first ++ more)

/-- Put elements together from tags. `before` are the elements that are complete in the innermost
open one, `opened` are the open ones around it, each with what is complete in front of it. -/
def nest : (before : List Element) → (opened : List (Tag × List Element)) → List Token →
    Option (List Element)
  | before, [], [] => some before
  | _, _ :: _, [] => none
  | before, opened, .opening tag :: rest => nest [] ((tag, before) :: opened) rest
  | before, (tag, outer) :: opened, .closing name :: rest =>
    if tag.name = name then nest (outer ++ [.node tag before]) opened rest else none
  | _, [], .closing _ :: _ => none
  | before, opened, .declaration :: rest =>
    match rest with
    | .opening tag :: _ => if tag.name = "root" then nest before opened rest else none
    | _ => none

def readElements (content : List UInt8) : Option (List Element) := do
  let text ← Text.ofBytes? content
  match ← scan .between text.toList with
  | (.between, tokens) => nest [] [] tokens
  | _ => none

theorem scan_append {mode next last : Mode} {first second : List Char}
    {tokens more : List Token} (h : scan mode first = some (next, tokens))
    (h' : scan next second = some (last, more)) :
    scan mode (first ++ second) = some (last, tokens ++ more) := by
  induction first generalizing mode tokens with
  | nil =>
      simp only [scan, Option.some.injEq, Prod.mk.injEq] at h
      obtain ⟨rfl, rfl⟩ := h
      exact h'
  | cons c first ih =>
      simp only [scan, Option.bind_eq_bind, Option.bind_eq_some_iff] at h
      obtain ⟨⟨middle, ended⟩, one, ⟨next', rest⟩, others, result⟩ := h
      cases result
      simp [scan, one, ih others]

/-- Characters that only move the reader on. -/
theorem scan_run (mode : List Char → Mode) (start run : List Char)
    (h : ∀ c ∈ run, ∀ read, step (mode read) c = some (mode (read ++ [c]), [])) :
    scan (mode start) run = some (mode (start ++ run), []) := by
  induction run generalizing start with
  | nil => simp [scan]
  | cons c run ih =>
      have one := h c List.mem_cons_self start
      have others := ih (start ++ [c]) fun d hd => h d (List.mem_cons_of_mem _ hd)
      simp [scan, one, others]

theorem scan_spaces {spaces : List Char} (h : ∀ c ∈ spaces, isSpace c = true) :
    scan .between spaces = some (.between, []) := by
  apply scan_run (fun _ => .between) [] spaces
  intro c hc _
  have space := h c hc
  have bracket : c ≠ '<' := by rintro rfl; exact absurd space (by decide)
  simp [step, bracket, space]

/-- The text can be the name of an element or an attribute. -/
def IsName (name : String) : Prop :=
  name.toList ≠ [] ∧ name.toList.all isNameChar = true

instance (name : String) : Decidable (IsName name) :=
  inferInstanceAs (Decidable (_ ∧ _))

/-- The text can be the name of an element other than the root. -/
def IsInner (name : String) : Prop :=
  IsName name ∧ name ≠ "root"

instance (name : String) : Decidable (IsInner name) :=
  inferInstanceAs (Decidable (_ ∧ _))

theorem IsName.chars {name : String} (h : IsName name) :
    ∀ c ∈ name.toList, isNameChar c = true :=
  List.all_eq_true.mp h.2

/-- An attribute as it is written, with the name and the value that are read from it. -/
inductive Written : String → String × String → Prop where
  | intro {key value text : String} (name : IsName key)
      (encoded : Encodes value.toList text.toList) : Written (attr key value) (key, text)

/-- The reader has seen an opening tag up to here: an attribute may follow, or the end. -/
structure HasRead (mode : Mode) (tag : Tag) : Prop where
  more : step mode ' ' = some (.inside tag, [])
  done : step mode '>' = some (.between, [.opening tag])

theorem hasRead_opening (name : String) : HasRead (.opening name.toList) ⟨name, []⟩ := by
  constructor
  · simp [step, show isNameChar ' ' = false by decide, show isSpace ' ' = true by decide]
  · simp [step, show isNameChar '>' = false by decide, show isSpace '>' = false by decide]

theorem hasRead_quoted (tag : Tag) : HasRead (.quoted tag) tag := by
  constructor
  · simp [step, show isSpace ' ' = true by decide]
  · simp [step, show isSpace '>' = false by decide]

theorem scan_key (tag : Tag) {key : String} (h : IsName key) :
    scan (.inside tag) key.toList = some (.key tag key.toList, []) := by
  have chars := h.chars
  obtain ⟨nonempty, _⟩ := h
  cases hk : key.toList with
  | nil => exact absurd hk nonempty
  | cons c cs =>
      rw [hk] at chars
      have first : step (.inside tag) c = some (.key tag [c], []) := by
        simp [step, chars c List.mem_cons_self]
      have others := scan_run (.key tag) [c] cs fun d hd read => by
        simp [step, chars d (List.mem_cons_of_mem _ hd)]
      simp [scan, first, others]

theorem scan_name {name : String} (h : IsName name) :
    scan .bracket name.toList = some (.opening name.toList, []) := by
  have chars := h.chars
  obtain ⟨nonempty, _⟩ := h
  cases hn : name.toList with
  | nil => exact absurd hn nonempty
  | cons c cs =>
      rw [hn] at chars
      have char := chars c List.mem_cons_self
      have slash : c ≠ '/' := by rintro rfl; exact absurd char (by decide)
      have mark : c ≠ '?' := by rintro rfl; exact absurd char (by decide)
      have first : step .bracket c = some (.opening [c], []) := by
        simp [step, slash, mark, char]
      have others := scan_run .opening [c] cs fun d hd read => by
        simp [step, chars d (List.mem_cons_of_mem _ hd)]
      simp [scan, first, others]

theorem scan_value (tag : Tag) (key : List Char) {value text : List Char}
    (h : Encodes value text) :
    scan (.value tag key []) (value ++ ['"']) = some (.quoted (tag.add key text), []) := by
  have raw := scan_run (.value tag key) [] value fun c hc read => by
    simp [step, (h.inside c hc).1, (h.inside c hc).2]
  have quote : scan (.value tag key value) ['"'] = some (.quoted (tag.add key text), []) := by
    simp [scan, step, h.decode_eq]
  exact scan_append raw quote

theorem scan_attribute {mode : Mode} {tag : Tag} (start : HasRead mode tag) {part : String}
    {entry : String × String} (h : Written part entry) :
    scan mode (' ' :: part.toList) =
      some (.quoted { tag with attributes := tag.attributes ++ [entry] }, []) := by
  cases h with
  | @intro key value text name encoded =>
      have space : scan mode [' '] = some (.inside tag, []) := by
        simp [scan, start.more]
      have equals : scan (.key tag key.toList) ['=', '"'] =
          some (.value tag key.toList [], []) := by
        simp [scan, step, show isNameChar '=' = false by decide]
      have all := scan_append space (scan_append (scan_key tag name)
        (scan_append equals (scan_value tag key.toList encoded)))
      simpa [attr, Tag.add] using all

theorem scan_attributes {mode : Mode} {tag : Tag} (start : HasRead mode tag)
    {attributes : List String} {entries : List (String × String)}
    (h : List.Forall₂ Written attributes entries) :
    ∃ next, HasRead next { tag with attributes := tag.attributes ++ entries } ∧
      scan mode (attributes.flatMap fun part => ' ' :: part.toList) =
        some (next, []) := by
  induction h generalizing mode tag with
  | nil => exact ⟨mode, by simpa using start, by simp [scan]⟩
  | @cons part entry parts entries first rest ih =>
      obtain ⟨next, stands, others⟩ :=
        ih (hasRead_quoted { tag with attributes := tag.attributes ++ [entry] })
      refine ⟨next, by simpa using stands, ?_⟩
      exact scan_append (scan_attribute start first) others

theorem toList_intercalate_cons (first : String) (rest : List String) :
    (" ".intercalate (first :: rest)).toList =
      first.toList ++ rest.flatMap fun text => ' ' :: text.toList := by
  induction rest generalizing first with
  | nil => simp
  | cons second rest ih =>
      rw [String.intercalate_cons_cons, String.toList_append, String.toList_append, ih]
      simp

theorem scan_openTag {name : String} (h : IsName name) {attributes : List String}
    {entries : List (String × String)} (written : List.Forall₂ Written attributes entries) :
    scan .between (openTag name attributes).toList =
      some (.between, [.opening ⟨name, entries⟩]) := by
  have bracket : scan .between ['<'] = some (.bracket, []) := by simp [scan, step]
  obtain ⟨next, stands, inner⟩ := scan_attributes (hasRead_opening name) written
  have close : scan next ['>'] = some (.between, [.opening ⟨name, entries⟩]) := by
    have done := stands.done
    simp only [List.nil_append] at done
    simp [scan, done]
  have all := scan_append bracket (scan_append (scan_name h) (scan_append inner close))
  rw [openTag, String.toList_append, String.toList_append, toList_intercalate_cons]
  simpa using all

theorem scan_closeTag {name : String} (h : IsName name) :
    scan .between (closeTag name).toList = some (.between, [.closing name]) := by
  have bracket : scan .between ['<', '/'] = some (.closing [], []) := by simp [scan, step]
  have inner := scan_run .closing [] name.toList fun c hc read => by
    simp [step, h.chars c hc]
  have close : scan (.closing name.toList) ['>'] = some (.between, [.closing name]) := by
    simp [scan, step, show isNameChar '>' = false by decide]
  have all := scan_append bracket (scan_append inner close)
  simpa [closeTag] using all

theorem scan_declaration :
    scan .between declaration.toList = some (.between, [.declaration]) := by
  decide

end NassiChart.Document
