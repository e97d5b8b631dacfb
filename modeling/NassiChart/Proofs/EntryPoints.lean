import NassiChart.Proofs.PrintedLines
import NassiChart.Proofs.ReadAlike
import NassiChart.Proofs.Verdict

/-! # Whole exports and tree sections on their own

A tree section can be read inside of an export or as a list of lines.  The two entry points select
the lines and count their bytes in different ways, and still agree: what stands in front of the
section only moves the labels, what stands behind it does not count, and neither does the way in
which lines end.
-/

namespace NassiChart.Text

theorem intercalate_append_cons {α : Type} (sep : List α) (front : List (List α))
    (last next : List α) (rest : List (List α)) :
    sep.intercalate (front ++ last :: next :: rest) =
      sep.intercalate (front ++ [last]) ++ (sep ++ sep.intercalate (next :: rest)) := by
  induction front with
  | nil => simp
  | cons first front ih =>
      cases front with
      | nil => simp
      | cons second front =>
          simp only [List.cons_append, List.intercalate_cons_cons, List.append_assoc] at ih ⊢
          rw [ih]

end NassiChart.Text

namespace NassiChart.Export

open NassiChart.Text

/-- The range that lies `distance` bytes further on. -/
def Span.shift (distance : Nat) (span : Span) : Span where
  start := distance + span.start
  stop := distance + span.stop
  start_le_stop := Nat.add_le_add_left span.start_le_stop distance

/-- After this text a tree section is over: it is empty, or begins with a line feed and a blank
line. -/
def EndsSection (trailing : String) : Prop :=
  trailing = "" ∨ ∃ blank more : String, isBlank blank.toList = true ∧ '\n' ∉ blank.toList ∧
    (more = "" ∨ more.toList.head? = some '\n') ∧ trailing = "\n" ++ blank ++ more

theorem EndsSection.toList {trailing : String} (ends : EndsSection trailing) :
    trailing.toList = [] ∨ ∃ blank more, isBlank blank = true ∧ '\n' ∉ blank ∧
      (more = [] ∨ more.head? = some '\n') ∧ trailing.toList = '\n' :: (blank ++ more) := by
  rcases ends with rfl | ⟨blank, more, white, only, edge, rfl⟩
  · exact .inl rfl
  · refine .inr ⟨blank.toList, more.toList, white, only, ?_, by simp⟩
    exact edge.imp_left fun empty => by rw [empty]; rfl

/-- The lines that `parseLines` looks at. -/
def linesOf (lines : List String) : List Line :=
  Line.layOut 1 0 (lines.map String.toList)

/-- A line feed gets a carriage return in front of it. -/
def returned (c : Char) : List Char :=
  if c = '\n' then ['\r', '\n'] else [c]

/-- The source with all its lines ended by carriage return and line feed. -/
def withReturns (source : String) : String :=
  String.ofList (source.toList.flatMap returned)

theorem Line.ofRaw_newline (raw : List Char) (offset : Nat) :
    ofRaw (raw ++ ['\n']) offset = ofRaw raw offset := by
  have feed : dropEndWhile isTerminator (raw ++ ['\n']) = dropEndWhile isTerminator raw :=
    dropEndWhile_append_of_pos fun c member => by rw [List.mem_singleton.mp member]; rfl
  simp only [ofRaw, feed]

theorem Line.isBlank_ofRaw (raw : List Char) (offset : Nat) :
    (ofRaw raw offset).isBlank = Text.isBlank raw :=
  isBlank_dropTerminators raw

/-- A line feed ends a line and takes one byte, like the gap between lines on their own. -/
theorem layOut_rawLines_newline {line : List Char} (clean : '\n' ∉ line) (more : List Char)
    (offset : Nat) : Line.layOut 0 offset (rawLines (line ++ '\n' :: more)) =
      Line.ofRaw line offset :: Line.layOut 0 (offset + byteLength line + 1) (rawLines more) := by
  have length : byteLength (line ++ ['\n']) = byteLength line + 1 := byteLength_append line ['\n']
  rw [rawLines_append_newline clean, Line.layOut, Line.ofRaw_newline, length]
  rfl

/-- Lines that are laid out further on are the same lines with shifted ranges. -/
theorem forall₂_layOut_shift (distance gap offset : Nat) (raws : List (List Char)) :
    List.Forall₂ (fun line other => other.chars = line.chars ∧
      other.span = line.span.shift distance) (Line.layOut gap offset raws)
        (Line.layOut gap (distance + offset) raws) := by
  induction raws generalizing offset with
  | nil => exact .nil
  | cons raw raws ih =>
      refine .cons ⟨rfl, ?_⟩ ?_
      · simp only [Line.ofRaw, Span.between, Span.shift, Span.mk.injEq, true_and]
        omega
      · have next := ih (offset + byteLength raw + gap)
        rwa [← Nat.add_assoc, ← Nat.add_assoc] at next

/-- The section begins behind the first blank line. -/
theorem treeSection_after_header {header : List (List Char)} {separator : List Char}
    (filled : ∀ line ∈ header, isBlank line = false ∧ '\n' ∉ line)
    (apart : isBlank separator = true ∧ '\n' ∉ separator) (rest : List Char) (offset : Nat) :
    treeSection (Line.layOut 0 offset
        (rawLines (['\n'].intercalate (header ++ [separator]) ++ '\n' :: rest))) =
      (Line.layOut 0 (offset + byteLength (['\n'].intercalate (header ++ [separator])) + 1)
        (rawLines rest)).takeWhile (!·.isBlank) := by
  induction header generalizing offset with
  | nil =>
      rw [List.nil_append, List.intercalate_singleton, layOut_rawLines_newline apart.2, treeSection,
        List.dropWhile_cons, Line.isBlank_ofRaw, apart.1]
      rfl
  | cons line header ih =>
      obtain ⟨⟨here, clean⟩, later⟩ := List.forall_mem_cons.mp filled
      have first : ['\n'].intercalate (line :: header ++ [separator]) =
          line ++ '\n' :: ['\n'].intercalate (header ++ [separator]) := by
        cases header <;> simp
      have length : offset + byteLength line + 1 +
          byteLength (['\n'].intercalate (header ++ [separator])) = offset +
          byteLength (line ++ '\n' :: ['\n'].intercalate (header ++ [separator])) := by
        rw [byteLength_append]
        change _ = offset + (byteLength line + (1 + byteLength _))
        omega
      rw [first, List.append_assoc, List.cons_append, layOut_rawLines_newline clean, treeSection,
        List.dropWhile_cons, Line.isBlank_ofRaw, here, ← length]
      exact ih later (offset + byteLength line + 1)

/-- No section follows where a section ends. -/
theorem takeWhile_after_section {blank more : List Char} (white : isBlank blank = true)
    (clean : '\n' ∉ blank) (edge : more = [] ∨ more.head? = some '\n') (offset : Nat) :
    (Line.layOut 0 offset (rawLines (blank ++ more))).takeWhile (!·.isBlank) = [] := by
  have stop : ∀ lines, (Line.ofRaw blank offset :: lines).takeWhile (!·.isBlank) = [] := by
    intro lines
    rw [List.takeWhile_cons, Line.isBlank_ofRaw, white]
    rfl
  cases more with
  | nil =>
      rw [List.append_nil]
      by_cases empty : blank = []
      · rw [empty]
        rfl
      · rw [rawLines_of_notMem clean empty]
        exact stop []
  | cons c more =>
      have feed : c = '\n' := by simpa using edge
      rw [feed, layOut_rawLines_newline clean, stop]

/-- The lines of a section are the same in an export and on their own. -/
theorem takeWhile_layOut_joined {lines : List (List Char)} (clean : ∀ line ∈ lines, '\n' ∉ line)
    {trailing : List Char} (ends : trailing = [] ∨ ∃ blank more, isBlank blank = true ∧
      '\n' ∉ blank ∧ (more = [] ∨ more.head? = some '\n') ∧ trailing = '\n' :: (blank ++ more))
    (filled : lines ≠ []) (offset : Nat) :
    (Line.layOut 0 offset (rawLines (['\n'].intercalate lines ++ trailing))).takeWhile
        (!·.isBlank) =
      (Line.layOut 1 offset lines).takeWhile (!·.isBlank) := by
  induction lines generalizing offset with
  | nil => exact absurd rfl filled
  | cons line lines ih =>
      obtain ⟨here, later⟩ := List.forall_mem_cons.mp clean
      cases lines with
      | cons next lines =>
          have first : ['\n'].intercalate (line :: next :: lines) ++ trailing =
              line ++ '\n' :: (['\n'].intercalate (next :: lines) ++ trailing) := by simp
          rw [first, layOut_rawLines_newline here, Line.layOut, List.takeWhile_cons,
            List.takeWhile_cons, ih later (List.cons_ne_nil _ _)]
      | nil =>
          rw [List.intercalate_singleton]
          rcases ends with rfl | ⟨blank, more, white, only, edge, rfl⟩
          · rw [List.append_nil]
            by_cases empty : line = []
            · rw [empty]
              rfl
            · rw [rawLines_of_notMem here empty]
              rfl
          · rw [layOut_rawLines_newline here, Line.layOut, Line.layOut, List.takeWhile_cons,
              List.takeWhile_cons, takeWhile_after_section white only edge]
            rfl

/-- What is read of an export is read of the section on its own, further on by what stands in
front of it. -/
theorem treeSection_joined {header lines : List String} {separator trailing : String}
    (filled : ∀ line ∈ header, isBlank line.toList = false ∧ '\n' ∉ line.toList)
    (apart : isBlank separator.toList = true ∧ '\n' ∉ separator.toList)
    (clean : ∀ line ∈ lines, '\n' ∉ line.toList) (ends : EndsSection trailing) :
    treeSection (sourceLines ("\n".intercalate (header ++ separator :: lines) ++ trailing)) =
      (Line.layOut 1 ("\n".intercalate (header ++ [separator]) ++ "\n").utf8ByteSize
        (lines.map String.toList)).takeWhile (!·.isBlank) := by
  have filled' : ∀ line ∈ header.map String.toList, isBlank line = false ∧ '\n' ∉ line :=
    List.forall_mem_map.mpr filled
  have front : ("\n".intercalate (header ++ [separator]) ++ "\n").utf8ByteSize =
      0 + byteLength (['\n'].intercalate (header.map String.toList ++ [separator.toList])) + 1 := by
    rw [byteLength_eq, String.utf8ByteSize_append, Nat.zero_add]
    congr 2
    apply String.toList_inj.mp
    simp [String.toList_intercalate]
  cases lines with
  | cons line lines =>
      have whole : ("\n".intercalate (header ++ separator :: line :: lines) ++ trailing).toList =
          ['\n'].intercalate (header.map String.toList ++ [separator.toList]) ++ '\n' ::
            (['\n'].intercalate ((line :: lines).map String.toList) ++ trailing.toList) := by
        rw [String.toList_append, String.toList_intercalate, List.map_append, List.map_cons,
          List.map_cons]
        change ['\n'].intercalate _ ++ _ = _
        rw [intercalate_append_cons]
        simp
      rw [sourceLines, whole, treeSection_after_header filled' apart, ← front]
      exact takeWhile_layOut_joined (List.forall_mem_map.mpr clean) ends.toList
        (List.cons_ne_nil _ _) _
  | nil =>
      change _ = []
      rcases ends.toList with edge | ⟨blank, more, white, only, edge, rest⟩
      · have none : (treeSection (sourceLines ("\n".intercalate (header ++ [separator]) ++
            trailing))).map Line.chars = [] := by
          rw [← String.ofList_toList (s := _ ++ trailing), map_chars_treeSection,
            map_chars_sourceLines, String.toList_append, edge, List.append_nil,
            String.toList_intercalate, List.map_append]
          change (((lineTexts (['\n'].intercalate (_ ++ separator.toList :: []))).dropWhile _).drop
            1).takeWhile _ = []
          rw [Layout.lineTexts_after_header filled' apart]
          rfl
        exact List.map_eq_nil_iff.mp none
      · have whole : ("\n".intercalate (header ++ [separator]) ++ trailing).toList =
            ['\n'].intercalate (header.map String.toList ++ [separator.toList]) ++
              '\n' :: (blank ++ more) := by
          rw [String.toList_append, String.toList_intercalate, List.map_append, rest]
          rfl
        rw [sourceLines, whole, treeSection_after_header filled' apart]
        exact takeWhile_after_section white only edge _

/-- An export reads as its section on its own does, with labels that stand further on. -/
theorem parse_joined {header lines : List String} {separator trailing : String}
    (filled : ∀ line ∈ header, isBlank line.toList = false ∧ '\n' ∉ line.toList)
    (apart : isBlank separator.toList = true ∧ '\n' ∉ separator.toList)
    (clean : ∀ line ∈ lines, '\n' ∉ line.toList) (ends : EndsSection trailing) :
    SameResult (fun span other => other =
        span.shift ("\n".intercalate (header ++ [separator]) ++ "\n").utf8ByteSize)
      (parseLines lines)
      (parse ("\n".intercalate (header ++ separator :: lines) ++ trailing)) := by
  rw [parse, parseLines, treeSection_joined filled apart clean ends]
  refine sameResult_of_alike (reported_alike (readTree_alike keepText_keepsClass ?_))
  have shifted := forall₂_layOut_shift
    ("\n".intercalate (header ++ [separator]) ++ "\n").utf8ByteSize 1 0 (lines.map String.toList)
  have kept := forall₂_takeWhile (fun line other here =>
    congrArg (fun chars => !Text.isBlank chars) here.1) shifted
  exact kept.imp fun line other here => ⟨Line.readsLike_of_chars here.1, here.2⟩

theorem rawLines_withReturns (source : List Char) :
    rawLines (source.flatMap returned) = (rawLines source).map (·.flatMap returned) := by
  induction source with
  | nil => rfl
  | cons c source ih =>
      by_cases feed : c = '\n'
      · subst feed
        change consRaw '\r' (consRaw '\n' (rawLines (source.flatMap returned))) =
          (consRaw '\n' (rawLines source)).map (·.flatMap returned)
        rw [ih]
        rfl
      · have same : returned c = [c] := if_neg feed
        rw [List.flatMap_cons, same]
        change consRaw c (rawLines (source.flatMap returned)) =
          (consRaw c (rawLines source)).map (·.flatMap returned)
        rw [ih]
        unfold consRaw
        rw [if_neg feed, if_neg feed]
        cases rawLines source with
        | nil => simp [same]
        | cons raw raws => simp [same]

theorem flatMap_returned {line : List Char} (clean : '\n' ∉ line) :
    line.flatMap returned = line := by
  induction line with
  | nil => rfl
  | cons c line ih =>
      obtain ⟨other, clean⟩ := List.ne_and_not_mem_of_not_mem_cons clean
      rw [List.flatMap_cons, returned, if_neg other.symm, ih clean]
      rfl

/-- A carriage return in front of the line feed is dropped with it. -/
theorem dropEndWhile_withReturns {raw : List Char} (clean : '\n' ∉ raw.dropLast) :
    dropEndWhile Line.isTerminator (raw.flatMap returned) =
      dropEndWhile Line.isTerminator raw := by
  rcases List.eq_nil_or_concat raw with rfl | ⟨front, last, rfl⟩
  · rfl
  · rw [List.concat_eq_append] at clean ⊢
    rw [List.dropLast_concat] at clean
    rw [List.flatMap_append, flatMap_returned clean]
    by_cases feed : last = '\n'
    · subst feed
      change dropEndWhile _ (front ++ ['\r', '\n']) = _
      rw [dropEndWhile_append_of_pos (by simp [Line.isTerminator]),
        dropEndWhile_append_of_pos (by simp [Line.isTerminator])]
    · rw [List.flatMap_singleton, returned, if_neg feed]

theorem map_chars_withReturns (source : String) :
    (sourceLines (withReturns source)).map Line.chars = (sourceLines source).map Line.chars := by
  rw [withReturns, map_chars_sourceLines, ← String.ofList_toList (s := source),
    map_chars_sourceLines, String.toList_ofList, lineTexts, lineTexts, rawLines_withReturns,
    List.map_map]
  exact List.map_congr_left fun raw member =>
    dropEndWhile_withReturns (newline_notMem_rawLines member).2

theorem parse_withReturns (source : String) :
    SameResult (SameNumber (treeSection (sourceLines source))
      (treeSection (sourceLines (withReturns source))))
        (parse source) (parse (withReturns source)) := by
  have chars : (treeSection (sourceLines source)).map Line.chars =
      (treeSection (sourceLines (withReturns source))).map Line.chars := by
    rw [map_chars_treeSection, map_chars_treeSection, map_chars_withReturns]
  refine sameResult_of_alike (parse_alike keepText_keepsClass ?_)
  exact forall₂_of_map_eq_map chars fun line other _ same => Line.readsLike_of_chars same.symm

theorem getElem?_layOut (gap offset : Nat) (raws : List (List Char)) (number : Nat) :
    (Line.layOut gap offset raws)[number]? = raws[number]?.map fun raw =>
      Line.ofRaw raw (offset + byteLength (raws.take number).flatten + gap * number) := by
  induction raws generalizing offset number with
  | nil => rfl
  | cons raw raws ih =>
      cases number with
      | zero => simp [Line.layOut, byteLength]
      | succ number =>
          rw [Line.layOut, List.getElem?_cons_succ, List.getElem?_cons_succ, ih,
            List.take_succ_cons, List.flatten_cons, byteLength_append, Nat.mul_succ]
          congr 1
          funext other
          congr 1
          omega

theorem byteLength_flatMap_newline (lines : List (List Char)) :
    byteLength (lines.flatMap (· ++ ['\n'])) = byteLength lines.flatten + lines.length := by
  induction lines with
  | nil => rfl
  | cons line lines ih =>
      have feed : byteLength ['\n'] = 1 := rfl
      rw [List.flatMap_cons, List.flatten_cons, byteLength_append, byteLength_append,
        byteLength_append, ih, feed, List.length_cons]
      omega

/-- A line that is followed by the rest of the joined lines. -/
theorem exists_rest_of_joined (before : List (List Char)) (line : List Char)
    (after : List (List Char)) : ∃ rest, ['\n'].intercalate (before ++ line :: after) =
      before.flatMap (· ++ ['\n']) ++ (line ++ rest) := by
  induction before with
  | nil =>
      cases after with
      | nil => exact ⟨[], by simp⟩
      | cons next after => exact ⟨'\n' :: ['\n'].intercalate (next :: after), by simp⟩
  | cons first before ih =>
      obtain ⟨rest, joined⟩ := ih
      refine ⟨rest, ?_⟩
      have step : ['\n'].intercalate (first :: (before ++ line :: after)) =
          first ++ ['\n'] ++ ['\n'].intercalate (before ++ line :: after) := by
        cases before <;> simp
      rw [List.cons_append, step, joined, List.flatMap_cons]
      simp only [List.append_assoc]

/-- The range of a line cuts the string that it was made of, without its terminators, out of the
joined strings. -/
theorem cuts_linesOf {lines : List String} {number : Nat} {line : Line}
    (found : (linesOf lines)[number]? = some line) : ∃ text, lines[number]? = some text ∧
      line.span.Cuts ("\n".intercalate lines)
        (String.ofList (dropEndWhile Line.isTerminator text.toList)) := by
  rw [linesOf, getElem?_layOut, Option.map_eq_some_iff] at found
  obtain ⟨raw, there, rfl⟩ := found
  obtain ⟨text, there', rfl⟩ := Option.map_eq_some_iff.mp (List.getElem?_map .. ▸ there)
  obtain ⟨inside, same⟩ := List.getElem?_eq_some_iff.mp there
  obtain ⟨ends, parts, -⟩ := exists_ends text.toList 0
  let before := (lines.map String.toList).take number
  have split : lines.map String.toList =
      before ++ text.toList :: (lines.map String.toList).drop (number + 1) := by
    rw [← same, List.getElem_cons_drop, List.take_append_drop]
  obtain ⟨rest, joined⟩ := exists_rest_of_joined before text.toList
    ((lines.map String.toList).drop (number + 1))
  have whole : ("\n".intercalate lines).toList = before.flatMap (· ++ ['\n']) ++
      dropEndWhile Line.isTerminator text.toList ++ (ends ++ rest) := by
    rw [String.toList_intercalate]
    calc ['\n'].intercalate (lines.map String.toList)
        = before.flatMap (· ++ ['\n']) ++ (text.toList ++ rest) := by rw [split, joined]
      _ = before.flatMap (· ++ ['\n']) ++
            (dropEndWhile Line.isTerminator text.toList ++ ends ++ rest) :=
          congrArg (fun line => _ ++ (line ++ rest)) parts
      _ = _ := by simp only [List.append_assoc]
  have length : before.length = number := List.length_take_of_le (Nat.le_of_lt inside)
  have start : byteLength (before.flatMap (· ++ ['\n'])) = byteLength before.flatten + number := by
    rw [byteLength_flatMap_newline, length]
  refine ⟨text, there', Span.cuts_of_parts whole ?_ ?_⟩
  · rw [start]
    simp [Line.ofRaw, Span.between, before]
  · rw [byteLength_append, start]
    simp [Line.ofRaw, Span.between, before]

theorem exists_refused_of_parseLines {lines : List String} {error : ParseError}
    (failed : parseLines lines = .error error) : ∃ diagnostic code shown,
      error = ⟨[diagnostic]⟩ ∧ diagnostic.code = some code ∧
        Refused ((linesOf lines).takeWhile (!·.isBlank)) code shown ∧
          diagnostic.labels.map (fun label => (label.span, label.primary)) =
            shown.map (fun mark => (mark.1.span, mark.2)) := by
  rw [parseLines] at failed
  rcases accepted_or_refused ((linesOf lines).takeWhile (!·.isBlank)) with
    ⟨root, rest, whole, isRoot, nested⟩ | ⟨code, shown, refused⟩
  · obtain ⟨treeLines, cursor, tree, ran, -⟩ := readTree_of_isRoot isRoot nested
    rw [linesOf] at whole
    rw [whole, ran] at failed
    cases failed
  · obtain ⟨fault, stopped, same, labels⟩ := refused.readTree
    rw [linesOf] at stopped
    rw [stopped] at failed
    exact ⟨fault.diagnostic, code, shown, (Except.error.inj failed).symm, same, refused, labels⟩

/-- The two ways to read a tree section agree.  An export reads as its section does on its own,
whatever its header and whatever follows the section, and the labels only stand further on by what
is in front of the section.  Line ends do not matter.  And whatever strings are read as lines, each
label of an error cuts the string that is at fault out of the joined strings. -/
theorem entry_points_agree :
    (∀ (header : List String) (separator : String) (lines : List String) (trailing : String),
      (∀ line ∈ header, isBlank line.toList = false ∧ '\n' ∉ line.toList) →
      isBlank separator.toList = true ∧ '\n' ∉ separator.toList →
      (∀ line ∈ lines, '\n' ∉ line.toList) → EndsSection trailing →
      SameResult (fun span other => other =
          span.shift ("\n".intercalate (header ++ [separator]) ++ "\n").utf8ByteSize)
        (parseLines lines)
        (parse ("\n".intercalate (header ++ separator :: lines) ++ trailing))) ∧
    (∀ source, SameResult (SameNumber (treeSection (sourceLines source))
      (treeSection (sourceLines (withReturns source))))
        (parse source) (parse (withReturns source))) ∧
    (∀ lines error, parseLines lines = .error error → ∃ diagnostic code shown,
      error = ⟨[diagnostic]⟩ ∧ diagnostic.code = some code ∧
        Refused ((linesOf lines).takeWhile (!·.isBlank)) code shown ∧
        List.Forall₂ (fun label (mark : Line × Bool) => label.primary = mark.2 ∧
          ∃ (number : Nat) (text : String),
            (linesOf lines)[number]? = some mark.1 ∧ lines[number]? = some text ∧
            label.span.Cuts ("\n".intercalate lines)
              (String.ofList (dropEndWhile Line.isTerminator text.toList)))
          diagnostic.labels shown) := by
  refine ⟨fun header separator lines trailing filled apart clean ends =>
    parse_joined filled apart clean ends, parse_withReturns, ?_⟩
  intro lines error failed
  obtain ⟨diagnostic, code, shown, whole, same, refused, labels⟩ :=
    exists_refused_of_parseLines failed
  refine ⟨diagnostic, code, shown, whole, same, refused,
    forall₂_of_map_eq_map labels fun label mark member equal => ?_⟩
  obtain ⟨span, primary⟩ := Prod.mk.inj equal
  have inside : mark.1 ∈ linesOf lines :=
    (List.takeWhile_sublist _).mem (refused.shown_mem mark member)
  obtain ⟨number, found⟩ := List.mem_iff_getElem?.mp inside
  obtain ⟨text, there, cuts⟩ := cuts_linesOf found
  exact ⟨primary, number, text, found, there, span ▸ cuts⟩

/-- A section with two roots, the first on a line that ends in a carriage return. -/
def twoRoots : List String := ["+--<Ä> ::= x\r", "+--<b>"]

theorem entry_points_agree_two_roots : EndsSection "\n \nrest" ∧
    SameResult (fun span other => other = span.shift 7) (parseLines twoRoots)
      (parse "Kopf\n\t\n+--<Ä> ::= x\r\n+--<b>\n \nrest") ∧
    ∃ error diagnostic code shown, parseLines twoRoots = .error error ∧ error = ⟨[diagnostic]⟩ ∧
      diagnostic.code = some code ∧
      Refused ((linesOf twoRoots).takeWhile (!·.isBlank)) code shown := by
  have ends : EndsSection "\n \nrest" :=
    .inr ⟨" ", "\nrest", by decide, by decide, .inr (by decide), by decide⟩
  have joined := entry_points_agree.1 ["Kopf"] "\t" twoRoots "\n \nrest"
    (by decide) (by decide) (by decide) ends
  have whole : "\n".intercalate (["Kopf"] ++ "\t" :: twoRoots) ++ "\n \nrest" =
      "Kopf\n\t\n+--<Ä> ::= x\r\n+--<b>\n \nrest" := by decide
  have front : ("\n".intercalate (["Kopf"] ++ ["\t"]) ++ "\n").utf8ByteSize = 7 := by decide
  rw [whole, front] at joined
  have failed : parseLines twoRoots = .error ⟨[(Fault.secondRoot ⟨15, 21, by decide⟩ 0
      ⟨0, 13, by decide⟩).diagnostic]⟩ := by decide +kernel
  obtain ⟨diagnostic, code, shown, one, same, refused, -⟩ := entry_points_agree.2.2 _ _ failed
  exact ⟨ends, joined, _, diagnostic, code, shown, failed, one, same, refused⟩

end NassiChart.Export
