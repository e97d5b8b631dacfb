import NassiChart.Convert
import NassiChart.Proofs.PrintedLines
import NassiChart.Proofs.ReadAlike
import NassiChart.Proofs.Verdict

/-! # Only left-hand sides count

Of a production only the name on its left-hand side is used.  Where every production is cut down to
its name in brackets, no statement of the diagram and no byte of the document changes; and in an
export the lines that are cut down are read as the tree that is cut down, or are refused as before.
-/

namespace NassiChart.Grammar

open NassiChart.Text

/-- A production by its name alone, in brackets. -/
def nameOnly (expression : Bool) (text : String) : String :=
  if expression then "<" ++ productionName text ++ ">" else text

/-- The tree with every production cut down to its name. -/
def Tree.withoutBodies (tree : Tree) : Tree :=
  tree.retext nameOnly

def separator : List Char := [':', ':', '=']

theorem leftHandSide_isPrefix (cs : List Char) : leftHandSide cs <+: cs := by
  induction cs with
  | nil => exact List.prefix_rfl
  | cons c cs ih =>
      unfold leftHandSide
      split
      · exact List.nil_prefix
      · rename_i same
        obtain ⟨rfl, rfl⟩ := List.cons.inj same
        exact List.cons_prefix_cons.mpr ⟨rfl, ih⟩
      · exact List.nil_prefix

theorem leftHandSide_of_not_isInfix {cs : List Char} (absent : ¬ separator <:+: cs) :
    leftHandSide cs = cs := by
  induction cs with
  | nil => rfl
  | cons c cs ih =>
      have later : ¬ separator <:+: cs := fun inside => absent (List.infix_cons inside)
      unfold leftHandSide
      split
      · rename_i rest same
        have front : separator <+: c :: cs := ⟨rest, same.symm⟩
        exact absurd front.isInfix absent
      · rename_i same
        obtain ⟨rfl, rfl⟩ := List.cons.inj same
        rw [ih later]
      · rename_i same
        cases same

theorem not_isInfix_leftHandSide (cs : List Char) : ¬ separator <:+: leftHandSide cs := by
  induction cs with
  | nil => decide
  | cons c cs ih =>
      unfold leftHandSide
      split
      · decide
      · rename_i other same
        obtain ⟨rfl, rfl⟩ := List.cons.inj same
        rw [List.infix_cons_iff]
        rintro (first | later)
        · have front : c :: leftHandSide cs <+: c :: cs :=
            List.cons_prefix_cons.mpr ⟨rfl, leftHandSide_isPrefix cs⟩
          obtain ⟨rest, whole⟩ := first.trans front
          obtain ⟨colon, further⟩ := List.cons.inj whole.symm
          exact other rest colon further
        · exact ih later
      · decide

theorem dropOpening_isSuffix (cs : List Char) : dropOpening cs <:+ cs := by
  unfold dropOpening
  split
  · exact List.suffix_cons _ _
  · exact List.suffix_rfl

theorem dropClosing_isPrefix (cs : List Char) : dropClosing cs <+: cs := by
  unfold dropClosing
  split
  · exact List.dropLast_prefix cs
  · exact List.prefix_rfl

theorem trim_isInfix (cs : List Char) : trim cs <:+: cs :=
  (List.rdropWhile_prefix isWhite _).isInfix.trans (List.dropWhile_suffix isWhite).isInfix

/-- A name is a part of the left-hand side that it is read from. -/
theorem productionName_isInfix (text : String) :
    (productionName text).toList <:+: leftHandSide text.toList := by
  rw [productionName, String.toList_ofList]
  exact (dropClosing_isPrefix _).isInfix.trans
    ((dropOpening_isSuffix _).isInfix.trans (trim_isInfix _))

/-- Text in brackets is not trimmed. -/
theorem trim_bracketed (name : List Char) :
    trim ('<' :: (name ++ ['>'])) = '<' :: (name ++ ['>']) := by
  have opening : isWhite '<' = false := by decide
  have closing : isWhite '>' = false := by decide
  rw [trim, List.dropWhile_cons_of_neg (by simp [opening]), ← List.cons_append,
    dropEndWhile_append_cons closing]
  rfl

/-- A name in brackets is the name of itself. -/
theorem productionName_bracketed (text : String) :
    productionName ("<" ++ productionName text ++ ">") = productionName text := by
  have chars : ("<" ++ productionName text ++ ">").toList =
      '<' :: ((productionName text).toList ++ ['>']) := by simp
  have absent : ¬ separator <:+: '<' :: ((productionName text).toList ++ ['>']) := by
    rw [List.infix_cons_iff, List.infix_concat_iff]
    rintro (first | last | inside)
    · have same := (List.cons_prefix_cons.mp first).1
      cases same
    · obtain ⟨front, whole⟩ := last
      have same := congrArg List.getLast? whole
      simp [separator] at same
    · exact not_isInfix_leftHandSide _ (inside.trans (productionName_isInfix text))
  have name : dropClosing (dropOpening (trim (leftHandSide
      ("<" ++ productionName text ++ ">").toList))) = (productionName text).toList := by
    rw [chars, leftHandSide_of_not_isInfix absent, trim_bracketed]
    simp [dropOpening, dropClosing]
  rw [productionName, name, String.ofList_toList]

theorem namesProduction_bracketed (name : List Char) :
    namesProduction ('<' :: (name ++ ['>'])) = true := by
  cases name <;> rfl

theorem nameOnly_keepsClass : KeepsClass nameOnly := by
  intro text
  cases names : namesProduction text.toList with
  | true =>
      have chars : (nameOnly true text).toList =
          '<' :: ((productionName text).toList ++ ['>']) := by simp [nameOnly]
      rw [chars, namesProduction_bracketed]
  | false => exact names

@[simp] theorem Node.label_withoutBody (node : Node) :
    (node.retext nameOnly).label = node.label := by
  rw [label, label, retext_isExpression]
  cases form : node.isExpression with
  | true => simp [retext, nameOnly, form, productionName_bracketed]
  | false => simp [retext, nameOnly, form]

/-- What a diagram is made from stays. -/
theorem Tree.outline_withoutBodies (tree : Tree) : tree.withoutBodies.outline = tree.outline := by
  have labels : tree.withoutBodies.label = tree.label := by
    funext id
    simp [label, withoutBodies, Function.comp_def]
  rw [outline, outline, labels, withoutBodies, shape_retext]

end NassiChart.Grammar

namespace NassiChart.Diagram

open NassiChart.Grammar

theorem build_withoutBodies (tree : Tree) : build tree.withoutBodies = build tree := by
  rw [build, build, ofTree, ofTree, Tree.outline_withoutBodies]

end NassiChart.Diagram

namespace NassiChart.Export

open NassiChart.Text NassiChart.Grammar NassiChart.Document

/-- A line without its terminators, cut down to the name of its production.  Lines that hold no
production stay. -/
def cutText (line : List Char) : List Char :=
  match line.dropWhile isMarker with
  | '+' :: '-' :: '-' :: rest =>
    if namesProduction (trim rest) then
      line.takeWhile isMarker ++ '+' :: '-' :: '-' :: '<' ::
        ((productionName (String.ofList (trim rest))).toList ++ ['>'])
    else line
  | _ => line

/-- A line that is cut down and keeps its terminators. -/
def cutLine (raw : List Char) : List Char :=
  cutText (dropEndWhile Line.isTerminator raw) ++ raw.rtakeWhile Line.isTerminator

/-- The lines of an export, with those of the tree section cut down. -/
def cutSection (raws : List (List Char)) : List (List Char) :=
  let behind := raws.dropWhile (!isBlank ·)
  raws.takeWhile (!isBlank ·) ++ (behind.take 1 ++
    (((behind.drop 1).takeWhile (!isBlank ·)).map cutLine ++
      (behind.drop 1).dropWhile (!isBlank ·)))

/-- The export with every production of its tree cut down to its name. -/
def withoutBodies (source : String) : String :=
  String.ofList (cutSection (rawLines source.toList)).flatten

theorem cutText_of_reads {line : Line} {level : Nat} {text : List Char}
    (reads : line.Reads level text) : ∃ markers rest,
      (∀ c ∈ markers, c = '|' ∨ c = ' ' ∨ c = '\t') ∧ level = markers.count '|' ∧
        text = trim rest ∧ line.chars = markers ++ '+' :: '-' :: '-' :: rest ∧
          cutText line.chars = if namesProduction text then
            markers ++ '+' :: '-' :: '-' :: '<' ::
              ((productionName (String.ofList text)).toList ++ ['>'])
          else line.chars := by
  obtain ⟨markers, rest, marked, chars, count, trimmed⟩ := reads
  have all : ∀ c ∈ markers, isMarker c = true := fun c member => isMarker_iff.mpr (marked c member)
  have stop : isMarker '+' = false := by decide
  refine ⟨markers, rest, marked, count, trimmed, chars, ?_⟩
  rw [cutText, chars, List.dropWhile_append_of_pos all, List.takeWhile_append_of_pos all,
    List.dropWhile_cons_of_neg (by simp [stop]), List.takeWhile_cons_of_neg (by simp [stop]),
    trimmed, List.append_nil]
  rfl

theorem cutText_of_not_reads {line : Line} (unread : ∀ level text, ¬ line.Reads level text) :
    cutText line.chars = line.chars := by
  have missing := ofLine?_eq_none_iff.mpr unread
  unfold TreeLine.ofLine? at missing
  split at missing
  · cases missing
  · rename_i other
    unfold cutText
    split
    · rename_i rest separated
      exact absurd separated (other rest)
    · rfl

/-- A line that is cut down reads as the node that is cut down. -/
theorem Line.readsLike_of_cutText {line other : Line} (cut : other.chars = cutText line.chars) :
    line.ReadsLike nameOnly other := by
  cases found : TreeLine.ofLine? line with
  | none =>
      rw [cutText_of_not_reads (ofLine?_eq_none_iff.mp found)] at cut
      have missing : line.levelText? = none := by rw [levelText?, found]; rfl
      rw [ReadsLike, levelText?_of_chars cut, missing]
      rfl
  | some treeLine =>
      have reads := (reads_of_ofLine? found).1
      obtain ⟨markers, rest, marked, count, trimmed, chars, cutDown⟩ := cutText_of_reads reads
      rw [cutDown] at cut
      rw [ReadsLike, reads.levelText?, Option.map_some, String.ofList_toList]
      cases names : namesProduction treeLine.text.toList with
      | true =>
          rw [names, if_pos rfl, String.ofList_toList] at cut
          have again : other.Reads treeLine.level
              ('<' :: ((productionName treeLine.text).toList ++ ['>'])) :=
            ⟨markers, _, marked, cut, count, (trim_bracketed _).symm⟩
          have bracketed : String.ofList ('<' :: ((productionName treeLine.text).toList ++ ['>'])) =
              nameOnly true treeLine.text := by
            apply String.toList_inj.mp
            simp [nameOnly]
          rw [again.levelText?, bracketed]
      | false =>
          rw [names, if_neg (by decide)] at cut
          rw [levelText?_of_chars cut, reads.levelText?, String.ofList_toList]
          rfl

/-- Only the last line may have no line feed at its end, and no line has one before. -/
structure AreLines (raws : List (List Char)) : Prop where
  whole : ∀ raw ∈ raws, raw ≠ [] ∧ '\n' ∉ raw.dropLast
  ended : ∀ raw ∈ raws.dropLast, raw.getLast? = some '\n'

theorem areLines_rawLines (source : List Char) : AreLines (rawLines source) :=
  ⟨fun _ => newline_notMem_rawLines, fun _ => getLast?_of_mem_dropLast_rawLines⟩

/-- Lines that are put together are cut into these lines again. -/
theorem AreLines.rawLines_flatten {raws : List (List Char)} (lines : AreLines raws) :
    rawLines raws.flatten = raws := by
  induction raws with
  | nil => rfl
  | cons raw raws ih =>
      obtain ⟨⟨filled, clean⟩, later⟩ := List.forall_mem_cons.mp lines.whole
      obtain ⟨front, last, rfl⟩ := (List.eq_nil_or_concat raw).resolve_left filled
      rw [List.concat_eq_append] at clean ⊢
      rw [List.dropLast_concat] at clean
      cases raws with
      | nil =>
          by_cases feed : last = '\n'
          · rw [feed, List.flatten_cons, List.append_assoc]
            exact rawLines_append_newline clean _
          · rw [List.flatten_singleton]
            refine rawLines_of_notMem ?_ (by simp)
            simp [clean, Ne.symm feed]
      | cons next raws =>
          have ended := lines.ended
          rw [List.dropLast_cons_cons] at ended
          obtain ⟨first, rest⟩ := List.forall_mem_cons.mp ended
          have feed : last = '\n' := by simpa using first
          rw [feed, List.flatten_cons, List.append_assoc, List.singleton_append,
            rawLines_append_newline clean, ih ⟨later, rest⟩]

/-- What is cut down is no production, or keeps what stands in front of it. -/
theorem cutText_cases (line : List Char) : cutText line = line ∨ ∃ markers rest name,
    line = markers ++ '+' :: '-' :: '-' :: rest ∧ name <:+: rest ∧
      cutText line = markers ++ '+' :: '-' :: '-' :: '<' :: (name ++ ['>']) := by
  unfold cutText
  split
  · rename_i rest separated
    split
    · right
      refine ⟨line.takeWhile isMarker, rest, (productionName (String.ofList (trim rest))).toList,
        ?_, ?_, rfl⟩
      · rw [← separated, List.takeWhile_append_dropWhile]
      · have inside := productionName_isInfix (String.ofList (trim rest))
        rw [String.toList_ofList] at inside
        exact inside.trans ((leftHandSide_isPrefix _).isInfix.trans (trim_isInfix rest))
    · exact .inl rfl
  · exact .inl rfl

theorem isBlank_cutLine (raw : List Char) : isBlank (cutLine raw) = isBlank raw := by
  obtain ⟨white, stop⟩ : (∀ c ∈ raw.rtakeWhile Line.isTerminator, isWhite c = true) ∧
      isWhite '+' = false :=
    ⟨fun c member => isWhite_of_isTerminator (List.mem_rtakeWhile_imp member), by decide⟩
  have ends : (raw.rtakeWhile Line.isTerminator).all isWhite = true := List.all_eq_true.mpr white
  rw [cutLine, isBlank, List.all_append, ends, Bool.and_true, ← isBlank_dropTerminators raw]
  rcases cutText_cases (dropEndWhile Line.isTerminator raw) with
    same | ⟨markers, rest, name, whole, -, cut⟩
  · rw [same]
    rfl
  · rw [cut, whole]
    simp [isBlank, stop]

/-- The terminators of a line are dropped whether it is cut down or not. -/
theorem dropEndWhile_cutLine (raw : List Char) : dropEndWhile Line.isTerminator (cutLine raw) =
    cutText (dropEndWhile Line.isTerminator raw) := by
  rw [cutLine, dropEndWhile_append_of_pos fun c member => List.mem_rtakeWhile_imp member]
  rcases cutText_cases (dropEndWhile Line.isTerminator raw) with
    same | ⟨markers, rest, name, -, -, cut⟩
  · rw [same]
    exact List.rdropWhile_idempotent Line.isTerminator raw
  · have closing : Line.isTerminator '>' = false := by decide
    have whole : markers ++ '+' :: '-' :: '-' :: '<' :: (name ++ ['>']) =
        (markers ++ '+' :: '-' :: '-' :: '<' :: name) ++ ['>'] := by simp
    rw [cut, whole, dropEndWhile_append_cons closing]
    rfl

theorem cutText_ne_nil {line : List Char} (filled : line ≠ []) : cutText line ≠ [] := by
  rcases cutText_cases line with same | ⟨markers, rest, name, -, -, cut⟩
  · rwa [same]
  · rw [cut]
    simp

theorem newline_notMem_cutText {line : List Char} (clean : '\n' ∉ line) : '\n' ∉ cutText line := by
  rcases cutText_cases line with same | ⟨markers, rest, name, whole, inside, cut⟩
  · rwa [same]
  · rw [whole] at clean
    rw [cut]
    have outside : '\n' ∉ name := fun member => clean (by simp [inside.subset member])
    simp_all

/-- A line that is cut down is ended as before. -/
theorem cutLine_isLine {raw : List Char} (filled : raw ≠ []) (clean : '\n' ∉ raw.dropLast) :
    cutLine raw ≠ [] ∧ '\n' ∉ (cutLine raw).dropLast ∧
      (raw.getLast? = some '\n' → (cutLine raw).getLast? = some '\n') := by
  obtain ⟨ends, parts, -, last⟩ := exists_ends raw 0
  have rest : raw.rtakeWhile Line.isTerminator = ends := by
    have same : raw.rdropWhile Line.isTerminator ++ raw.rtakeWhile Line.isTerminator =
        raw.rdropWhile Line.isTerminator ++ ends := List.rdropWhile_append_rtakeWhile.trans parts
    exact List.append_cancel_left same
  change raw = dropEndWhile Line.isTerminator raw ++ ends at parts
  have whole : '\n' ∉ dropEndWhile Line.isTerminator raw :=
    newline_notMem_of_ends (parts ▸ clean) last
  have cut : '\n' ∉ cutText (dropEndWhile Line.isTerminator raw) :=
    newline_notMem_cutText whole
  rw [cutLine, rest]
  cases ends with
  | nil =>
      rw [List.append_nil] at parts
      rw [← parts] at cut whole ⊢
      rw [List.append_nil]
      exact ⟨cutText_ne_nil filled, fun inside => cut (List.dropLast_subset _ inside),
        fun ended => absurd (List.mem_of_getLast? ended) whole⟩
  | cons c ends =>
      rw [parts, List.dropLast_append_of_ne_nil (List.cons_ne_nil _ _)] at clean
      refine ⟨by simp, ?_, ?_⟩
      · rw [List.dropLast_append_of_ne_nil (List.cons_ne_nil _ _)]
        rintro inside
        rcases List.mem_append.mp inside with early | late
        · exact cut early
        · exact clean (List.mem_append_right _ late)
      · intro ended
        rw [parts, List.getLast?_append] at ended
        rw [List.getLast?_append]
        simpa using ended

/-- The lines of the tree section may be cut down, and the others stay. -/
theorem forall₂_cutSection (raws : List (List Char)) :
    List.Forall₂ (fun raw other => other = raw ∨ other = cutLine raw) raws (cutSection raws) := by
  have kept : ∀ part : List (List Char),
      List.Forall₂ (fun raw other => other = raw ∨ other = cutLine raw) part part :=
    fun part => List.forall₂_same.mpr fun raw _ => .inl rfl
  have parts : raws = raws.takeWhile (!isBlank ·) ++ ((raws.dropWhile (!isBlank ·)).take 1 ++
      (((raws.dropWhile (!isBlank ·)).drop 1).takeWhile (!isBlank ·) ++
        ((raws.dropWhile (!isBlank ·)).drop 1).dropWhile (!isBlank ·))) := by
    rw [List.takeWhile_append_dropWhile, List.take_append_drop, List.takeWhile_append_dropWhile]
  have cut : List.Forall₂ (fun raw other => other = raw ∨ other = cutLine raw)
      (((raws.dropWhile (!isBlank ·)).drop 1).takeWhile (!isBlank ·))
      ((((raws.dropWhile (!isBlank ·)).drop 1).takeWhile (!isBlank ·)).map cutLine) :=
    List.forall₂_map_right_iff.mpr (List.forall₂_same.mpr fun raw _ => .inr rfl)
  conv => arg 2; rw [parts]
  exact List.rel_append (kept _) (List.rel_append (kept _) (List.rel_append cut (kept _)))

theorem forall_mem_of_forall₂ {α β : Type} {related : α → β → Prop} {P : α → Prop} {Q : β → Prop}
    {xs : List α} {ys : List β} (each : List.Forall₂ related xs ys)
    (carries : ∀ x y, related x y → P x → Q y) (all : ∀ x ∈ xs, P x) : ∀ y ∈ ys, Q y := by
  induction each with
  | nil => exact List.forall_mem_nil _
  | @cons x y _ _ here _ ih =>
      obtain ⟨first, rest⟩ := List.forall_mem_cons.mp all
      exact List.forall_mem_cons.mpr ⟨carries x y here first, ih rest⟩

theorem AreLines.cutSection {raws : List (List Char)} (lines : AreLines raws) :
    AreLines (cutSection raws) := by
  have each := forall₂_cutSection raws
  refine ⟨forall_mem_of_forall₂ each ?_ lines.whole, ?_⟩
  · rintro raw _ (rfl | rfl) ⟨filled, clean⟩
    · exact ⟨filled, clean⟩
    · exact ⟨(cutLine_isLine filled clean).1, (cutLine_isLine filled clean).2.1⟩
  · have early := List.forall₂_take (raws.length - 1) each
    rw [← List.dropLast_eq_take, each.length_eq, ← List.dropLast_eq_take] at early
    have both : ∀ raw ∈ raws.dropLast,
        (raw ≠ [] ∧ '\n' ∉ raw.dropLast) ∧ raw.getLast? = some '\n' :=
      fun raw member => ⟨lines.whole raw (List.dropLast_subset _ member), lines.ended raw member⟩
    refine forall_mem_of_forall₂ early ?_ both
    rintro raw _ (rfl | rfl) ⟨⟨filled, clean⟩, ended⟩
    · exact ended
    · exact (cutLine_isLine filled clean).2.2 ended

/-- The tree section of lines, whatever they are. -/
theorem section_cutSection (raws : List (List Char)) :
    (((cutSection raws).dropWhile (!isBlank ·)).drop 1).takeWhile (!isBlank ·) =
      (((raws.dropWhile (!isBlank ·)).drop 1).takeWhile (!isBlank ·)).map cutLine := by
  have front : ∀ raw ∈ raws.takeWhile (!isBlank ·), (!isBlank raw) = true :=
    fun raw member => List.mem_takeWhile_imp (p := (!isBlank ·)) member
  rw [cutSection, List.dropWhile_append_of_pos front]
  have stops := List.head?_dropWhile_not (!isBlank ·) raws
  cases found : raws.dropWhile (!isBlank ·) with
  | nil => rfl
  | cons blank rest =>
      rw [found] at stops
      have cut : ∀ raw ∈ (rest.takeWhile (!isBlank ·)).map cutLine, (!isBlank raw) = true := by
        intro raw member
        obtain ⟨line, inside, rfl⟩ := List.mem_map.mp member
        rw [isBlank_cutLine]
        exact List.mem_takeWhile_imp (p := (!isBlank ·)) inside
      have exhausted : (rest.dropWhile (!isBlank ·)).takeWhile (!isBlank ·) = [] := by
        have first := List.head?_dropWhile_not (!isBlank ·) rest
        cases behind : rest.dropWhile (!isBlank ·) with
        | nil => rfl
        | cons line more =>
            rw [behind] at first
            exact List.takeWhile_cons_of_neg (by simpa using first)
      rw [List.take_succ_cons, List.take_zero, List.singleton_append,
        List.dropWhile_cons_of_neg (by simpa using stops), List.drop_succ_cons, List.drop_zero,
        List.drop_succ_cons, List.drop_zero, List.takeWhile_append_of_pos cut,
        exhausted, List.append_nil]

/-- The tree section of an export that is cut down is the tree section, cut down. -/
theorem readsLike_withoutBodies (source : String) :
    List.Forall₂ (Line.ReadsLike nameOnly) (treeSection (sourceLines source))
      (treeSection (sourceLines (withoutBodies source))) := by
  have blank : ((!isBlank ·) ∘ dropEndWhile Line.isTerminator) = (!isBlank ·) := by
    funext raw
    exact congrArg not (isBlank_dropTerminators raw)
  have texts : ∀ source : List Char,
      (treeSection (sourceLines (String.ofList source))).map Line.chars =
        ((((rawLines source).dropWhile (!isBlank ·)).drop 1).takeWhile (!isBlank ·)).map
          (dropEndWhile Line.isTerminator) := by
    intro source
    rw [map_chars_treeSection, map_chars_sourceLines, lineTexts, List.dropWhile_map,
      ← List.map_drop, List.takeWhile_map, blank]
  have cut : (treeSection (sourceLines (withoutBodies source))).map Line.chars =
      (treeSection (sourceLines source)).map (cutText ∘ Line.chars) := by
    have lines := (areLines_rawLines source.toList).cutSection.rawLines_flatten
    have whole := texts source.toList
    rw [String.ofList_toList] at whole
    rw [withoutBodies, texts, lines, section_cutSection, ← List.map_map, whole, List.map_map,
      List.map_map]
    exact List.map_congr_left fun raw _ => dropEndWhile_cutLine raw
  exact forall₂_of_map_eq_map cut.symm fun line other _ same => Line.readsLike_of_cutText same.symm

theorem parse_withoutBodies (source : String) :
    ResultsAlike nameOnly (SameNumber (treeSection (sourceLines source))
      (treeSection (sourceLines (withoutBodies source)))) (parse source)
        (parse (withoutBodies source)) :=
  parse_alike nameOnly_keepsClass (readsLike_withoutBodies source)

theorem convert_withoutBodies (options : Options) (source document : String) :
    convert options source = .ok document ↔
      convert options (withoutBodies source) = .ok document := by
  rcases parse_withoutBodies source with ⟨tree, read, read'⟩ | ⟨_, _, refused, refused', -⟩
  · have built : Diagram.build (tree.retext nameOnly) = Diagram.build tree :=
      Diagram.build_withoutBodies tree
    simp only [convert, read, read', built]
  · simp [convert, refused, refused']

/-- A tree whose productions are cut down to their names has the same shape and makes the same
diagram and the same document.  An export in which they are cut down is read as that tree and
converted to the same document, or is refused in the same words for the line of the same number. -/
theorem right_hand_sides_do_not_count :
    (∀ tree : Tree, tree.withoutBodies.shape = tree.shape ∧
      Diagram.build tree.withoutBodies = Diagram.build tree ∧
        ∀ options, render options (Diagram.build tree.withoutBodies) =
          render options (Diagram.build tree)) ∧
    ∀ source : String,
      ResultsAlike nameOnly (SameNumber (treeSection (sourceLines source))
        (treeSection (sourceLines (withoutBodies source)))) (parse source)
          (parse (withoutBodies source)) ∧
      ∀ options document, convert options source = .ok document ↔
        convert options (withoutBodies source) = .ok document := by
  refine ⟨fun tree => ⟨Tree.shape_retext tree, Diagram.build_withoutBodies tree, fun options => ?_⟩,
    fun source => ⟨parse_withoutBodies source, fun options document =>
      convert_withoutBodies options source document⟩⟩
  rw [Diagram.build_withoutBodies]

/-- Cut at the first `::=`, and put in brackets where the closing one was missing. -/
example : withoutBodies "grammar\n\n+-- <if ::= <x> ::= y  \r\n| +--( )\n\n+--<z> ::= y" =
    "grammar\n\n+--<if>\r\n| +--( )\n\n+--<z> ::= y" := by
  decide +kernel

end NassiChart.Export
