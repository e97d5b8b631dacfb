import Mathlib.Data.List.Basic
import Mathlib.Data.List.TakeDrop
import Mathlib.Data.List.TakeWhile
import NassiChart.Cli.Run

/-! # The names of output files

A path is its names, and `join` puts one name more at their end.  A file name is cut at its last dot
only, so a stem can hold a dot, and then the extension of a document is put in place of the end of
the stem: `outputName_eq` gives the name that is written for every input.
-/

namespace NassiChart.Files

theorem cutAtSlashes_cons (c : Char) (cs : List Char) :
    cutAtSlashes (c :: cs) = consName c (cutAtSlashes cs) := rfl

theorem consName_of_ne {c : Char} (other : c ≠ '/') (name : List Char) (rest : List (List Char)) :
    consName c (name :: rest) = (c :: name) :: rest := by
  simp only [consName, other, if_false]

theorem cutAtSlashes_ne_nil (cs : List Char) : cutAtSlashes cs ≠ [] := by
  cases cs with
  | nil => exact List.cons_ne_nil _ _
  | cons c cs =>
      rw [cutAtSlashes_cons]
      unfold consName
      (repeat' split) <;> exact List.cons_ne_nil _ _

theorem cutAtSlashes_append (before after : List Char) :
    cutAtSlashes (before ++ '/' :: after) = cutAtSlashes before ++ cutAtSlashes after := by
  induction before with
  | nil => rfl
  | cons c before ih =>
      obtain ⟨name, rest, cut⟩ := List.exists_cons_of_ne_nil (cutAtSlashes_ne_nil before)
      rw [List.cons_append, cutAtSlashes_cons, ih, cutAtSlashes_cons, cut]
      by_cases slash : c = '/'
      · rw [slash]
        rfl
      · rw [List.cons_append, consName_of_ne slash, consName_of_ne slash, List.cons_append]

theorem cutAtSlashes_of_notMem {cs : List Char} (noSlash : '/' ∉ cs) : cutAtSlashes cs = [cs] := by
  induction cs with
  | nil => rfl
  | cons c cs ih =>
      obtain ⟨other, rest⟩ := List.ne_and_not_mem_of_not_mem_cons noSlash
      rw [cutAtSlashes_cons, ih rest, consName_of_ne other.symm]

theorem notMem_of_mem_cutAtSlashes {cs name : List Char} (member : name ∈ cutAtSlashes cs) :
    '/' ∉ name := by
  induction cs generalizing name with
  | nil =>
      obtain rfl := List.mem_singleton.mp member
      exact List.not_mem_nil
  | cons c cs ih =>
      obtain ⟨first, rest, cut⟩ := List.exists_cons_of_ne_nil (cutAtSlashes_ne_nil cs)
      rw [cutAtSlashes_cons, cut] at member
      rw [cut] at ih
      by_cases slash : c = '/'
      · rw [slash] at member
        rcases List.mem_cons.mp member with rfl | later
        · exact List.not_mem_nil
        · exact ih later
      · rw [consName_of_ne slash] at member
        rcases List.mem_cons.mp member with rfl | later
        · exact List.not_mem_cons_of_ne_of_not_mem (Ne.symm slash) (ih List.mem_cons_self)
        · exact ih (List.mem_cons_of_mem _ later)

/-- What can stand between two slashes. -/
structure IsName (name : String) : Prop where
  nonempty : name ≠ ""
  noSlash : '/' ∉ name.toList

namespace Path

theorem names_append_slash (before after : String) :
    names (before ++ "/" ++ after) = names before ++ names after := by
  have whole : (before ++ "/" ++ after).toList = before.toList ++ '/' :: after.toList := by
    rw [String.toList_append, String.toList_append, List.append_assoc]
    rfl
  rw [names, whole, cutAtSlashes_append, List.filter_append, List.map_append]
  rfl

theorem names_of_isName {name : String} (isName : IsName name) : names name = [name] := by
  have filled : name.toList.isEmpty = false := by
    rw [List.isEmpty_eq_false_iff]
    exact fun empty => isName.nonempty (String.toList_eq_nil_iff.mp empty)
  rw [names, cutAtSlashes_of_notMem isName.noSlash]
  simp [filled]

theorem isName_of_mem_names {path name : String} (member : name ∈ names path) : IsName name := by
  obtain ⟨cs, listed, rfl⟩ := List.mem_map.mp member
  obtain ⟨cut, filled⟩ := List.mem_filter.mp listed
  constructor
  · intro empty
    have none := congrArg String.toList empty
    rw [String.toList_ofList] at none
    simp [none] at filled
  · rw [String.toList_ofList]
    exact notMem_of_mem_cutAtSlashes cut

theorem names_intercalate {parts : List String} (isName : ∀ part ∈ parts, IsName part) :
    names ("/".intercalate parts) = parts := by
  induction parts with
  | nil => rfl
  | cons part parts ih =>
      obtain ⟨first, others⟩ := List.forall_mem_cons.mp isName
      cases parts with
      | nil => rw [String.intercalate_singleton, names_of_isName first]
      | cons next parts =>
          rw [String.intercalate_cons_cons, names_append_slash, names_of_isName first, ih others]
          rfl

theorem isAbsolute_append {folder : Path} (nonempty : folder ≠ "") (rest : String) :
    isAbsolute (folder ++ rest) = isAbsolute folder := by
  rw [isAbsolute, isAbsolute, String.toList_append]
  cases cs : folder.toList with
  | nil => exact absurd (String.toList_eq_nil_iff.mp cs) nonempty
  | cons c more => rfl

theorem not_isAbsolute_of_isName {name : String} (isName : IsName name) :
    isAbsolute name = false := by
  rw [isAbsolute]
  cases cs : name.toList with
  | nil => rfl
  | cons c more =>
      have other : c ≠ '/' := by
        rintro rfl
        exact isName.noSlash (cs ▸ List.mem_cons_self)
      simp [other]

theorem isAbsolute_intercalate {parts : List String} (isName : ∀ part ∈ parts, IsName part) :
    isAbsolute ("/".intercalate parts) = false := by
  cases parts with
  | nil => rfl
  | cons part parts =>
      have first := isName part List.mem_cons_self
      cases parts with
      | nil =>
          rw [String.intercalate_singleton]
          exact not_isAbsolute_of_isName first
      | cons next parts =>
          rw [String.intercalate_cons_cons, String.append_assoc, isAbsolute_append first.nonempty]
          exact not_isAbsolute_of_isName first

/-- A name is put below a directory at the end of the names of the directory. -/
theorem names_join (folder : Path) {name : String} (isName : IsName name) :
    names (join folder name) = names folder ++ [name] := by
  rw [join, not_isAbsolute_of_isName isName, Bool.false_or]
  by_cases empty : folder = ""
  · subst empty
    exact names_of_isName isName
  · rw [if_neg (by simpa using empty)]
    split
    · rename_i slash
      obtain ⟨front, last⟩ := List.getLast?_eq_some_iff.mp (beq_iff_eq.mp slash)
      obtain rfl : folder = String.ofList front ++ "/" := by
        rw [← String.toList_inj, last, String.toList_append, String.toList_ofList]
        rfl
      have whole := names_append_slash (String.ofList front) ""
      rw [String.append_empty] at whole
      rw [names_append_slash, names_of_isName isName, whole]
      exact congrArg (· ++ [name]) (List.append_nil _).symm
    · rw [names_append_slash, names_of_isName isName]

theorem isAbsolute_join (folder : Path) {name : String} (isName : IsName name) :
    isAbsolute (join folder name) = isAbsolute folder := by
  rw [join, not_isAbsolute_of_isName isName, Bool.false_or]
  by_cases empty : folder = ""
  · subst empty
    exact not_isAbsolute_of_isName isName
  · rw [if_neg (by simpa using empty)]
    split
    · exact isAbsolute_append empty name
    · rw [String.append_assoc]
      exact isAbsolute_append empty _

variable {path : Path} {name : String}

theorem getLast?_moves (file : fileName? path = some name) :
    (moves path).getLast? = some name := by
  unfold fileName? at file
  split at file <;> simp_all

theorem isName_of_fileName? (file : fileName? path = some name) : IsName name := by
  have listed := List.mem_of_getLast? (getLast?_moves file)
  exact isName_of_mem_names (List.mem_filter.mp listed).1

theorem names_parent (path : Path) :
    names (parent path) = (names path).takeWhile (· == ".") ++ (moves path).dropLast ∧
      isAbsolute (parent path) = isAbsolute path := by
  have isName : ∀ part ∈ (names path).takeWhile (· == ".") ++ (moves path).dropLast,
      IsName part := by
    intro part member
    rcases List.mem_append.mp member with dot | move
    · exact isName_of_mem_names ((List.takeWhile_prefix _).subset dot)
    · exact isName_of_mem_names (List.mem_filter.mp (List.dropLast_subset _ move)).1
  have listed := names_intercalate isName
  have relative := isAbsolute_intercalate isName
  rw [parent]
  generalize "/".intercalate ((names path).takeWhile (· == ".") ++ (moves path).dropLast) = above
    at listed relative
  cases absolute : isAbsolute path with
  | false => exact ⟨listed, relative⟩
  | true =>
      have front := names_append_slash "" above
      rw [String.empty_append, listed] at front
      refine ⟨front, ?_⟩
      rw [if_pos rfl, isAbsolute, String.toList_append]
      rfl

/-- A file is its directory and its name. -/
theorem moves_eq (file : fileName? path = some name) :
    moves path = moves (parent path) ++ [name] := by
  have dots : ((names path).takeWhile (· == ".")).filter (· != ".") = [] := by
    rw [List.filter_eq_nil_iff]
    intro part member
    simpa using List.mem_takeWhile_imp member
  have others : (moves path).dropLast.filter (· != ".") = (moves path).dropLast := by
    rw [List.filter_eq_self]
    exact fun part member => (List.mem_filter.mp (List.dropLast_subset _ member)).2
  have whole := List.dropLast_append_getLast? name (getLast?_moves file)
  change _ = (names (parent path)).filter (· != ".") ++ [name]
  rw [(names_parent path).1, List.filter_append, dots, others, List.nil_append, whole]

end Path

theorem cutAtLastDot_append {before after : List Char} (nonempty : before ≠ [])
    (noDot : '.' ∉ after) : cutAtLastDot (before ++ '.' :: after) = (before, some after) := by
  have passes : ∀ c ∈ after.reverse, (c != '.') = true := by
    intro c member
    rw [bne_iff_ne]
    rintro rfl
    exact noDot (List.mem_reverse.mp member)
  have span : (before ++ '.' :: after).reverse.span (· != '.') =
      (after.reverse, '.' :: before.reverse) := by
    rw [List.span_eq_takeWhile_dropWhile, List.reverse_append, List.reverse_cons, List.append_assoc,
      List.takeWhile_append_of_pos passes, List.dropWhile_append_of_pos passes]
    simp
  obtain ⟨c, more, front⟩ := List.exists_cons_of_ne_nil (List.reverse_ne_nil_iff.mpr nonempty)
  rw [cutAtLastDot, span, front]
  simp only
  rw [← front, List.reverse_reverse, List.reverse_reverse]

theorem cutAtLastDot_of_notMem {name : List Char} (noDot : '.' ∉ name.tail) :
    cutAtLastDot name = (name, none) := by
  cases name with
  | nil => rfl
  | cons c rest =>
      have passes : ∀ d ∈ rest.reverse, (d != '.') = true := by
        intro d member
        rw [bne_iff_ne]
        rintro rfl
        exact noDot (List.mem_reverse.mp member)
      rw [cutAtLastDot, List.span_eq_takeWhile_dropWhile, List.reverse_cons,
        List.takeWhile_append_of_pos passes, List.dropWhile_append_of_pos passes]
      by_cases dot : c = '.' <;> simp [dot]

/-- A name is cut at its last dot, if that is not the first character. -/
theorem cutAtLastDot_cases (name : List Char) :
    '.' ∉ name.tail ∧ cutAtLastDot name = (name, none) ∨
      ∃ before after, before ≠ [] ∧ '.' ∉ after ∧ name = before ++ '.' :: after ∧
        cutAtLastDot name = (before, some after) := by
  by_cases dot : '.' ∈ name.tail
  · right
    cases name with
    | nil => cases dot
    | cons c rest =>
        obtain ⟨after, before, split, noDot⟩ :=
          List.eq_append_cons_of_mem (List.mem_reverse.mpr dot)
        have last := mt List.mem_reverse.mp noDot
        have whole : c :: rest = (c :: before.reverse) ++ '.' :: after.reverse := by
          rw [← List.reverse_reverse rest, show rest.reverse = _ from split]
          simp
        rw [whole]
        exact ⟨_, _, List.cons_ne_nil _ _, last, rfl,
          cutAtLastDot_append (List.cons_ne_nil _ _) last⟩
  · exact .inl ⟨dot, cutAtLastDot_of_notMem dot⟩

/-- A name is its own stem if it has no dot but one in front. -/
theorem stem_eq_self_iff (name : String) : stem name = name ↔ '.' ∉ name.toList.tail := by
  rcases cutAtLastDot_cases name.toList with ⟨noDot, cut⟩ | ⟨before, after, nonempty, -, whole, cut⟩
  · rw [stem, cut, String.ofList_toList]
    exact iff_of_true rfl noDot
  · refine iff_of_false (fun same => ?_) (fun noDot => noDot ?_)
    · rw [stem, cut] at same
      have lengths := congrArg (·.toList.length) same
      simp only [String.toList_ofList, whole, List.length_append, List.length_cons] at lengths
      omega
    · rw [whole, List.tail_append_of_ne_nil nonempty]
      exact List.mem_append_right _ List.mem_cons_self

theorem toList_stem_isPrefix (name : String) : (stem name).toList <+: name.toList := by
  rw [stem, String.toList_ofList]
  rcases cutAtLastDot_cases name.toList with ⟨-, cut⟩ | ⟨before, after, -, -, whole, cut⟩
  · simp [cut]
  · rw [cut, whole]
    exact List.prefix_append before _

theorem stem_ne_empty {name : String} (nonempty : name ≠ "") : stem name ≠ "" := by
  rw [ne_eq, ← String.toList_eq_nil_iff, stem, String.toList_ofList]
  rcases cutAtLastDot_cases name.toList with ⟨-, cut⟩ | ⟨before, after, filled, -, -, cut⟩
  · rw [cut]
    exact fun empty => nonempty (String.toList_eq_nil_iff.mp empty)
  · rw [cut]
    exact filled

theorem isName_stem {name : String} (isName : IsName name) : IsName (stem name) :=
  ⟨stem_ne_empty isName.nonempty,
    fun slash => isName.noSlash ((toList_stem_isPrefix name).subset slash)⟩

/-- An extension is put behind the stem of a name.  Behind a stem that is a single dot it is not
put at all. -/
theorem withExtension_eq {name : String} (nonempty : name ≠ "") (extension : String) :
    withExtension name extension =
      if stem name = "." then if name = "." then "." else ".."
      else stem name ++ "." ++ extension := by
  have text : ∀ cs : List Char, String.ofList (cs ++ '.' :: extension.toList) =
      String.ofList cs ++ "." ++ extension := by
    intro cs
    rw [← String.toList_inj]
    simp
  have dot : ∀ cs : List Char, String.ofList cs = "." ↔ cs = ['.'] := by
    intro cs
    rw [← String.toList_inj, String.toList_ofList]
    rfl
  rcases cutAtLastDot_cases name.toList with ⟨noDot, cut⟩ | ⟨before, after, filled, -, whole, cut⟩
  · have whole : stem name = name := (stem_eq_self_iff name).mpr noDot
    rw [whole]
    by_cases single : name = "."
    · subst single
      rfl
    · have filled : name.toList ≠ [] := mt String.toList_eq_nil_iff.mp nonempty
      have one : name.toList ≠ ['.'] := fun same => single (String.toList_inj.mp same)
      have two : name.toList ≠ ['.', '.'] := by
        intro same
        rw [same] at noDot
        exact noDot List.mem_cons_self
      rw [withExtension, cut, if_neg single]
      simp only [filled, one, two, or_self, if_false, cut, text, String.ofList_toList]
  · have first : stem name = String.ofList before := by rw [stem, cut]
    rw [withExtension, cut, first]
    by_cases single : before = ['.']
    · subst single
      have longer : name ≠ "." := by
        rintro rfl
        cases whole
      rw [if_neg longer]
      rfl
    · have one : before ++ ['.'] ≠ ['.'] := by simpa using filled
      have two : before ++ ['.'] ≠ ['.', '.'] := by
        intro (same : before ++ ['.'] = ['.'] ++ ['.'])
        exact single (List.append_cancel_right same)
      rw [if_neg (mt (dot before).mp single)]
      simp only [List.append_eq_nil_iff, one, two, filled, false_and, or_self, if_false,
        cutAtLastDot_append filled List.not_mem_nil, text]

end NassiChart.Files

namespace NassiChart.Cli

open NassiChart.Files

/-- The name that is written for an input. -/
def outputName (name : String) : String :=
  withExtension (stem name) documentExtension

/-- The stem of a file name holds no dot, but one in front of more, and so has no extension. -/
def HasPlainStem (name : String) : Prop :=
  stem name ≠ "." ∧ '.' ∉ (stem name).toList.tail

instance (name : String) : Decidable (HasPlainStem name) :=
  inferInstanceAs (Decidable (_ ∧ _))

variable {input : Path} {name : String}

theorem outputName_eq (nonempty : name ≠ "") : outputName name =
    if stem (stem name) = "." then if stem name = "." then "." else ".."
    else stem (stem name) ++ ".nsd" := by
  rw [outputName, withExtension_eq (stem_ne_empty nonempty), String.append_assoc]
  rfl

theorem append_right_cancel {first second ending : String}
    (same : first ++ ending = second ++ ending) : first = second := by
  have texts := congrArg String.toList same
  rw [String.toList_append, String.toList_append] at texts
  exact String.toList_inj.mp (List.append_cancel_right texts)

theorem isName_outputName (isName : IsName name) : IsName (outputName name) := by
  have noSlash := (isName_stem (isName_stem isName)).noSlash
  rw [outputName_eq isName.nonempty]
  split
  · split <;> constructor <;> decide
  · constructor
    · simp
    · simp [noSlash]

/-- An output is named after the stem of the input just if the stem has no extension itself. -/
theorem outputName_eq_iff (nonempty : name ≠ "") :
    outputName name = stem name ++ ".nsd" ↔ HasPlainStem name := by
  have plain := stem_eq_self_iff (stem name)
  rw [outputName_eq nonempty, HasPlainStem, ← plain]
  constructor
  · intro named
    split at named
    · -- Both `.` and `..` are too short to end in the extension.
      have lengths := congrArg (·.toList.length) named
      simp only [String.toList_append, List.length_append] at lengths
      split at lengths <;> simp at lengths
    · rename_i other
      have same := append_right_cancel named
      exact ⟨same ▸ other, same⟩
  · rintro ⟨other, same⟩
    rw [same, if_neg other]

theorem batchOutput_eq (file : Path.fileName? input = some name) (directory : Option Path) :
    batchOutput input directory =
      Path.join (directory.getD (Path.parent input)) (outputName name) := by
  cases directory <;> simp only [batchOutput, file, outputName, Option.getD]

theorem names_batchOutput (file : Path.fileName? input = some name) (directory : Option Path) :
    Path.names (batchOutput input directory) =
      Path.names (directory.getD (Path.parent input)) ++ [outputName name] := by
  rw [batchOutput_eq file]
  exact Path.names_join _ (isName_outputName (Path.isName_of_fileName? file))

/-- Inputs with different output names never get the same output. -/
theorem outputName_eq_of_batchOutput_eq {other otherName : String}
    (file : Path.fileName? input = some name) (otherFile : Path.fileName? other = some otherName)
    {directory : Option Path}
    (same : batchOutput other directory = batchOutput input directory) :
    outputName otherName = outputName name := by
  have names := congrArg Path.names same
  rw [names_batchOutput file, names_batchOutput otherFile] at names
  have last := List.append_inj_right' names (by simp only [List.length_singleton])
  exact List.singleton_inj.mp last

/-- The output of an input with a file name lies in the output directory, or in that of the input if
there is none.  Its name is the stem of the input with the extension of documents, just if the stem
has no extension itself; two inputs with different stems of this kind never get the same output, and
two inputs of one directory get the same output just if their output names are the same. -/
theorem batch_output_names (file : Path.fileName? input = some name) (directory : Option Path) :
    Path.names (batchOutput input directory) =
        Path.names (directory.getD (Path.parent input)) ++ [outputName name] ∧
      Path.isAbsolute (batchOutput input directory) =
        Path.isAbsolute (directory.getD (Path.parent input)) ∧
      Path.moves input = Path.moves (Path.parent input) ++ [name] ∧
      Path.isAbsolute input = Path.isAbsolute (Path.parent input) ∧
      (outputName name = stem name ++ ".nsd" ↔ HasPlainStem name) ∧
      ∀ other otherName, Path.fileName? other = some otherName →
        (HasPlainStem name → HasPlainStem otherName → stem otherName ≠ stem name →
          batchOutput other directory ≠ batchOutput input directory) ∧
        (directory.getD (Path.parent other) = directory.getD (Path.parent input) →
          (batchOutput other directory = batchOutput input directory ↔
            outputName otherName = outputName name)) := by
  have isName := Path.isName_of_fileName? file
  have named := outputName_eq_iff isName.nonempty
  refine ⟨names_batchOutput file directory, ?_, Path.moves_eq file,
    (Path.names_parent input).2.symm, named, fun other otherName otherFile => ⟨?_, ?_⟩⟩
  · rw [batchOutput_eq file]
    exact Path.isAbsolute_join _ (isName_outputName isName)
  · intro plain otherPlain different same
    have outputs := outputName_eq_of_batchOutput_eq file otherFile same
    have otherNonempty := (Path.isName_of_fileName? otherFile).nonempty
    rw [named.mpr plain, (outputName_eq_iff otherNonempty).mpr otherPlain] at outputs
    exact different (append_right_cancel outputs)
  · intro folder
    refine ⟨outputName_eq_of_batchOutput_eq file otherFile, fun same => ?_⟩
    rw [batchOutput_eq file, batchOutput_eq otherFile, folder, same]

theorem batch_output_names_two :
    Path.names (batchOutput "trees/payroll.tree" (some "out")) = ["out", "payroll.nsd"] ∧
      batchOutput "trees/ledger.tree" (some "out") ≠
        batchOutput "trees/payroll.tree" (some "out") := by
  have file : Path.fileName? "trees/payroll.tree" = some "payroll.tree" := by decide +kernel
  have other : Path.fileName? "trees/ledger.tree" = some "ledger.tree" := by decide +kernel
  obtain ⟨names, -, -, -, named, each⟩ := batch_output_names file (some "out")
  have plain : HasPlainStem "payroll.tree" := by decide +kernel
  rw [named.mpr plain] at names
  exact ⟨names.trans (by decide +kernel),
    (each _ _ other).1 plain (by decide +kernel) (by decide +kernel)⟩

/-- Two stems that differ in what follows their last dot, and one output for both. -/
theorem one_output_for_two_stems :
    Path.fileName? "a.b.tree" = some "a.b.tree" ∧ Path.fileName? "a.c.tree" = some "a.c.tree" ∧
      Path.parent "a.b.tree" = Path.parent "a.c.tree" ∧
      stem "a.b.tree" = "a.b" ∧ stem "a.c.tree" = "a.c" ∧
      batchOutput "a.b.tree" none = "a.nsd" ∧ batchOutput "a.c.tree" none = "a.nsd" := by
  decide +kernel

end NassiChart.Cli
