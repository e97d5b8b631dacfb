import Mathlib.Data.List.DropRight
import NassiChart.Export.Line

/-! # Where the lines of a source stand

The lines of a source are laid out one after the other, and each keeps the range of bytes that it
takes.  Cutting that range out of the bytes of the source gives the line back without its
terminators, whatever characters the source holds and however its lines end.
-/

namespace NassiChart.Text

theorem length_bytes (s : String) : (bytes s).length = s.utf8ByteSize := by
  simp [bytes]

theorem byteLength_eq (cs : List Char) : byteLength cs = (String.ofList cs).utf8ByteSize := by
  induction cs with
  | nil => rfl
  | cons c cs ih =>
      have parts : String.ofList (c :: cs) = String.singleton c ++ String.ofList cs := by
        apply String.ext
        simp
      rw [parts, String.utf8ByteSize_append, String.utf8ByteSize_singleton, ← ih]
      rfl

theorem byteLength_append (xs ys : List Char) :
    byteLength (xs ++ ys) = byteLength xs + byteLength ys := by
  rw [byteLength_eq, String.ofList_append, String.utf8ByteSize_append, ← byteLength_eq,
    ← byteLength_eq]

end NassiChart.Text

namespace NassiChart.Export

open NassiChart.Text

/-- The range of bytes is one of whole characters of `source`, and holds `text`. -/
def Span.Cuts (span : Span) (source text : String) : Prop :=
  span.stop ≤ source.utf8ByteSize ∧
    String.Pos.Raw.IsValid source ⟨span.start⟩ ∧ String.Pos.Raw.IsValid source ⟨span.stop⟩ ∧
      ((bytes source).drop span.start).take span.length = bytes text

/-- The line is one of `source`: it starts there or after a line feed, `ends` are the terminators
that were dropped from it, and its range is that of its text. -/
def Line.StandsIn (line : Line) (source : String) : Prop :=
  ∃ before ends after : List Char,
    source.toList = before ++ (line.chars ++ ends) ++ after ∧
    (before = [] ∨ before.getLast? = some '\n') ∧
    (after = [] ∨ (line.chars ++ ends).getLast? = some '\n') ∧
    '\n' ∉ (line.chars ++ ends).dropLast ∧
    (∀ c ∈ ends, c = '\r' ∨ c = '\n') ∧
    (∀ c, line.chars.getLast? = some c → c ≠ '\r' ∧ c ≠ '\n') ∧
    line.span.start = byteLength before ∧ line.span.stop = byteLength (before ++ line.chars)

theorem flatten_consRaw (c : Char) (raws : List (List Char)) :
    (consRaw c raws).flatten = c :: raws.flatten := by
  unfold consRaw
  split
  · rfl
  · cases raws <;> rfl

theorem flatten_rawLines (source : List Char) : (rawLines source).flatten = source := by
  induction source with
  | nil => rfl
  | cons c source ih =>
      simp only [rawLines, List.foldr_cons] at ih ⊢
      rw [flatten_consRaw, ih]

theorem newline_notMem_rawLines {source raw : List Char} (member : raw ∈ rawLines source) :
    raw ≠ [] ∧ '\n' ∉ raw.dropLast := by
  induction source generalizing raw with
  | nil => simp [rawLines] at member
  | cons c source ih =>
      simp only [rawLines, List.foldr_cons, consRaw] at ih member
      split at member
      · rcases List.mem_cons.mp member with rfl | member
        · simp
        · exact ih member
      · rename_i other
        split at member
        · obtain rfl := List.mem_singleton.mp member
          simp
        · rename_i first rest found
          obtain ⟨nonempty, clean⟩ := ih (found ▸ List.mem_cons_self)
          rcases List.mem_cons.mp member with rfl | member
          · rw [List.dropLast_cons_of_ne_nil nonempty]
            refine ⟨List.cons_ne_nil _ _, fun inside => ?_⟩
            rcases List.mem_cons.mp inside with same | inside
            · exact other same.symm
            · exact clean inside
          · exact ih (found ▸ List.mem_cons_of_mem _ member)

theorem getLast?_of_mem_dropLast_rawLines {source raw : List Char}
    (member : raw ∈ (rawLines source).dropLast) : raw.getLast? = some '\n' := by
  induction source generalizing raw with
  | nil => simp [rawLines] at member
  | cons c source ih =>
      have nonempty : ∀ line ∈ rawLines source, line ≠ [] :=
        fun line inside => (newline_notMem_rawLines inside).1
      simp only [rawLines, List.foldr_cons, consRaw] at ih member nonempty
      split at member
      · rename_i feed
        cases found : List.foldr consRaw [] source with
        | nil => simp [found] at member
        | cons first rest =>
            rw [found, List.dropLast_cons_cons] at member
            rcases List.mem_cons.mp member with rfl | member
            · simp [feed]
            · exact ih (found ▸ member)
      · split at member
        · simp at member
        · rename_i first rest found
          cases rest with
          | nil => simp at member
          | cons second rest =>
              rw [List.dropLast_cons_cons] at member
              rcases List.mem_cons.mp member with rfl | member
              · have kept : first ≠ [] := nonempty first (found ▸ List.mem_cons_self)
                rw [List.getLast?_cons_of_ne_nil kept]
                exact ih (by rw [found, List.dropLast_cons_cons]; exact List.mem_cons_self)
              · exact ih (by rw [found, List.dropLast_cons_cons]; exact List.mem_cons_of_mem _ member)

theorem exists_of_mem_layOut {gap offset : Nat} {raws : List (List Char)} {line : Line}
    (member : line ∈ Line.layOut gap offset raws) : ∃ before raw after,
      raws = before ++ raw :: after ∧
        line = Line.ofRaw raw (offset + byteLength before.flatten + gap * before.length) := by
  induction raws generalizing offset with
  | nil => cases member
  | cons first raws ih =>
      rcases List.mem_cons.mp member with rfl | member
      · exact ⟨[], first, raws, rfl, by simp [byteLength]⟩
      · obtain ⟨before, raw, after, rfl, rfl⟩ := ih member
        refine ⟨first :: before, raw, after, rfl, congrArg (Line.ofRaw raw) ?_⟩
        rw [List.flatten_cons, byteLength_append, List.length_cons, Nat.mul_add]
        omega

theorem exists_ends (raw : List Char) (offset : Nat) : ∃ ends,
    raw = (Line.ofRaw raw offset).chars ++ ends ∧ (∀ c ∈ ends, c = '\r' ∨ c = '\n') ∧
      ∀ c, (Line.ofRaw raw offset).chars.getLast? = some c → c ≠ '\r' ∧ c ≠ '\n' := by
  refine ⟨raw.rtakeWhile Line.isTerminator, List.rdropWhile_append_rtakeWhile.symm, ?_, ?_⟩
  · intro c member
    have terminator := List.mem_rtakeWhile_imp member
    simpa [Line.isTerminator] using terminator
  · intro c last
    change (raw.rdropWhile Line.isTerminator).getLast? = some c at last
    obtain ⟨nonempty, rfl⟩ := List.mem_getLast?_eq_getLast last
    have other := List.rdropWhile_last_not Line.isTerminator raw nonempty
    simpa [Line.isTerminator] using other

theorem getLast?_flatten_of_rawLines {source raw : List Char} {before after : List (List Char)}
    (cut : rawLines source = before ++ raw :: after) :
    before.flatten = [] ∨ before.flatten.getLast? = some '\n' := by
  rcases List.eq_nil_or_concat before with rfl | ⟨front, last, rfl⟩
  · exact .inl rfl
  · right
    have member : last ∈ (rawLines source).dropLast := by
      rw [cut, List.dropLast_append_of_ne_nil (List.cons_ne_nil _ _)]
      simp
    rw [List.concat_eq_append, List.flatten_append, List.flatten_singleton,
      List.getLast?_append, getLast?_of_mem_dropLast_rawLines member]
    rfl

/-- Every line of a source stands in it where its range says. -/
theorem standsIn_of_mem_sourceLines {source : String} {line : Line}
    (member : line ∈ sourceLines source) : line.StandsIn source := by
  obtain ⟨before, raw, after, cut, rfl⟩ := exists_of_mem_layOut member
  simp only [Nat.zero_add, Nat.zero_mul, Nat.add_zero]
  obtain ⟨ends, parts, terminators, last⟩ := exists_ends raw (byteLength before.flatten)
  have inside : raw ∈ rawLines source.toList := cut ▸ by simp
  refine ⟨before.flatten, ends, after.flatten, ?_, getLast?_flatten_of_rawLines cut, ?_, ?_,
    terminators, last, rfl, ?_⟩
  · rw [← parts, ← flatten_rawLines source.toList, cut]
    simp
  · rw [← parts]
    cases after with
    | nil => exact .inl rfl
    | cons next after =>
        right
        have early : raw ∈ (rawLines source.toList).dropLast := by
          rw [cut, List.dropLast_append_of_ne_nil (List.cons_ne_nil _ _), List.dropLast_cons_cons]
          simp
        exact getLast?_of_mem_dropLast_rawLines early
  · rw [← parts]
    exact (newline_notMem_rawLines inside).2
  · rw [byteLength_append]
    exact Nat.max_eq_left (Nat.le_add_right _ _)

/-- A range that goes around a part of a source cuts this part out of it. -/
theorem Span.cuts_of_parts {span : Span} {source : String} {before text after : List Char}
    (parts : source.toList = before ++ text ++ after) (start : span.start = byteLength before)
    (stop : span.stop = byteLength (before ++ text)) :
    span.Cuts source (String.ofList text) := by
  have whole : source = String.ofList before ++ String.ofList text ++ String.ofList after := by
    apply String.toList_inj.mp
    simp [parts]
  have startIs : span.start = (String.ofList before).utf8ByteSize := by
    rw [start, byteLength_eq]
  have stopIs : span.stop = (String.ofList before ++ String.ofList text).utf8ByteSize := by
    rw [stop, byteLength_eq, String.ofList_append]
  have length : span.length = (String.ofList text).utf8ByteSize := by
    rw [Span.length, startIs, stopIs, String.utf8ByteSize_append, Nat.add_sub_cancel_left]
  refine ⟨?_, ?_, ?_, ?_⟩
  · rw [stopIs, whole, String.utf8ByteSize_append (s := _ ++ _)]
    exact Nat.le_add_right _ _
  · refine String.Pos.Raw.isValid_iff_exists_append.mpr ⟨String.ofList before,
      String.ofList text ++ String.ofList after, ?_, congrArg _ startIs⟩
    rw [whole, String.append_assoc]
  · exact String.Pos.Raw.isValid_iff_exists_append.mpr
      ⟨String.ofList before ++ String.ofList text, _, whole, congrArg _ stopIs⟩
  · rw [whole, bytes_append, bytes_append, List.append_assoc, startIs, length, ← length_bytes,
      ← length_bytes, List.drop_left, List.take_left]

/-- A line that stands in a source is cut out of it by its range. -/
theorem Line.StandsIn.cuts {line : Line} {source : String} (stands : line.StandsIn source) :
    line.span.Cuts source (String.ofList line.chars) := by
  obtain ⟨before, ends, after, parts, -, -, -, -, -, start, stop⟩ := stands
  have whole : source.toList = before ++ line.chars ++ (ends ++ after) := by
    rw [parts]
    simp only [List.append_assoc]
  exact Span.cuts_of_parts whole start stop

end NassiChart.Export
