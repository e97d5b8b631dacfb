import NassiChart.Proofs.AttributeValue

/-! # Escaped text

A text that is written into an attribute holds no quote and no angle bracket, and its ampersands
do nothing but start references.  `IsEscaped names` says so of a text that is written with the
references of the given names.  It holds of a text that is put together from parts of which it
holds.

Attribute text and comma text are such texts.  Attribute text is read back as what it was made
from, and texts can be written piece by piece (`escape_read_back`).
-/

namespace NassiChart.Document

structure IsEscaped (names : List (List Char)) (raw : List Char) : Prop where
  quotes : '"' ∉ raw
  brackets : '<' ∉ raw ∧ '>' ∉ raw
  ampersands : ∀ before after, raw = before ++ '&' :: after →
    ∃ name ∈ names, name ++ [';'] <+: after

namespace IsEscaped

variable {names : List (List Char)} {raw more : List Char}

theorem nil : IsEscaped names [] := by
  refine ⟨List.not_mem_nil, ⟨List.not_mem_nil, List.not_mem_nil⟩, ?_⟩
  intro before after nothing
  cases (List.append_eq_nil_iff.mp nothing.symm).2

theorem append (first : IsEscaped names raw) (second : IsEscaped names more) :
    IsEscaped names (raw ++ more) := by
  refine ⟨?_, ⟨?_, ?_⟩, ?_⟩
  · exact fun member => (List.mem_append.mp member).elim first.quotes second.quotes
  · exact fun member => (List.mem_append.mp member).elim first.brackets.1 second.brackets.1
  · exact fun member => (List.mem_append.mp member).elim first.brackets.2 second.brackets.2
  · intro before after split
    rcases List.append_eq_append_iff.mp split with ⟨middle, rfl, rest⟩ | ⟨middle, whole, rest⟩
    · exact second.ampersands middle after rest
    · -- The ampersand is the last thing before the cut, or the cut comes after it.
      cases middle with
      | nil =>
          rw [List.nil_append] at rest
          exact second.ampersands [] after rest.symm
      | cons c middle =>
          obtain ⟨rfl, rfl⟩ := List.cons.inj rest
          obtain ⟨name, listed, starts⟩ := first.ampersands before middle whole
          exact ⟨name, listed, starts.trans (List.prefix_append middle more)⟩

theorem of_not_isReserved {c : Char} (h : isReserved c = false) : IsEscaped names [c] := by
  obtain ⟨amp, lt, gt, quote⟩ := isReserved_eq_false_iff.mp h
  refine ⟨by simp [quote.symm], by simp [lt.symm, gt.symm], ?_⟩
  intro before after split
  have member : '&' ∈ [c] := split ▸ List.mem_append_cons_self
  exact absurd (List.mem_singleton.mp member).symm amp

theorem reference (name : List Char) (listed : name ∈ names)
    (plain : name.any isReserved = false) : IsEscaped names ('&' :: name ++ [';']) := by
  have absent : ∀ c, isReserved c = true → c ∉ name ++ [';'] := by
    intro c reserved member
    rcases List.mem_append.mp member with inside | last
    · exact List.any_eq_false.mp plain c inside reserved
    · rw [List.mem_singleton.mp last] at reserved
      cases reserved
  refine ⟨?_, ⟨?_, ?_⟩, ?_⟩
  · exact List.not_mem_cons_of_ne_of_not_mem (by decide) (absent '"' rfl)
  · exact List.not_mem_cons_of_ne_of_not_mem (by decide) (absent '<' rfl)
  · exact List.not_mem_cons_of_ne_of_not_mem (by decide) (absent '>' rfl)
  · intro before after split
    cases before with
    | nil => exact ⟨name, listed, (List.cons.inj split).2 ▸ List.prefix_rfl⟩
    | cons c before =>
        have rest : name ++ [';'] = before ++ '&' :: after := (List.cons.inj split).2
        exact absurd (rest ▸ List.mem_append_cons_self) (absent '&' rfl)

theorem flatMap {written : Char → List Char} (h : ∀ c, IsEscaped names (written c))
    (cs : List Char) : IsEscaped names (cs.flatMap written) := by
  induction cs with
  | nil => exact nil
  | cons c cs ih => exact (h c).append ih

theorem intercalate {sep : List Char} (between : IsEscaped names sep) {parts : List (List Char)}
    (each : ∀ part ∈ parts, IsEscaped names part) : IsEscaped names (sep.intercalate parts) := by
  induction parts with
  | nil => exact nil
  | cons part parts ih =>
      obtain ⟨first, rest⟩ := List.forall_mem_cons.mp each
      cases parts with
      | nil => simpa using first
      | cons next parts =>
          rw [List.intercalate_cons_cons]
          exact (first.append between).append (ih rest)

end IsEscaped

/-- A character is written as itself or with one of four references; only a quote needs the
last one. -/
theorem isEscaped_escapeChar {names : List (List Char)} {c : Char}
    (common : ["amp".toList, "lt".toList, "gt".toList] ⊆ names)
    (quote : c = '"' → "quot".toList ∈ names) : IsEscaped names (escapeChar c) := by
  unfold escapeChar
  split
  · exact .reference "amp".toList (common (by decide)) (by decide)
  · exact .reference "lt".toList (common (by decide)) (by decide)
  · exact .reference "gt".toList (common (by decide)) (by decide)
  · exact .reference "quot".toList (quote rfl) (by decide)
  · rename_i amp lt gt other
    exact .of_not_isReserved (isReserved_eq_false_iff.mpr ⟨amp, lt, gt, other⟩)

/-- The references that attribute text is written with. -/
def attributeReferences : List (List Char) :=
  ["amp".toList, "lt".toList, "gt".toList, "quot".toList]

theorem isEscaped_escape (text : String) :
    IsEscaped attributeReferences (escape text).toList := by
  rw [escape_eq, String.toList_ofList]
  exact .flatMap (fun _ => isEscaped_escapeChar (by decide) fun _ => by decide) text.toList

theorem escaping_eq_shared_iff {text other : String} :
    escaping text = .shared other ↔
      other = text ∧ ∀ c ∈ text.toList, c ∉ ['&', '<', '>', '"'] := by
  have plain : isPlain text = true ↔ ∀ c ∈ text.toList, c ∉ ['&', '<', '>', '"'] := by
    simp [isPlain_iff, isReserved_eq_false_iff]
  rw [← plain, escaping]
  split
  · rename_i untouched
    simp only [Rewritten.shared.injEq, untouched, and_true, eq_comm]
  · rename_i touched
    simp [touched]

theorem escape_append (first second : String) :
    escape (first ++ second) = escape first ++ escape second := by
  simp only [escape_eq, escapeChars, String.toList_append, List.flatMap_append,
    String.ofList_append]

/-- Attribute text has no quote and no angle bracket in it, and no ampersand but those of its four
references.  Resolving these once gives back the text that it was made from, also one that looks
like a reference.  A text is shared if it has none of the four characters, and only then; what is
written is the same as if every text were written anew.  Two texts are written one after the other
as they are written together. -/
theorem escape_read_back :
    (∀ text, IsEscaped attributeReferences (escape text).toList ∧
      decode (escape text).toList = some text.toList ∧
      (∀ other, escaping text = .shared other ↔
        other = text ∧ ∀ c ∈ text.toList, c ∉ ['&', '<', '>', '"']) ∧
      escape text = String.ofList (escapeChars text.toList)) ∧
    ∀ first second, escape (first ++ second) = escape first ++ escape second := by
  refine ⟨fun text => ?_, escape_append⟩
  have read : decode (escape text).toList = some text.toList := (encodes_escape text).decode_eq
  exact ⟨isEscaped_escape text, read, fun _ => escaping_eq_shared_iff, escape_eq text⟩

example : escape "&lt;" = "&amp;lt;" ∧ decode "&amp;lt;".toList = some "&lt;".toList := by decide

/-- The references that comma text is written with. -/
def commaReferences : List (List Char) :=
  ["#34".toList, "amp".toList, "lt".toList, "gt".toList]

theorem isEscaped_quoteRef : IsEscaped commaReferences quoteRef :=
  .reference "#34".toList (by decide) (by decide)

theorem isEscaped_quotedChar (c : Char) : IsEscaped commaReferences (quotedChar c) := by
  by_cases quote : c = '"'
  · subst quote
    exact isEscaped_quoteRef.append isEscaped_quoteRef
  · rw [quotedChar_of_ne quote]
    exact isEscaped_escapeChar (by decide) fun same => absurd same quote

theorem isEscaped_commaText (lines : List String) :
    IsEscaped commaReferences (commaText lines).toList := by
  rw [commaText, String.toList_ofList]
  apply IsEscaped.intercalate (.of_not_isReserved (by decide))
  intro part member
  obtain ⟨line, -, rfl⟩ := List.mem_map.mp member
  exact (isEscaped_quoteRef.append (.flatMap isEscaped_quotedChar line.toList)).append
    isEscaped_quoteRef

end NassiChart.Document
