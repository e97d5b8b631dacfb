import Mathlib.Data.List.Forall2
import NassiChart.Document.Render

/-!
# Reading attribute values

The value of an attribute is a text in which a few characters stand as references. `decode`
resolves them from left to right. `Encodes raw text` says that `raw` can stand between double
quotes and is read as `text`, whatever follows it; every way in which a document writes a value
is an instance of it.
-/

namespace NassiChart.Document

theorem isReserved_eq_false_iff {c : Char} :
    isReserved c = false ↔ c ≠ '&' ∧ c ≠ '<' ∧ c ≠ '>' ∧ c ≠ '"' := by
  simp only [isReserved, Bool.or_eq_false_iff, beq_eq_false_iff_ne, ne_eq, and_assoc]

/-- The names of the references that a reader knows, and what they stand for. -/
def references : List (List Char × Char) :=
  [("amp".toList, '&'), ("lt".toList, '<'), ("gt".toList, '>'), ("quot".toList, '"'),
   ("#34".toList, '"'), ("#60".toList, '<')]

mutual
def decode : List Char → Option (List Char)
  | [] => some []
  | c :: rest => if c = '&' then decodeReference [] rest else (decode rest).map (c :: ·)
/-- `decode` inside of a reference, of which `name` has been read. -/
def decodeReference (name : List Char) : List Char → Option (List Char)
  | [] => none
  | c :: rest =>
    if c = ';' then
      (references.lookup name).bind fun resolved => (decode rest).map (resolved :: ·)
    else decodeReference (name ++ [c]) rest
end

/-- Between double quotes, `raw` is read as `text`. -/
structure Encodes (raw text : List Char) : Prop where
  inside : ∀ c ∈ raw, c ≠ '"' ∧ c ≠ '<'
  decoded : ∀ rest, decode (raw ++ rest) = (decode rest).map (text ++ ·)

namespace Encodes

variable {raw text more rest : List Char}

theorem decode_eq (h : Encodes raw text) : decode raw = some text := by
  have whole := h.decoded []
  simpa [decode] using whole

theorem nil : Encodes [] [] := by
  constructor
  · simp
  · simp

theorem append (first : Encodes raw text) (second : Encodes more rest) :
    Encodes (raw ++ more) (text ++ rest) := by
  constructor
  · intro c hc
    cases List.mem_append.mp hc with
    | inl hc => exact first.inside c hc
    | inr hc => exact second.inside c hc
  · intro tail
    rw [List.append_assoc, first.decoded, second.decoded, Option.map_map]
    simp [Function.comp_def]

theorem char {c : Char} (h : isReserved c = false) : Encodes [c] [c] := by
  obtain ⟨amp, lt, -, quote⟩ := isReserved_eq_false_iff.mp h
  constructor
  · intro d hd
    cases List.mem_singleton.mp hd
    exact ⟨quote, lt⟩
  · intro tail
    simp [decode, amp]

theorem reference (name : List Char) {c : Char} (h : (name, c) ∈ references) :
    Encodes ('&' :: name ++ [';']) [c] := by
  simp only [references, List.mem_cons, Prod.mk.injEq, List.not_mem_nil, or_false] at h
  rcases h with ⟨rfl, rfl⟩ | ⟨rfl, rfl⟩ | ⟨rfl, rfl⟩ | ⟨rfl, rfl⟩ | ⟨rfl, rfl⟩ | ⟨rfl, rfl⟩
  all_goals exact ⟨by simp, fun tail => rfl⟩

theorem flatMap {written read : Char → List Char} (h : ∀ c, Encodes (written c) (read c))
    (cs : List Char) : Encodes (cs.flatMap written) (cs.flatMap read) := by
  induction cs with
  | nil => exact nil
  | cons c cs ih => exact (h c).append ih

theorem plain {cs : List Char} (h : ∀ c ∈ cs, isReserved c = false) : Encodes cs cs := by
  induction cs with
  | nil => exact nil
  | cons c cs ih =>
      have first := char (h c List.mem_cons_self)
      exact first.append (ih fun d hd => h d (List.mem_cons_of_mem _ hd))

theorem intercalate {sep : List Char} {raws texts : List (List Char)}
    (between : Encodes sep sep) (h : List.Forall₂ Encodes raws texts) :
    Encodes (sep.intercalate raws) (sep.intercalate texts) := by
  induction h with
  | nil => exact nil
  | @cons raw text raws texts first rest ih =>
      cases rest with
      | nil => simpa using first
      | cons second rest =>
          rw [List.intercalate_cons_cons, List.intercalate_cons_cons]
          exact (first.append between).append ih

end Encodes

theorem encodes_escapeChar (c : Char) : Encodes (escapeChar c) [c] := by
  unfold escapeChar
  split
  · exact .reference "amp".toList (by decide)
  · exact .reference "lt".toList (by decide)
  · exact .reference "gt".toList (by decide)
  · exact .reference "quot".toList (by decide)
  · rename_i amp lt gt quote
    exact .char (isReserved_eq_false_iff.mpr ⟨amp, lt, gt, quote⟩)

theorem escapeChar_of_not_isReserved {c : Char} (h : isReserved c = false) :
    escapeChar c = [c] := by
  unfold escapeChar
  split
  · cases h
  · cases h
  · cases h
  · cases h
  · rfl

theorem isPlain_iff {text : String} :
    isPlain text = true ↔ ∀ c ∈ text.toList, isReserved c = false := by
  simp [isPlain]

theorem encodes_of_isPlain {text : String} (h : isPlain text = true) :
    Encodes text.toList text.toList :=
  .plain (isPlain_iff.mp h)

theorem escapeChars_of_isPlain {text : String} (h : isPlain text = true) :
    escapeChars text.toList = text.toList := by
  have each : ∀ c ∈ text.toList, escapeChar c = [c] :=
    fun c member => escapeChar_of_not_isReserved (isPlain_iff.mp h c member)
  rw [escapeChars, List.flatMap_congr each, List.flatMap_singleton']

/-- A text that is written as it is reads as it would if it were written anew. -/
theorem escape_eq (text : String) : escape text = String.ofList (escapeChars text.toList) := by
  unfold escape escaping
  split
  · rename_i plain
    rw [Rewritten.text, escapeChars_of_isPlain plain, String.ofList_toList]
  · rfl

theorem encodes_escape (text : String) : Encodes (escape text).toList text.toList := by
  have each := Encodes.flatMap encodes_escapeChar text.toList
  rw [escape_eq, String.toList_ofList, escapeChars]
  simpa using each

/-- How a line reads between quotes: the quotes inside of it are doubled. -/
def doubled (c : Char) : List Char :=
  if c = '"' then ['"', '"'] else [c]

/-- The lines of a comma text as a reader sees them. -/
def commaLines (lines : List String) : String :=
  String.ofList ([','].intercalate
    (lines.map fun line => '"' :: line.toList.flatMap doubled ++ ['"']))

theorem encodes_quoteRef : Encodes quoteRef ['"'] :=
  .reference "#34".toList (by decide)

theorem quotedChar_of_ne {c : Char} (h : c ≠ '"') : quotedChar c = escapeChar c := by
  unfold quotedChar
  split
  · rfl
  · rfl
  · rfl
  · exact absurd rfl h
  · rename_i amp lt gt _
    have plain : isReserved c = false := isReserved_eq_false_iff.mpr ⟨amp, lt, gt, h⟩
    exact (escapeChar_of_not_isReserved plain).symm

theorem encodes_quotedChar (c : Char) : Encodes (quotedChar c) (doubled c) := by
  by_cases quote : c = '"'
  · subst quote
    exact encodes_quoteRef.append encodes_quoteRef
  · rw [quotedChar_of_ne quote, doubled, if_neg quote]
    exact encodes_escapeChar c

theorem encodes_quotedLine (line : List Char) :
    Encodes (quotedLine line) ('"' :: line.flatMap doubled ++ ['"']) :=
  (encodes_quoteRef.append (.flatMap encodes_quotedChar line)).append encodes_quoteRef

theorem encodes_commaText (lines : List String) :
    Encodes (commaText lines).toList (commaLines lines).toList := by
  simp only [commaText, commaLines, String.toList_ofList]
  apply Encodes.intercalate (.char (by decide))
  induction lines with
  | nil => exact .nil
  | cons line lines ih => exact .cons (encodes_quotedLine line.toList) ih

theorem isReserved_hexDigit {n : Nat} (h : n < 16) : isReserved (Color.hexDigit n) = false := by
  have all : ∀ i : Fin 16, isReserved (Color.hexDigit i) = false := by decide
  exact all ⟨n, h⟩

theorem encodes_hex (color : Color) : Encodes color.hex.toList color.hex.toList := by
  have byte : ∀ (b : UInt8), ∀ c ∈ Color.hexByte b, isReserved c = false := by
    intro b c hc
    have small := b.toNat_lt
    simp only [Color.hexByte, List.mem_cons, List.not_mem_nil, or_false] at hc
    cases hc with
    | inl hc => rw [hc]; exact isReserved_hexDigit (by omega)
    | inr hc => rw [hc]; exact isReserved_hexDigit (by omega)
  rw [Color.hex, String.toList_ofList]
  exact ((Encodes.plain (byte color.red)).append (.plain (byte color.green))).append
    (.plain (byte color.blue))

theorem isReserved_of_isDigit {c : Char} (h : c.isDigit = true) : isReserved c = false := by
  rw [isReserved_eq_false_iff]
  refine ⟨?_, ?_, ?_, ?_⟩ <;> · rintro rfl; exact absurd h (by decide)

theorem encodes_paddedDigits (width n : Nat) :
    Encodes (paddedDigits width n) (paddedDigits width n) := by
  apply Encodes.plain
  intro c hc
  rw [paddedDigits, List.mem_append, List.mem_replicate] at hc
  cases hc with
  | inl hc => rw [hc.2]; decide
  | inr hc => exact isReserved_of_isDigit (Nat.isDigit_of_mem_toDigits (by decide) (by decide) hc)

theorem encodes_date (date : Date) : Encodes date.text.toList date.text.toList := by
  have dash : Encodes ['-'] ['-'] := .char (by decide)
  let sign : List Char := if date.year < 0 then ['-'] else []
  have era : Encodes sign sign := by
    unfold sign
    split
    · exact dash
    · exact .nil
  rw [Date.text, String.toList_ofList]
  exact ((era.append (encodes_paddedDigits ..)).append
    (dash.append (encodes_paddedDigits ..))).append (dash.append (encodes_paddedDigits ..))

end NassiChart.Document
