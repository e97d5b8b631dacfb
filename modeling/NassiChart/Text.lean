/-!
# Characters and bytes of a text

Which characters count as white space, and trimming. The class is the Unicode property
`White_Space`, which is wider than the ASCII blanks: a line that holds only a no-break space is
blank, a line that holds only a zero-width space is not. `trim` cuts white space off both ends.

Files and sinks hold bytes, texts are written to them in UTF-8. Reading what was written gives the
text back (`ofBytes?_bytes`).
-/

namespace NassiChart.Text

/-- The code points with the property `White_Space`, as closed ranges in increasing order. -/
def whiteRanges : List (Nat × Nat) :=
  [(0x09, 0x0D), (0x20, 0x20), (0x85, 0x85), (0xA0, 0xA0), (0x1680, 0x1680), (0x2000, 0x200A),
   (0x2028, 0x2029), (0x202F, 0x202F), (0x205F, 0x205F), (0x3000, 0x3000)]

def isWhite (c : Char) : Bool :=
  whiteRanges.any fun range => range.1 ≤ c.toNat && c.toNat ≤ range.2

/-- The list without the longest run at its end on which `p` holds. -/
def dropEndWhile {α : Type} (p : α → Bool) (xs : List α) : List α :=
  (xs.reverse.dropWhile p).reverse

/-- The text without the white space at either end. -/
def trim (cs : List Char) : List Char :=
  dropEndWhile isWhite (cs.dropWhile isWhite)

/-- No character but white space. The empty text is blank. -/
def isBlank (cs : List Char) : Bool :=
  cs.all isWhite

def byteLength (cs : List Char) : Nat :=
  cs.foldr (fun c n => c.utf8Size + n) 0

def bytes (text : String) : List UInt8 :=
  text.toUTF8.data.toList

theorem bytes_append (s t : String) : bytes (s ++ t) = bytes s ++ bytes t := by
  simp [bytes]

/-- The text with the given bytes, if they are those of a text. -/
def ofBytes? (content : List UInt8) : Option String :=
  String.fromUTF8? ⟨content.toArray⟩

@[simp] theorem ofBytes?_bytes (text : String) : ofBytes? (bytes text) = some text := by
  simp only [ofBytes?, bytes, Array.toArray_toList]
  exact dif_pos text.isValidUTF8

end NassiChart.Text
