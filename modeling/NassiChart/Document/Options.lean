import NassiChart.Color.Basic

/-!
# Document options

The metadata and the colors of a document.
-/

namespace NassiChart.Document

structure Date where
  year : Int
  month : Nat
  day : Nat
  deriving DecidableEq, Repr

/-- The decimal digits of a number, with zeros in front up to `width`. -/
def paddedDigits (width n : Nat) : List Char :=
  let digits := Nat.toDigits 10 n
  List.replicate (width - digits.length) '0' ++ digits

/-- Year, month and day with dashes between. The year has four digits at least and a minus sign
before the common era. -/
def Date.text (date : Date) : String :=
  String.ofList ((if date.year < 0 then ['-'] else []) ++ paddedDigits 4 date.year.natAbs ++
    '-' :: paddedDigits 2 date.month ++ '-' :: paddedDigits 2 date.day)

example : Date.text ⟨2024, 2, 29⟩ = "2024-02-29" ∧ Date.text ⟨-5, 12, 1⟩ = "-0005-12-01" := by
  decide

structure Palette where
  ordinary : Color
  jump : Color
  externalJump : Color
  /-- Database statements, and loops over records. -/
  database : Color
  deriving DecidableEq, Repr

/-- The colors that hold where none are configured. -/
def Palette.standard : Palette where
  ordinary := Color.white
  jump := ⟨0xff, 0xff, 0x80⟩
  externalJump := ⟨0xff, 0x80, 0x80⟩
  database := ⟨0x80, 0xff, 0x80⟩

structure Options where
  author : String
  programName : String
  /-- The tool that is recorded as the maker of the document. -/
  origin : String
  created : Date
  palette : Palette
  deriving DecidableEq, Repr

/-- The options that hold where nothing is configured. -/
def Options.standard (created : Date) : Options where
  author := ""
  programName := "PROGRAM"
  origin := "Structogram"
  created := created
  palette := .standard

end NassiChart.Document
