import Flowchart.Measure.Estimated

/-!
# Widths from a font

A font face maps characters to glyphs and glyphs to advances, both of which may be missing; the
width of a line is the sum of its advances. A character without an advance is estimated.

Most lines hold ASCII only. For them the advances are looked up in a table that is made once for
each face; in that table a missing advance is written as zero.
-/

namespace Flowchart

/-- What is asked of a font: its glyphs and how wide they are. -/
structure FontFace where
  /-- units of an advance that make up the font size -/
  unitsPerEm : Nat
  /-- glyph of a character -/
  glyph? : Char → Option Nat
  /-- advance of a glyph -/
  advance? : Nat → Option Nat

namespace FontFace

/-- The advance of a character. -/
def charAdvance? (f : FontFace) (c : Char) : Option Nat := (f.glyph? c).bind f.advance?

/-- The advances of the ASCII characters, zero where one is missing. -/
def asciiAdvances (f : FontFace) : Array Nat :=
  Array.ofFn fun n : Fin 128 => (f.charAdvance? (Char.ofNat n)).getD 0

end FontFace

/-- A font face ready for measuring. -/
structure FontWidths where
  /-- the face itself -/
  face : FontFace
  /-- advances of the ASCII characters, zero where one is missing -/
  ascii : Array Nat

namespace FontWidths

variable {α : Type} [Scalar α]

/-- Prepares a face. -/
def ofFace (face : FontFace) : FontWidths := ⟨face, face.asciiAdvances⟩

/-- The size of one unit of an advance at a font size. -/
def scale (w : FontWidths) (fontSize : α) : α := fontSize / Scalar.ofNat (max w.face.unitsPerEm 1)

/-- The width of an ASCII character, taken from the table. -/
def asciiWidth (w : FontWidths) (fontSize : α) (c : Char) : α :=
  match (w.ascii[c.toNat]?).getD 0 with
  | 0 => charWidth c * fontSize
  | advance => Scalar.ofNat advance * w.scale fontSize

/-- The width of any character, taken from the face. -/
def anyWidth (w : FontWidths) (fontSize : α) (c : Char) : α :=
  match w.face.charAdvance? c with
  | some advance => Scalar.ofNat advance * w.scale fontSize
  | none => charWidth c * fontSize

/-- The width of a line. -/
def lineWidth (w : FontWidths) (line : String) (fontSize : α) : α :=
  let cs := line.toList
  if cs.all fun c => c.toNat < 128 then Scalar.sum (cs.map (w.asciiWidth fontSize))
  else Scalar.sum (cs.map (w.anyWidth fontSize))

/-- Measures in the font. -/
def measurer (w : FontWidths) : Measurer α := ⟨w.lineWidth⟩

end FontWidths

end Flowchart
