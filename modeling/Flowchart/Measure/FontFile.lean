import Flowchart.Measure.Font

/-!
# Font files

A font file is a list of tables, each one found by its tag. Four of them matter here: `head` holds
the units of an advance, `hhea` and `maxp` count the advances and the glyphs, `hmtx` holds the
advances and `cmap` leads from characters to glyphs. The first three have to be present and sound;
without one of the others no glyph is found, or no advance.

All numbers are written with their highest byte first. A read past the end gives nothing.
-/

namespace Flowchart.FontFile

/-! ## Numbers and lists of records -/

/-- The number that starts at a position and takes up a given number of bytes. -/
def number? (b : ByteArray) (place : Nat) : (width : Nat) → Option Nat
  | 0 => some 0
  | width + 1 => do
    let high ← number? b place width
    let low ← b[place + width]?
    some (high * 256 + low.toNat)

/-- The number of two bytes at a position. -/
def word? (b : ByteArray) (place : Nat) : Option Nat := number? b place 2

/-- The number of four bytes at a position. -/
def long? (b : ByteArray) (place : Nat) : Option Nat := number? b place 4

/-- The bytes from a position up to another one, both of which have to be inside. -/
def slice? (b : ByteArray) (start stop : Nat) : Option ByteArray :=
  if start ≤ stop && stop ≤ b.size then some (b.extract start stop) else none

/-- A list of records inside the bytes: its position, how many there are and how long each is. -/
structure Records where
  /-- position of the first one -/
  start : Nat
  /-- how many there are -/
  count : Nat
  /-- bytes of each one -/
  size : Nat
  deriving Repr, DecidableEq, Inhabited

namespace Records

/-- A list of records that ends inside the bytes. -/
def within? (b : ByteArray) (start count size : Nat) : Option Records :=
  if start + count * size ≤ b.size then some ⟨start, count, size⟩ else none

/-- The position behind the last record. -/
def stop (r : Records) : Nat := r.start + r.count * r.size

/-- The position of a record. -/
def position? (r : Records) (i : Nat) : Option Nat :=
  if i < r.count then some (r.start + i * r.size) else none

/-- A word of a record, at an offset inside it. -/
def word? (b : ByteArray) (r : Records) (i offset : Nat) : Option Nat :=
  (r.position? i).bind fun p => FontFile.word? b (p + offset)

/-- A number of four bytes of a record, at an offset inside it. -/
def long? (b : ByteArray) (r : Records) (i offset : Nat) : Option Nat :=
  (r.position? i).bind fun p => FontFile.long? b (p + offset)

end Records

/-! ## Tables -/

/-- The tag at the start of a file with glyph outlines of the first kind. -/
def outlineTag : Nat := 0x00010000

/-- Tags of single faces. -/
def faceTags : List Nat := [outlineTag, 0x74727565, 0x4F54544F]

/-- The tag of a file with several faces. -/
def collectionTag : Nat := 0x74746366

/-- The position behind the tag of the first face. -/
def faceStart? (b : ByteArray) : Option Nat := do
  let tag ← long? b 0
  if faceTags.contains tag then some 4
  else if tag == collectionTag then
    let count ← long? b 8
    let faces ← Records.within? b 12 count 4
    let start ← faces.long? b 0 0
    if start < faces.stop then none
    else
      let tag ← long? b start
      if faceTags.contains tag then some (start + 4) else none
  else none

/-- Where a table is. -/
structure TableEntry where
  /-- tag of the table -/
  tag : Nat
  /-- position of its first byte -/
  start : Nat
  /-- its length in bytes -/
  size : Nat
  deriving Repr, DecidableEq, Inhabited

/-- The tables of the first face. -/
def entries? (b : ByteArray) : Option (List TableEntry) := do
  let start ← faceStart? b
  let count ← word? b start
  let records ← Records.within? b (start + 8) count 16
  (List.range count).mapM fun i => do
    some ⟨← records.long? b i 0, ← records.long? b i 8, ← records.long? b i 12⟩

/-- The bytes of a table; of several tables with one tag the last one counts. -/
def table? (b : ByteArray) (entries : List TableEntry) (tag : Nat) : Option ByteArray :=
  match (entries.filter fun e => e.tag == tag).getLast? with
  | some e => slice? b e.start (e.start + e.size)
  | none => none

/-- The tag `head`. -/
def headTag : Nat := 0x68656164

/-- The tag `hhea`. -/
def hheaTag : Nat := 0x68686561

/-- The tag `maxp`. -/
def maxpTag : Nat := 0x6D617870

/-- The tag `hmtx`. -/
def hmtxTag : Nat := 0x686D7478

/-- The tag `cmap`. -/
def cmapTag : Nat := 0x636D6170

/-- The units of an advance that make up the font size, from the table `head`. -/
def readUnits? (head : ByteArray) : Option Nat := do
  if head.size < 54 then none
  else
    let units ← word? head 18
    let indexFormat ← word? head 50
    if 16 ≤ units && units ≤ 16384 && indexFormat ≤ 1 then some units else none

/-- How many advances there are, from the table `hhea`. -/
def readAdvanceCount? (hhea : ByteArray) : Option Nat := word? hhea 34

/-- How many glyphs there are, from the table `maxp`; at least one. -/
def readGlyphCount? (maxp : ByteArray) : Option Nat := do
  let version ← long? maxp 0
  let count ← word? maxp 4
  if (version == 0x00005000 || version == 0x00010000) && count != 0 then some count else none

/-! ## Advances -/

/-- The advance of a glyph. The table holds records of four bytes, each of which starts with an
advance; all further glyphs have the last one. -/
def readAdvance? (hmtx : ByteArray) (advances glyphs glyph : Nat) : Option Nat := do
  if advances == 0 then none
  else
    let records ← Records.within? hmtx 0 advances 4
    if glyph < max advances glyphs then records.word? hmtx (min glyph (advances - 1)) 0 else none

/-! ## Glyphs of characters -/

/-- Finds a member of a sorted list of segments, halving the range of indices from `low` up to
`high`. The order tells for an index whether the segments before it or after it have to be searched;
`none` ends the search. -/
def bisect (order : Nat → Option Ordering) : (fuel low high : Nat) → Option Nat
  | 0, _, _ => none
  | fuel + 1, low, high =>
    if low < high then
      let middle := (low + high) / 2
      match order middle with
      | some .eq => some middle
      | some .gt => bisect order fuel low middle
      | some .lt => bisect order fuel (middle + 1) high
      | none => none
    else none

/-- A subtable of segments with differences, for characters of sixteen bits. -/
structure Segments where
  /-- the bytes of the subtable and all behind it -/
  bytes : ByteArray
  /-- last characters of the segments -/
  ends : Records
  /-- first characters of the segments -/
  starts : Records
  /-- differences between characters and glyphs -/
  deltas : Records
  /-- offsets from their own places to lists of glyphs -/
  offsets : Records

namespace Segments

/-- Reads a subtable; it has at least one segment. -/
def read? (b : ByteArray) : Option Segments := do
  let count := (← word? b 6) / 2
  let ends ← Records.within? b 14 count 2
  let starts ← Records.within? b (ends.stop + 2) count 2
  let deltas ← Records.within? b starts.stop count 2
  let offsets ← Records.within? b deltas.stop count 2
  if count == 0 then none else some ⟨b, ends, starts, deltas, offsets⟩

/-- Where a segment lies in relation to a character. -/
def compare? (s : Segments) (code i : Nat) : Option Ordering := do
  let last ← s.ends.word? s.bytes i 0
  let first ← s.starts.word? s.bytes i 0
  some (if last < code then .lt else if code < first then .gt else .eq)

/-- The glyph of a character. Its segment either adds a difference to the character, or has an
offset to a list of glyphs, and the difference is added to the listed one. -/
def glyph? (s : Segments) (code : Nat) : Option Nat := do
  let i ← bisect (s.compare? code) (s.ends.count + 1) 0 s.ends.count
  let first ← s.starts.word? s.bytes i 0
  let delta ← s.deltas.word? s.bytes i 0
  let offset ← s.offsets.word? s.bytes i 0
  if offset == 0 then some ((code + delta) % 0x10000)
  else if offset == 0xFFFF || 0x10000 ≤ (code - first) * 2 then none
  else
    let place := (s.offsets.start + i * 2 + (code - first) * 2 + offset) % 0x10000
    let listed ← word? s.bytes place
    let glyph := (listed + delta) % 0x10000
    if listed == 0 || 0x8000 ≤ glyph then none else some glyph

end Segments

/-- The index of the group that may hold a character: the last one of `size` groups from `base` on
that does not start after it. -/
def groupIndex (startsAfter : Nat → Bool) : (fuel base size : Nat) → Nat
  | 0, base, _ => base
  | fuel + 1, base, size =>
    if 1 < size then
      let half := size / 2
      groupIndex startsAfter fuel (if startsAfter (base + half) then base else base + half)
        (size - half)
    else base

/-- A subtable of groups of consecutive characters. -/
structure Groups where
  /-- the bytes of the subtable and all behind it -/
  bytes : ByteArray
  /-- first character, last character and first glyph of each group -/
  groups : Records

namespace Groups

/-- Reads a subtable. -/
def read? (b : ByteArray) : Option Groups := do
  let count ← long? b 12
  some ⟨b, ← Records.within? b 16 count 12⟩

/-- A group starts after a character. -/
def startsAfter (g : Groups) (code i : Nat) : Bool :=
  match g.groups.long? g.bytes i 0 with
  | some first => code < first
  | none => true

/-- The glyph of a character. -/
def glyph? (g : Groups) (code : Nat) : Option Nat := do
  let i := groupIndex (g.startsAfter code) g.groups.count 0 g.groups.count
  let first ← g.groups.long? g.bytes i 0
  let last ← g.groups.long? g.bytes i 4
  let glyph ← g.groups.long? g.bytes i 8
  if code < first || last < code then none
  else if 0x100000000 ≤ glyph + code || 0x10000 ≤ glyph + code - first then none
  else some (glyph + code - first)

end Groups

/-- How a subtable leads from characters to glyphs. -/
inductive GlyphMap where
  /-- segments with differences -/
  | segments (map : Segments)
  /-- groups of consecutive characters -/
  | groups (map : Groups)
  /-- a format that is not read -/
  | other

namespace GlyphMap

/-- Formats that are known but not read. -/
def otherFormats : List Nat := [0, 2, 6, 8, 10, 13, 14]

/-- Reads a subtable, which has to be complete if its format is read. -/
def read? (b : ByteArray) : Option GlyphMap := do
  let format ← word? b 0
  if format == 4 then (Segments.read? b).map .segments
  else if format == 12 then (Groups.read? b).map .groups
  else if otherFormats.contains format then some .other
  else none

/-- The glyph of a character. -/
def glyph? : GlyphMap → Nat → Option Nat
  | segments map, code => if code < 0x10000 then map.glyph? code else none
  | groups map, code => map.glyph? code
  | other, _ => none

/-- A map is used if its characters are those of Unicode: all those of platform 0, and of platform 3
the encoding of sixteen bits and, in the form of groups, the full one. -/
def isUnicode (platform encoding : Nat) : GlyphMap → Bool
  | segments _ | other => platform == 0 || (platform == 3 && encoding == 1)
  | groups _ => platform == 0 || (platform == 3 && (encoding == 1 || encoding == 10))

end GlyphMap

/-- The maps for Unicode characters among the subtables from an index on. The first subtable that is
not sound ends the list. -/
def unicodeMaps (cmap : ByteArray) (records : Records) : (fuel i : Nat) → List GlyphMap
  | 0, _ => []
  | fuel + 1, i =>
    let found : Option (Nat × Nat × GlyphMap) := do
      let platform ← records.word? cmap i 0
      let encoding ← records.word? cmap i 2
      let start ← records.long? cmap i 4
      let map ← GlyphMap.read? (← slice? cmap start cmap.size)
      if platform ≤ 4 then some (platform, encoding, map) else none
    match found with
    | some (platform, encoding, map) =>
      let rest := unicodeMaps cmap records fuel (i + 1)
      if map.isUnicode platform encoding then map :: rest else rest
    | none => []

/-- All maps for Unicode characters. -/
def readMaps (cmap : ByteArray) : List GlyphMap :=
  match (word? cmap 2).bind fun count => Records.within? cmap 4 count 8 with
  | some records => unicodeMaps cmap records records.count 0
  | none => []

/-! ## The face -/

/-- Reads the first face of a font file. -/
def readFace? (b : ByteArray) : Option FontFace := do
  let entries ← entries? b
  let units ← readUnits? (← table? b entries headTag)
  let advances ← readAdvanceCount? (← table? b entries hheaTag)
  let glyphs ← readGlyphCount? (← table? b entries maxpTag)
  let maps := ((table? b entries cmapTag).map readMaps).getD []
  some
    { unitsPerEm := units
      glyph? := fun c => maps.findSome? fun m => m.glyph? c.toNat
      advance? := fun glyph => (table? b entries hmtxTag).bind fun hmtx =>
        readAdvance? hmtx advances glyphs glyph }

end Flowchart.FontFile
