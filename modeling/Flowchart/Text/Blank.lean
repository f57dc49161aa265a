/-!
# White space

White space is the Unicode property of that name: the ASCII blanks from tab to carriage return and
the space, the next-line control, the no-break space, and the separators of the higher planes.
Trimming, blank tests and the splitting of text into words all use this one class.
-/

namespace Flowchart.Text

/-- The character is white space. -/
def isBlank (c : Char) : Bool :=
  let n := c.toNat
  (9 ≤ n && n ≤ 13) || n == 0x20 || n == 0x85 || n == 0xA0 || n == 0x1680
    || (0x2000 ≤ n && n ≤ 0x200A) || n == 0x2028 || n == 0x2029 || n == 0x202F || n == 0x205F
    || n == 0x3000

/-- Space, tab, line feed, form feed or carriage return. -/
def isAsciiBlank (c : Char) : Bool :=
  c == ' ' || c == '\t' || c == '\n' || c == '\x0c' || c == '\r'

/-- The list without its leading members of a class. -/
def dropFront (p : Char → Bool) (cs : List Char) : List Char := cs.dropWhile p

/-- The list without its trailing members of a class. -/
def dropBack (p : Char → Bool) (cs : List Char) : List Char := (cs.reverse.dropWhile p).reverse

/-- The list without white space at its ends. -/
def trimChars (cs : List Char) : List Char := dropBack isBlank (dropFront isBlank cs)

/-- The text without white space at its ends. -/
def trim (s : String) : String := String.ofList (trimChars s.toList)

/-- The text without white space at its end. -/
def trimEnd (s : String) : String := String.ofList (dropBack isBlank s.toList)

/-- The text holds nothing but white space. -/
def isBlankText (s : String) : Bool := s.toList.all isBlank

/-- The maximal runs of characters outside a class, in order. -/
def runsOutside (p : Char → Bool) (cs : List Char) : List (List Char) :=
  (cs.splitOnP p).filter (!·.isEmpty)

/-- The words of a text: its maximal runs without white space. -/
def words (s : String) : List String := (runsOutside isBlank s.toList).map String.ofList

/-- Letters of the basic alphabet in upper case; all else as it is. -/
def upperAscii (s : String) : String := String.ofList (s.toList.map Char.toUpper)

/-- Letters of the basic alphabet in lower case; all else as it is. -/
def lowerAscii (s : String) : String := String.ofList (s.toList.map Char.toLower)

/-- The character belongs to the basic alphabet of 128 characters. -/
def isAscii (c : Char) : Bool := decide (c.toNat < 128)

/-- Removes one carriage return at the end of a line. -/
def dropOneReturn (l : List Char) : List Char :=
  if l.getLast? == some '\r' then l.dropLast else l

/-- The lines of a text. A line ends at a line feed, a carriage return right before it belongs to
the line break, and a line feed at the very end opens no further line. -/
def lines (s : String) : List String :=
  let parts := s.toList.splitOnP (· == '\n')
  let closed := parts.dropLast.map dropOneReturn
  let open_ := match parts.getLast? with
    | some (c :: cs) => [c :: cs]
    | _ => []
  (closed ++ open_).map String.ofList

end Flowchart.Text
