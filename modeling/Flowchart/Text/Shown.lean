import Flowchart.Text.Letter

/-!
# Text shown in messages

A text inside a message stands in double quotes. Characters that would end it, or that could not be
seen, are written as escapes.
-/

namespace Flowchart.Text

/-- The character extends the one before it and is not seen on its own. -/
def isExtender (c : Char) : Bool :=
  isNonspacing c || inClass enclosingChanges c || inClass extenderOtherChanges c

/-- The character cannot be seen. A blank can, if it is the common one. -/
def isUnseen (c : Char) : Bool := c.toNat < 0x20 || inClass hiddenChanges c || isExtender c

/-- A character inside a shown text; `quotes` are the quotes that are escaped. -/
def shownChar (quotes : List Char) (c : Char) : String :=
  match c with
  | '\x00' => "\\0"
  | '\t' => "\\t"
  | '\n' => "\\n"
  | '\r' => "\\r"
  | '\\' => "\\\\"
  | c =>
    if quotes.contains c then "\\" ++ c.toString
    else if isUnseen c then
      "\\u\x7b" ++ String.ofList (Nat.toDigits 16 c.toNat) ++ "\x7d"
    else c.toString

/-- A shown text. -/
def shown (quotes : List Char) (s : String) : String :=
  "\"" ++ String.join (s.toList.map (shownChar quotes)) ++ "\""

end Flowchart.Text
