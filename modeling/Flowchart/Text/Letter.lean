import Flowchart.Text.Property

/-!
# Letters and numbers

Identifiers of a diagram are made of letters and numbers of any script: the Unicode property
*Alphabetic* and the number categories. Two neighbouring classes differ from them in their margins.
Words, into which a keyword must not run, also hold marks and connecting punctuation, but no numbers
that are neither digits nor letters. Names of fields without quotes begin with a letter in the
narrow sense and go on with letters, digits, nonspacing marks, diacritics and connecting
punctuation.

Within the basic alphabet all of them come down to the digits, the two cases of the Latin letters
and a few signs.
-/

namespace Flowchart.Text

/-- The character is a letter, or a number that is written with letters. -/
def isLetter (c : Char) : Bool := if c.toNat < 128 then c.isAlpha else inClass letterChanges c

/-- The character is a decimal digit of some script. -/
def isDecimalDigit (c : Char) : Bool := if c.toNat < 128 then c.isDigit else inClass digitChanges c

/-- The character is a mark that takes no room of its own. -/
def isNonspacing (c : Char) : Bool := inClass nonspacingChanges c

/-- The character is a mark of any kind. -/
def isMark (c : Char) : Bool :=
  isNonspacing c || inClass spacingChanges c || inClass enclosingChanges c

/-- The character is connecting punctuation, such as the underscore. -/
def isConnector (c : Char) : Bool := c == '_' || inClass connectorChanges c

/-- The character changes how its neighbours are joined and is not seen itself. -/
def isJoiner (c : Char) : Bool := c.toNat == 0x200C || c.toNat == 0x200D

/-- The character is a diacritic that stands alone or takes room of its own. The two of the basic
alphabet are the circumflex and the grave accent. -/
def isDiacriticSign (c : Char) : Bool :=
  c.toNat == 0x5E || c.toNat == 0x60 || inClass diacriticOtherChanges c

/-- The character is a letter, or is read as part of one: a vowel sign, a letter in a circle. -/
def isAlphabetic (c : Char) : Bool := isLetter c || inClass alphabeticOtherChanges c

/-- The character is a letter or a number of some script. -/
def isAlphanumeric (c : Char) : Bool :=
  isAlphabetic c || isDecimalDigit c || inClass numberOtherChanges c

/-- The character may stand in an identifier: a letter, a number or an underscore. -/
def isIdentifierChar (c : Char) : Bool := isAlphanumeric c || c == '_'

/-- The character continues a word, so that a keyword right before it is only part of that word. -/
def isWordChar (c : Char) : Bool :=
  isAlphabetic c || isDecimalDigit c || isMark c || isConnector c || isJoiner c

/-- The character may begin the name of a field that is written without quotes. -/
def isNameStart (c : Char) : Bool := isLetter c || c == '$' || c == '_'

/-- The character may continue the name of a field that is written without quotes. -/
def isNamePart (c : Char) : Bool :=
  isNameStart c || isDecimalDigit c || isNonspacing c || isDiacriticSign c || isConnector c
    || isJoiner c

end Flowchart.Text
