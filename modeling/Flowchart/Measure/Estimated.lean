import Flowchart.Measure.Lines

/-!
# Estimated widths

Without a font at hand, widths are estimated from a table of character widths, given as shares of
the font size and fitted to a common sans-serif face.
-/

namespace Flowchart

variable {α : Type} [Scalar α]

/-- Width of a character as a share of the font size. -/
def charWidth (c : Char) : α :=
  match c with
  | ' ' => 0.306
  | '\\' | '.' | ',' | ':' | ';' | '|' | '!' | '(' | ')' | '[' | ']' | '{' | '}' => 0.321
  | 'A' => 0.652
  | 'B' => 0.648
  | 'C' => 0.734
  | 'D' => 0.723
  | 'E' => 0.594
  | 'F' => 0.575
  | 'G' | 'H' => 0.742
  | 'I' => 0.272
  | 'J' => 0.557
  | 'K' => 0.648
  | 'L' => 0.559
  | 'M' => 0.903
  | 'N' => 0.763
  | 'O' => 0.754
  | 'P' => 0.623
  | 'Q' => 0.755
  | 'R' => 0.637
  | 'S' => 0.633
  | 'T' => 0.599
  | 'U' => 0.746
  | 'V' => 0.661
  | 'W' => 0.958
  | 'X' => 0.655
  | 'Y' => 0.646
  | 'Z' => 0.621
  | 'a' | 'z' => 0.550
  | 'b' => 0.603
  | 'c' => 0.547
  | 'd' => 0.609
  | 'e' => 0.570
  | 'f' => 0.340
  | 'g' | 'h' => 0.600
  | 'i' => 0.235
  | 'j' => 0.227
  | 'k' => 0.522
  | 'l' => 0.239
  | 'm' => 0.867
  | 'n' | 'q' | 'u' => 0.585
  | 'o' => 0.574
  | 'p' => 0.595
  | 'r' => 0.364
  | 's' => 0.523
  | 't' => 0.305
  | 'v' => 0.545
  | 'w' => 0.811
  | 'x' => 0.538
  | 'y' => 0.556
  | '0' => 0.613
  | '1' => 0.396
  | '2' => 0.609
  | '3' => 0.597
  | '4' => 0.614
  | '5' => 0.586
  | '6' => 0.608
  | '7' => 0.559
  | '8' => 0.611
  | '9' => 0.595
  | '@' | '#' | '%' | '&' => 0.946
  | _ => 0.568

/-- Measures with the table of character widths. -/
def Measurer.estimated : Measurer α where
  lineWidth line fontSize := Scalar.sum (line.toList.map charWidth) * fontSize

end Flowchart
