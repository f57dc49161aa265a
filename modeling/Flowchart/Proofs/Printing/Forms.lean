import Flowchart.Grammar.Chain
import Flowchart.Proofs.Printing.Words

/-!
# Printed chains

The forms in which chains are printed. A node is printed as its id, then, if it has a shape, as its
label in quotes between the delimiters of the shape, then as its classes after three colons each.
Nodes of a group are joined by separators, and links are printed between blanks: the bare arrow, the
arrow with a text between bars, or a text between an opening and the arrow.

Each form comes with what it is to be read as.
-/

namespace Flowchart

/-! ## Texts -/

/-- A word of letters, numbers and underscores. -/
structure Word where
  /-- its characters -/
  chars : List Char
  nonempty : chars ≠ []
  identifier : ∀ c ∈ chars, Text.isIdentifierChar c = true

/-- The word of one character. -/
def Word.letter (c : Char) (h : Text.isIdentifierChar c = true) : Word where
  chars := [c]
  nonempty := List.cons_ne_nil c []
  identifier := List.forall_mem_singleton.mpr h

/-- A text that can be put in quotes. -/
structure QuotedText where
  /-- its characters -/
  chars : List Char
  unquoted : '"' ∉ chars

/-- A text that can be put between bars. -/
structure BarredText where
  /-- its characters -/
  chars : List Char
  nonempty : chars ≠ []
  trimmed : Text.trimChars chars = chars
  unbarred : '|' ∉ chars
  unquoted : '"' ∉ chars

/-! ## Nodes -/

/-- The opening delimiter of a shape. -/
def Shape.opening (s : Shape) : List Char :=
  ((shapeDelimiters.find? fun d => d.2.2 == s).map fun d => d.1).getD []

/-- The closing delimiter of a shape. -/
def Shape.closing (s : Shape) : List Char :=
  ((shapeDelimiters.find? fun d => d.2.2 == s).map fun d => d.2.1).getD []

/-- A node with what is printed beside its id. -/
structure PrintedNode where
  /-- its name -/
  id : Word
  /-- its shape with the label -/
  body : Option (Shape × QuotedText)
  /-- its classes -/
  classes : List Word

namespace PrintedNode

/-- The label in the delimiters of the shape. -/
def printBody : Option (Shape × QuotedText) → List Char
  | none => []
  | some (s, label) => s.opening ++ '"' :: (label.chars ++ '"' :: s.closing)

/-- The classes after three colons each. -/
def printClasses (classes : List Word) : List Char :=
  classes.flatMap fun w => ':' :: ':' :: ':' :: w.chars

/-- The text of a node. -/
def print (n : PrintedNode) : List Char := n.id.chars ++ (printBody n.body ++ printClasses n.classes)

/-- What a node is to be read as. -/
def ref (n : PrintedNode) : NodeRef where
  id := String.ofList n.id.chars
  label := n.body.map fun b => String.ofList b.2.chars
  shape := n.body.map Prod.fst
  classes := n.classes.map fun w => String.ofList w.chars

end PrintedNode

/-- A group of nodes, which is not empty. -/
structure PrintedGroup where
  /-- the first node -/
  first : PrintedNode
  /-- the nodes after it -/
  more : List PrintedNode

namespace PrintedGroup

/-- Further nodes of a group, each after a separator. -/
def printMore (ns : List PrintedNode) : List Char :=
  ns.flatMap fun n => ' ' :: '&' :: ' ' :: n.print

/-- The text of a group. -/
def print (g : PrintedGroup) : List Char := g.first.print ++ printMore g.more

/-- What a group is to be read as. -/
def refs (g : PrintedGroup) : List NodeRef := g.first.ref :: g.more.map PrintedNode.ref

end PrintedGroup

/-! ## Links -/

/-- An arrow: its line, what it points with, and by how many characters it is longer than the
shortest one of its kind. -/
structure PrintedArrow where
  /-- how it is drawn -/
  line : LineStyle
  /-- what it points with -/
  kind : LinkKind
  /-- how many characters are added -/
  extra : Nat

namespace PrintedArrow

/-- The head at the near end. -/
def tail : LinkKind → List Char
  | .bidirectional => ['<']
  | _ => []

/-- The head at the far end. -/
def head : LinkKind → List Char
  | .arrow | .bidirectional => ['>']
  | .circleEnd => ['o']
  | .crossEnd => ['x']
  | .plain => []

/-- The line itself: two characters before a head and three without one, or dots between dashes. -/
def stroke (line : LineStyle) (kind : LinkKind) (extra : Nat) : List Char :=
  let count := if kind = .plain then extra + 3 else extra + 2
  match line with
  | .solid => List.replicate count '-'
  | .thick => List.replicate count '='
  | .dotted => '-' :: (List.replicate (extra + 1) '.' ++ ['-'])

/-- The text of an arrow. -/
def print (a : PrintedArrow) : List Char :=
  tail a.kind ++ (stroke a.line a.kind a.extra ++ head a.kind)

end PrintedArrow

/-- The text of a link. -/
inductive LinkText where
  /-- there is none -/
  | bare
  /-- it stands between bars after the arrow -/
  | barred (text : BarredText)
  /-- it stands between an opening and the arrow, its words after a blank each -/
  | worded (opener : LineStyle) (first : Word) (more : List Word)

/-- The opening of a text. -/
def LineStyle.opener : LineStyle → List Char
  | .solid => ['-', '-']
  | .thick => ['=', '=']
  | .dotted => ['-', '.']

/-- Words with a blank before each but the first. -/
def printWords (first : Word) (more : List Word) : List Char :=
  first.chars ++ more.flatMap fun w => ' ' :: w.chars

/-- A link with its text. -/
structure PrintedLink where
  /-- the arrow -/
  arrow : PrintedArrow
  /-- the text -/
  text : LinkText

namespace PrintedLink

/-- What stands before the arrow of a link. -/
def before : LinkText → List Char
  | .worded opener first more => opener.opener ++ ' ' :: (printWords first more ++ [' '])
  | _ => []

/-- What stands after the arrow of a link. -/
def after : LinkText → List Char
  | .barred text => '|' :: (text.chars ++ ['|'])
  | _ => []

/-- The text of a link. -/
def print (l : PrintedLink) : List Char := before l.text ++ (l.arrow.print ++ after l.text)

/-- The label of a link. -/
def label : LinkText → Option String
  | .bare => none
  | .barred text => some (String.ofList text.chars)
  | .worded _ first more => some (String.ofList (printWords first more))

/-- What a link is to be read as. -/
def link (l : PrintedLink) : Link where
  kind := l.arrow.kind
  line := l.arrow.line
  label := label l.text

end PrintedLink

/-! ## Chains -/

/-- A chain: a group, and links with the groups after them. -/
structure PrintedChain where
  /-- the first group -/
  first : PrintedGroup
  /-- the links, each with the group after it -/
  rest : List (PrintedLink × PrintedGroup)

namespace PrintedChain

/-- Links and the groups after them. -/
def printRest (rest : List (PrintedLink × PrintedGroup)) : List Char :=
  rest.flatMap fun e => ' ' :: (e.1.print ++ ' ' :: e.2.print)

/-- The text of a chain. -/
def print (c : PrintedChain) : List Char := c.first.print ++ printRest c.rest

/-- What a chain is to be read as. -/
def chain (c : PrintedChain) : Chain where
  first := c.first.refs
  rest := c.rest.map fun e => (e.1.link, e.2.refs)

end PrintedChain

end Flowchart
