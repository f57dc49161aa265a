/-!
# Markup

A document is a tree of elements with attributes and text. Text, and attribute values that hold text
from elsewhere, are written with the five reserved characters replaced by entities, so that no tag
can begin inside them and no attribute can end early.
-/

namespace Flowchart

/-- What a character is written as. -/
def entityOf (c : Char) : List Char :=
  match c with
  | '&' => ['&', 'a', 'm', 'p', ';']
  | '<' => ['&', 'l', 't', ';']
  | '>' => ['&', 'g', 't', ';']
  | '"' => ['&', 'q', 'u', 'o', 't', ';']
  | '\'' => ['&', 'a', 'p', 'o', 's', ';']
  | c => [c]

/-- The text with its reserved characters written as entities. -/
def escapeMarkup (s : String) : String := String.ofList (s.toList.flatMap entityOf)

/-- An attribute of an element. -/
structure Attribute where
  /-- its name -/
  name : String
  /-- its value as it is written -/
  value : String
  deriving Repr, DecidableEq, Inhabited

/-- An attribute that holds text. -/
def Attribute.escaped (name value : String) : Attribute := ⟨name, escapeMarkup value⟩

/-- A piece of a document. -/
inductive Markup where
  /-- an element that cannot have content -/
  | void (name : String) (attributes : List Attribute)
  /-- an element with content -/
  | node (name : String) (attributes : List Attribute) (children : List Markup)
  /-- text -/
  | text (content : String)
  deriving Inhabited

namespace Markup

/-- Attributes as written inside a tag. -/
def attributesText (attributes : List Attribute) : String :=
  String.join (attributes.map fun a => " " ++ a.name ++ "=\"" ++ a.value ++ "\"")

mutual

/-- A piece of a document as text. -/
def render : Markup → String
  | void name attributes => "<" ++ name ++ attributesText attributes ++ "/>"
  | node name attributes children =>
    "<" ++ name ++ attributesText attributes ++ ">" ++ renderAll children ++ "</" ++ name ++ ">"
  | text content => escapeMarkup content

/-- Pieces of a document as text, one after the other. -/
def renderAll : List Markup → String
  | [] => ""
  | m :: rest => render m ++ renderAll rest

end

end Markup

end Flowchart
