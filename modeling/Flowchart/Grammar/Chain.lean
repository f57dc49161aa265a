import Flowchart.Grammar.Arrow
import Flowchart.Grammar.Reference

/-!
# Chains

A chain is a statement made of groups of nodes with links between them. The text of a link stands
between an opening and a closing arrow, or between bars beside the arrow. Every node of a group is
linked with every node of the next one.
-/

namespace Flowchart

/-- A link of a chain. -/
structure Link where
  /-- what it points with -/
  kind : LinkKind
  /-- how it is drawn -/
  line : LineStyle
  /-- its text -/
  label : Option String := none
  deriving Repr, DecidableEq

/-- A group of nodes, and for every link the group that follows it. -/
structure Chain where
  /-- the nodes before the first link -/
  first : List NodeRef
  /-- the links, each with the nodes after it -/
  rest : List (Link × List NodeRef)
  deriving Repr, DecidableEq

/-- All mentions of nodes in order. -/
def Chain.references (c : Chain) : List NodeRef := c.first ++ c.rest.flatMap Prod.snd

/-! ## Links -/

/-- Joins opening and closing arrows to links: the text between them is the label. -/
def joinArrows : List (ArrowToken × List Marked) → Except Rejection (List (Link × List Marked))
  | [] => .ok []
  | (.link kind line, text) :: rest => do
    let rest ← joinArrows rest
    return (⟨kind, line, none⟩, text) :: rest
  | (.labelOpen, label) :: (.link kind line, text) :: rest => do
    let rest ← joinArrows rest
    return (⟨kind, line, cleanLabel? (Marked.chars label)⟩, text) :: rest
  | (.labelOpen, _) :: _ => .error .openEdgeLabel

/-- A group without the label between bars at one of its ends. -/
structure Unbarred where
  /-- the label, if there were bars; it may be empty -/
  label : Option (Option String)
  /-- the rest of the group -/
  rest : List Marked

/-- Takes a label between bars from the front of a group. -/
def takeFrontLabel (ms : List Marked) : Unbarred :=
  match ms.dropWhile fun m => Text.isBlank m.char with
  | m :: rest =>
    if m.char == '|' then
      let label := rest.takeWhile fun m => m.char != '|'
      match rest.drop label.length with
      | _ :: body => ⟨some (cleanLabel? (Marked.chars label)), body⟩
      | [] => ⟨none, ms⟩
    else ⟨none, ms⟩
  | [] => ⟨none, ms⟩

/-- Takes a label between bars from the back of a group. -/
def takeBackLabel (ms : List Marked) : Unbarred :=
  match ms.reverse.dropWhile fun m => Text.isBlank m.char with
  | m :: rest =>
    if m.char == '|' then
      let label := rest.takeWhile fun m => m.char != '|'
      match rest.drop label.length with
      | _ :: body => ⟨some (cleanLabel? (Marked.chars label.reverse)), body.reverse⟩
      | [] => ⟨none, ms⟩
    else ⟨none, ms⟩
  | [] => ⟨none, ms⟩

/-- Gives a link a label unless it has one. -/
def Link.withLabel (l : Link) (label : Option (Option String)) : Link :=
  match l.label with
  | some _ => l
  | none => { l with label := label.join }

/-! ## Groups -/

/-- Cuts a marked text at its visible separators of nodes. -/
def splitReferences (ms : List Marked) : List (List Marked) :=
  ms.splitOnP fun m => m.visible && m.char == '&'

/-- Reads the parts of a group; `blank` tells that nothing visible stands in the whole group. -/
def readParts (blank : Bool) : List (List Char) → Except Rejection (List NodeRef)
  | [] => .ok []
  | part :: rest =>
    if part.isEmpty then
      if blank then readParts blank rest else .error .emptyReference
    else do
      let node ← readReference part
      let rest ← readParts blank rest
      return node :: rest

/-- Reads a group of nodes. -/
def readGroup (ms : List Marked) : Except Rejection (List NodeRef) :=
  let blank := (Marked.shownChars ms).all Text.isBlank
  readParts blank ((splitReferences ms).map fun part => Text.trimChars (Marked.chars part))

/-- Reads a group that must not be empty. -/
def readFullGroup (ms : List Marked) (whenEmpty : Rejection) :
    Except Rejection (List NodeRef) := do
  let nodes ← readGroup ms
  if nodes.isEmpty then throw whenEmpty else return nodes

/-- Reads the groups after links. The label between bars that stands at the back of the group before
was taken already and is given for the first link. -/
def readLinks (pending : Option (Option String)) :
    List (Link × List Marked) → Except Rejection (List (Link × List NodeRef))
  | [] => .ok []
  | (link, text) :: rest => do
    let front := takeFrontLabel text
    let link := (link.withLabel pending).withLabel front.label
    let back := if rest.isEmpty then ⟨none, front.rest⟩ else takeBackLabel front.rest
    let nodes ← readFullGroup back.rest .noTarget
    let rest ← readLinks back.label rest
    return (link, nodes) :: rest

/-- Reads a statement as a chain. -/
def readChain (cs : List Char) : Except Rejection Chain := do
  let split := splitArrows (markLabels cs)
  let links ← joinArrows split.rest
  let back := if links.isEmpty then ⟨none, split.first⟩ else takeBackLabel split.first
  let first ← readFullGroup back.rest .noSource
  let rest ← readLinks back.label links
  return ⟨first, rest⟩

end Flowchart
