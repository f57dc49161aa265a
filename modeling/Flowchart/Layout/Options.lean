import Flowchart.Scalar
import Flowchart.Diagram.Direction
import Flowchart.Layered.Ranking

/-!
# Layout options

The distances, limits and strategies that a layout follows.
-/

namespace Flowchart

/-- What a layout follows. -/
structure LayoutOptions (α : Type) where
  /-- gap between the boxes of a rank -/
  nodeSpacing : α
  /-- gap between two ranks -/
  rankSpacing : α
  /-- gap beside a connection that passes through a rank, and between parallel connections -/
  edgeSpacing : α
  /-- room beside the label of a node -/
  nodePaddingX : α
  /-- room above and below the label of a node -/
  nodePaddingY : α
  /-- room around the members of a block -/
  blockPadding : α
  /-- least room for the title of a block -/
  blockTitlePadding : α
  /-- height of a line as a multiple of the font size -/
  labelLineHeight : α
  /-- average characters that fit a line of a label -/
  maxLabelChars : Nat
  /-- how ranks are chosen -/
  rankStrategy : RankStrategy
  /-- most sweeps of the ordering -/
  orderPasses : Nat
  /-- sweeps of the coordinate assignment -/
  coordinateSweeps : Nat
  /-- most exchanges of the network simplex -/
  simplexLimit : Nat
  /-- connections are drawn as smooth curves -/
  curvedEdges : Bool
  /-- room left for the symbol at the end of a connection -/
  arrowOffset : α
  /-- share of a side kept free of ports at its ends -/
  portPadRatio : α
  /-- least length kept free -/
  portPadMin : α
  /-- greatest length kept free -/
  portPadMax : α
  /-- most nodes of a diagram -/
  maxNodes : Nat
  /-- most connections of a diagram -/
  maxEdges : Nat
  /-- name of the layout algorithm -/
  engine : String
  /-- direction that replaces the one of the diagram -/
  directionOverride : Option Direction
  deriving Inhabited

/-- The options used when nothing else is said. -/
def LayoutOptions.standard {α : Type} [Scalar α] : LayoutOptions α where
  nodeSpacing := 50.0
  rankSpacing := 50.0
  edgeSpacing := 10.0
  nodePaddingX := 30.0
  nodePaddingY := 15.0
  blockPadding := 16.0
  blockTitlePadding := 24.0
  labelLineHeight := 1.5
  maxLabelChars := 22
  rankStrategy := .networkSimplex
  orderPasses := 24
  coordinateSweeps := 4
  simplexLimit := 500
  curvedEdges := false
  arrowOffset := 4.0
  portPadRatio := 0.2
  portPadMin := 4.0
  portPadMax := 12.0
  maxNodes := 2000
  maxEdges := 5000
  engine := "layered"
  directionOverride := none

end Flowchart
