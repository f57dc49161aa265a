import Flowchart.Command.Arguments
import Flowchart.Command.Fences
import Flowchart.Command.Files
import Flowchart.Command.Help
import Flowchart.Command.Paths
import Flowchart.Command.Run
import Flowchart.Decimal.Binary
import Flowchart.Decimal.Fixed
import Flowchart.Decimal.Reading
import Flowchart.Decimal.Shortest
import Flowchart.Diagram.Basic
import Flowchart.Diagram.Direction
import Flowchart.Diagram.Shape
import Flowchart.Diagram.Style
import Flowchart.Drawing.Encode
import Flowchart.Drawing.Markup
import Flowchart.Drawing.Picture
import Flowchart.Drawing.Primitive
import Flowchart.Drawing.Svg
import Flowchart.Geometry.Arc
import Flowchart.Geometry.ArcLength
import Flowchart.Geometry.Outline
import Flowchart.Geometry.PathText
import Flowchart.Geometry.Point
import Flowchart.Geometry.Ray
import Flowchart.Geometry.Rect
import Flowchart.Geometry.Roots
import Flowchart.Geometry.Segment
import Flowchart.Geometry.Spline
import Flowchart.Grammar.Arrow
import Flowchart.Grammar.Builder
import Flowchart.Grammar.Chain
import Flowchart.Grammar.Directive
import Flowchart.Grammar.Document
import Flowchart.Grammar.Lines
import Flowchart.Grammar.Mask
import Flowchart.Grammar.Reference
import Flowchart.Grammar.Statement
import Flowchart.Json.Expected
import Flowchart.Json.Fault
import Flowchart.Json.Printer
import Flowchart.Json.Reader
import Flowchart.Json.Record
import Flowchart.Json.Relaxed
import Flowchart.Json.Value
import Flowchart.Keyed
import Flowchart.Layered.Coordinates
import Flowchart.Layered.Crossings
import Flowchart.Layered.Cycles
import Flowchart.Layered.Graph
import Flowchart.Layered.Ordering
import Flowchart.Layered.Ranking
import Flowchart.Layered.Simplex
import Flowchart.Layered.Walk
import Flowchart.Layout.Boxes
import Flowchart.Layout.Canvas
import Flowchart.Layout.Directed
import Flowchart.Layout.Engine
import Flowchart.Layout.Options
import Flowchart.Layout.Parts
import Flowchart.Layout.Placement
import Flowchart.Layout.Sizing
import Flowchart.Layout.Snapshot
import Flowchart.Main
import Flowchart.Measure.Estimated
import Flowchart.Measure.Font
import Flowchart.Measure.FontFile
import Flowchart.Measure.Lines
import Flowchart.Proofs.Blocks.Addresses
import Flowchart.Proofs.Blocks.AutomaticIds
import Flowchart.Proofs.Blocks.Laminar
import Flowchart.Proofs.Blocks.LinkEnds
import Flowchart.Proofs.Blocks.Listing
import Flowchart.Proofs.Blocks.Membership
import Flowchart.Proofs.Blocks.Nesting
import Flowchart.Proofs.Blocks.Opening
import Flowchart.Proofs.Blocks.Slots
import Flowchart.Proofs.Boxes.Carrying
import Flowchart.Proofs.Boxes.Containment
import Flowchart.Proofs.Boxes.Fitting
import Flowchart.Proofs.Boxes.Moving
import Flowchart.Proofs.Boxes.Nesting
import Flowchart.Proofs.Boxes.Overlap
import Flowchart.Proofs.Boxes.Pushing
import Flowchart.Proofs.Boxes.Settling
import Flowchart.Proofs.Boxes.Stacking
import Flowchart.Proofs.Command.FencedBlocks
import Flowchart.Proofs.DepthFirst.Finishing
import Flowchart.Proofs.DepthFirst.Steps
import Flowchart.Proofs.DepthFirst.Tree
import Flowchart.Proofs.Document.Closed
import Flowchart.Proofs.Document.Directives
import Flowchart.Proofs.Document.LabelLines
import Flowchart.Proofs.Document.Locations
import Flowchart.Proofs.Document.Mentions
import Flowchart.Proofs.Document.Noise
import Flowchart.Proofs.Document.Remarks
import Flowchart.Proofs.Document.Separators
import Flowchart.Proofs.Document.Statements
import Flowchart.Proofs.Document.Warnings
import Flowchart.Proofs.Drawing.Escaping
import Flowchart.Proofs.Drawing.Numbers
import Flowchart.Proofs.Drawing.Pictures
import Flowchart.Proofs.Drawing.Tags
import Flowchart.Proofs.Geometry.ArcLength
import Flowchart.Proofs.Geometry.Centroids
import Flowchart.Proofs.Geometry.Polygons
import Flowchart.Proofs.Geometry.Rays
import Flowchart.Proofs.LayerGraph.Adjacency
import Flowchart.Proofs.LayerGraph.Arrangement
import Flowchart.Proofs.LayerGraph.Building
import Flowchart.Proofs.LayerGraph.Crossings
import Flowchart.Proofs.LayerGraph.CycleRemoval
import Flowchart.Proofs.LayerGraph.Editing
import Flowchart.Proofs.LayerGraph.Frame
import Flowchart.Proofs.LayerGraph.Grouping
import Flowchart.Proofs.LayerGraph.Indexing
import Flowchart.Proofs.LayerGraph.ProperLayering
import Flowchart.Proofs.LayerGraph.RoundTrip
import Flowchart.Proofs.LayerGraph.Separation
import Flowchart.Proofs.LayerGraph.Splitting
import Flowchart.Proofs.LayerGraph.Sweeps
import Flowchart.Proofs.LayerGraph.Turning
import Flowchart.Proofs.Layout.Canvas
import Flowchart.Proofs.Layout.Conservation
import Flowchart.Proofs.Layout.LinkStyles
import Flowchart.Proofs.Layout.OwnDirections
import Flowchart.Proofs.Measure.Advances
import Flowchart.Proofs.Measure.Wrapping
import Flowchart.Proofs.Offsets.Alignment
import Flowchart.Proofs.Offsets.Arrows
import Flowchart.Proofs.Offsets.Chains
import Flowchart.Proofs.Offsets.References
import Flowchart.Proofs.PathText.Numbers
import Flowchart.Proofs.PathText.RoundTrip
import Flowchart.Proofs.PathText.Spellings
import Flowchart.Proofs.Placement.Waypoints
import Flowchart.Proofs.Placement.WorkingGraph
import Flowchart.Proofs.Printing.Arrows
import Flowchart.Proofs.Printing.BareLabels
import Flowchart.Proofs.Printing.Forms
import Flowchart.Proofs.Printing.Masking
import Flowchart.Proofs.Printing.References
import Flowchart.Proofs.Printing.RoundTrip
import Flowchart.Proofs.Printing.Words
import Flowchart.Proofs.Ranking.Anchoring
import Flowchart.Proofs.Ranking.ComponentLinks
import Flowchart.Proofs.Ranking.Components
import Flowchart.Proofs.Ranking.Extremes
import Flowchart.Proofs.Ranking.FirstTree
import Flowchart.Proofs.Ranking.Layering
import Flowchart.Proofs.Ranking.Layers
import Flowchart.Proofs.Ranking.Optimum
import Flowchart.Proofs.Ranking.TopologicalOrder
import Flowchart.Proofs.Ranking.TotalLength
import Flowchart.Proofs.Route.Anchors
import Flowchart.Proofs.Route.BackRoutes
import Flowchart.Proofs.Route.Corners
import Flowchart.Proofs.Route.Detours
import Flowchart.Proofs.Route.Fans
import Flowchart.Proofs.Route.Squareness
import Flowchart.Proofs.Route.Stops
import Flowchart.Proofs.Scalar.Distances
import Flowchart.Proofs.Scalar.Exact
import Flowchart.Proofs.Scalar.Integers
import Flowchart.Proofs.Scalar.Nonneg
import Flowchart.Proofs.Scalar.Packing
import Flowchart.Proofs.Scalar.Real
import Flowchart.Proofs.Scalar.Single
import Flowchart.Proofs.Scalar.Whole
import Flowchart.Proofs.Scalar.WholeDecimals
import Flowchart.Proofs.Settings.Layering
import Flowchart.Proofs.Simplex.Cuts
import Flowchart.Proofs.Simplex.Exchange
import Flowchart.Proofs.Simplex.Growing
import Flowchart.Proofs.Simplex.Numbering
import Flowchart.Proofs.Simplex.Optimum
import Flowchart.Proofs.Simplex.Running
import Flowchart.Proofs.Simplex.State
import Flowchart.Proofs.Table
import Flowchart.Render
import Flowchart.Route.Edges
import Flowchart.Route.Labels
import Flowchart.Route.Obstacles
import Flowchart.Route.Orthogonal
import Flowchart.Route.Polyline
import Flowchart.Route.Ports
import Flowchart.Scalar
import Flowchart.Settings.Decode
import Flowchart.Settings.Encode
import Flowchart.Settings.Layers
import Flowchart.Settings.Theme
import Flowchart.Text.Blank
import Flowchart.Text.Letter
import Flowchart.Text.Property
import Flowchart.Text.Search
import Flowchart.Text.Shown
