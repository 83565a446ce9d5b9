import Flowchart.Build
import Flowchart.Color.Basic
import Flowchart.Color.Css
import Flowchart.Color.Name
import Flowchart.Color.Value
import Flowchart.Command.Arguments
import Flowchart.Command.Run
import Flowchart.Config
import Flowchart.Decimal.Basic
import Flowchart.Decimal.Shortest
import Flowchart.Decimal.Text
import Flowchart.Diagnostic
import Flowchart.Diagram.Basic
import Flowchart.Diagram.Collector
import Flowchart.Diagram.Draft
import Flowchart.Diagram.Pass
import Flowchart.Diagram.Style
import Flowchart.Disk.Basic
import Flowchart.Disk.Tree
import Flowchart.Engine.Basic
import Flowchart.Engine.Layered
import Flowchart.Engine.Numbering
import Flowchart.Engine.Route
import Flowchart.Engine.Slot
import Flowchart.Engine.Sweep
import Flowchart.Geometry
import Flowchart.Graph.Basic
import Flowchart.Graph.Json
import Flowchart.Graph.Pin
import Flowchart.Json.Basic
import Flowchart.Json.Field
import Flowchart.Json.Printer
import Flowchart.Json.Reader
import Flowchart.Layering.Acyclic
import Flowchart.Layering.Basic
import Flowchart.Layering.Coordinate
import Flowchart.Layering.Digraph
import Flowchart.Layering.Level
import Flowchart.Layering.Order
import Flowchart.Layering.Rank
import Flowchart.Layout.Basic
import Flowchart.Layout.Exchange
import Flowchart.Layout.Grid
import Flowchart.Main
import Flowchart.Report
import Flowchart.RunError
import Flowchart.Session
import Flowchart.Single
import Flowchart.Source.Header
import Flowchart.Source.Line
import Flowchart.Statement.Basic
import Flowchart.Statement.Form
import Flowchart.Text.Blank
import Flowchart.Toml.Basic
import Flowchart.Toml.Reader
import Flowchart.Toml.Scalar
import Flowchart.Viewport
import Flowchart.Proofs.Layout.Content
import Flowchart.Proofs.Diagram.Reading
import Flowchart.Proofs.Diagram.Meaning
import Flowchart.Proofs.Session.Pins
import Flowchart.Proofs.Single.Rounding
import Flowchart.Proofs.Binary.Units
import Flowchart.Proofs.Single.Units
import Flowchart.Proofs.Single.Sum
import Flowchart.Proofs.Binary.Rounding
import Flowchart.Proofs.Double
import Flowchart.Proofs.Single.Exact
import Flowchart.Proofs.Engine.Level
import Flowchart.Proofs.Engine.Column
import Flowchart.Proofs.Engine.Part
import Flowchart.Proofs.Engine.Standing
import Flowchart.Proofs.Engine.Sweep
import Flowchart.Proofs.Engine.Stack
import Flowchart.Proofs.Engine.Numbering
import Flowchart.Proofs.Engine.Roll
import Flowchart.Proofs.Engine.Slot
import Flowchart.Proofs.Layout.Clearance
import Flowchart.Proofs.Engine.Separation
import Flowchart.Proofs.Statement.Token
import Flowchart.Proofs.Statement.Agreement
import Flowchart.Proofs.Statement.Printer
import Flowchart.Proofs.Diagram.Strictness
import Flowchart.Proofs.Layout.Planned
import Flowchart.Proofs.Layout.Relayout
import Flowchart.Proofs.Layout.Recovery
import Flowchart.Proofs.Json.Roundtrip
import Flowchart.Proofs.Json.Compact
import Flowchart.Proofs.Graph.Json
import Flowchart.Proofs.Graph.Parsed
import Flowchart.Proofs.Disk.Tree
import Flowchart.Proofs.Command.OwnText
import Flowchart.Proofs.Source.Header
import Flowchart.Proofs.Source.Place
import Flowchart.Proofs.Statement.Order
import Flowchart.Proofs.Diagram.Place
import Flowchart.Proofs.Diagram.Noise
import Flowchart.Proofs.Layout.Visible
import Flowchart.Proofs.Layout.Matching
import Flowchart.Proofs.Engine.Ends
import Flowchart.Proofs.Engine.Bystander
import Flowchart.Proofs.Single.Middle
import Flowchart.Proofs.Engine.Side
import Flowchart.Proofs.Engine.Route
import Flowchart.Proofs.Single.Monotone
import Flowchart.Proofs.Engine.Fixed
import Flowchart.Proofs.Engine.Ranking
import Flowchart.Proofs.Layout.Extent
import Flowchart.Proofs.Layout.Cells
import Flowchart.Proofs.Diagram.Paint
import Flowchart.Proofs.Statement.Choice
import Flowchart.Proofs.Engine.Turns
import Flowchart.Proofs.Engine.Bends
import Flowchart.Proofs.Session.Fitting
