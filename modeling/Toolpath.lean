import Toolpath.Number.Digits
import Toolpath.Number.Exact
import Toolpath.Number.Binary64
import Toolpath.Number.Decimal
import Toolpath.Number.Scaled
import Toolpath.Number.Shortest
import Toolpath.Scalar
import Toolpath.FloatScalar
import Toolpath.Plane
import Toolpath.Bearing
import Toolpath.Side
import Toolpath.Rejection
import Toolpath.Move
import Toolpath.Text.Blank
import Toolpath.Move.Line
import Toolpath.Gcode
import Toolpath.Machine
import Toolpath.Arc.Sampler
import Toolpath.Arc.Order
import Toolpath.Arc.Chord
import Toolpath.Arc.Circle
import Toolpath.Rectangle
import Toolpath.Job
import Toolpath.Json.Value
import Toolpath.Json.Token
import Toolpath.Json.Draft
import Toolpath.Json.Record
import Toolpath.Json.Overlay
import Toolpath.Job.Record
import Toolpath.Toml.Value
import Toolpath.Toml.Literal
import Toolpath.Toml.Document
import Toolpath.Settings
import Toolpath.Settings.Text
import Toolpath.Store
import Toolpath.Settings.File
import Toolpath.Compile
import Toolpath.CommandLine
import Toolpath.Main
import Toolpath.Proofs.OrderedScalar
import Toolpath.Proofs.RealScalar
import Toolpath.Proofs.Bearing
import Toolpath.Proofs.Trail
import Toolpath.Proofs.Height
import Toolpath.Proofs.Clearance
import Toolpath.Proofs.Verdict
import Toolpath.Proofs.Run
import Toolpath.Proofs.Arc.Turning
import Toolpath.Proofs.Path
import Toolpath.Proofs.Rectangle.Laps
import Toolpath.Proofs.Rectangle.Travel
import Toolpath.Proofs.Rectangle.Legs
import Toolpath.Proofs.Rectangle.Corners
import Toolpath.Proofs.Rectangle.Depth
import Toolpath.Proofs.Rectangle.Frames
import Toolpath.Proofs.Rectangle.Place
import Toolpath.Proofs.Rectangle.Cover
import Toolpath.Proofs.Rectangle.Outline
import Toolpath.Proofs.Arc.Segments
import Toolpath.Proofs.Arc.Passes
import Toolpath.Proofs.Arc.Cuts
import Toolpath.Proofs.Arc.Depth
import Toolpath.Proofs.Arc.Travel
import Toolpath.Proofs.Tracking
import Toolpath.Proofs.Feed
import Toolpath.Proofs.Accepted
import Toolpath.Proofs.Run.Report
import Toolpath.Proofs.PlanView
import Toolpath.Proofs.Arc.PlanView
import Toolpath.Proofs.Rectangle.PlanView
import Toolpath.Proofs.Run.PlanView
import Toolpath.Proofs.Shift
import Toolpath.Proofs.Arc.Shift
import Toolpath.Proofs.Rectangle.Shift
import Toolpath.Proofs.Rectangle.Nest
import Toolpath.Proofs.Run.Shift
import Toolpath.Proofs.Arc.Curve
import Toolpath.Proofs.Arc.Scaling
import Toolpath.Proofs.Arc.Rings
import Toolpath.Proofs.Arc.Cover
import Toolpath.Proofs.Arc.Samples
import Toolpath.Proofs.Arc.Compass
import Toolpath.Proofs.Arc.Chord
import Toolpath.Proofs.Arc.Circle
import Toolpath.Proofs.Arc.WholeTurns
import Toolpath.Proofs.Arc.Nest
import Toolpath.Proofs.Arc.Repeat
import Toolpath.Proofs.Run.KeepDepth
import Toolpath.Proofs.Size
import Toolpath.Proofs.Arc.Retract
import Toolpath.Proofs.Rectangle.Retract
import Toolpath.Proofs.Retract
import Toolpath.Proofs.Limit
import Toolpath.Proofs.Number.Digits
import Toolpath.Proofs.Number.Fixed
import Toolpath.Proofs.Gcode.Line
import Toolpath.Proofs.Gcode.Page
import Toolpath.Proofs.Number.Plain
import Toolpath.Proofs.Gcode.Grammar
import Toolpath.Proofs.Gcode.Spelling
import Toolpath.Proofs.Gcode.Feed
import Toolpath.Proofs.Gcode.Numbering
import Toolpath.Proofs.Number.Binary64
import Toolpath.Proofs.Number.Nearest
import Toolpath.Proofs.Number.Shortest
import Toolpath.Proofs.Json.Numeral
import Toolpath.Proofs.Json.Token
import Toolpath.Proofs.Json.Draft
import Toolpath.Proofs.Json.Record
import Toolpath.Proofs.Job.Record
import Toolpath.Proofs.Store
import Toolpath.Proofs.Toml.Literal
import Toolpath.Proofs.Toml.Document
import Toolpath.Proofs.Settings.Text
import Toolpath.Proofs.Settings.File
