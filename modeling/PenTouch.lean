import PenTouch.CommandLine.Arguments
import PenTouch.CommandLine.Program
import PenTouch.CommandLine.Token
import PenTouch.Contact.Basic
import PenTouch.Contact.Blob
import PenTouch.Contact.Finder
import PenTouch.Contact.Peak
import PenTouch.Contact.Settings
import PenTouch.Contact.Survey
import PenTouch.Contact.Tracker
import PenTouch.Decimal.Quantity
import PenTouch.Decimal.Reading
import PenTouch.Decimal.Shortest
import PenTouch.Decimal.Text
import PenTouch.Frame
import PenTouch.Grid
import PenTouch.Linear.Axes
import PenTouch.Linear.System
import PenTouch.Main
import PenTouch.Measure
import PenTouch.Metrics.Monitor
import PenTouch.Metrics.Registry
import PenTouch.Pen.Calibration
import PenTouch.Pen.Cone
import PenTouch.Pen.Estimator
import PenTouch.Pen.Sample
import PenTouch.Pen.Settings
import PenTouch.Pen.Table
import PenTouch.Pen.Window
import PenTouch.Plane
import PenTouch.Raster
import PenTouch.Run
import PenTouch.Scalar
import PenTouch.Scalar.Double
import PenTouch.Session
import PenTouch.Session.Counters
import PenTouch.Session.Event
import PenTouch.Session.Rejection
import PenTouch.Settings.File
import PenTouch.Settings.Run
import PenTouch.Settings.Session
import PenTouch.Source.Basic
import PenTouch.Source.Replay
import PenTouch.Source.Synthetic
import PenTouch.Statistics
import PenTouch.Text.Record
import PenTouch.Time
import PenTouch.Toml.Document
import PenTouch.Toml.Literal
import PenTouch.Toml.Node
import PenTouch.Toml.Reader
import PenTouch.Word
import PenTouch.Proofs.Contact.Matching
import PenTouch.Proofs.Contact.Tracking
import PenTouch.Proofs.Contact.Identity
import PenTouch.Proofs.Grid.Scan
import PenTouch.Proofs.Scalar.Order
import PenTouch.Proofs.Contact.Components
import PenTouch.Proofs.Session.Separation
import PenTouch.Proofs.Session.History
import PenTouch.Proofs.Pen.Coherence
import PenTouch.Proofs.Session.Transparency
import PenTouch.Proofs.Session.Steering
import PenTouch.Proofs.Session.Counting
import PenTouch.Proofs.Run.Course
import PenTouch.Proofs.Run.Halting
import PenTouch.Proofs.Pen.Life
import PenTouch.Proofs.Pen.Table
import PenTouch.Proofs.Session.KnownPens
import PenTouch.Proofs.Session.Delay
import PenTouch.Proofs.Contact.Buffers
import PenTouch.Proofs.Contact.Verdict
import PenTouch.Proofs.Contact.Stability
import PenTouch.Proofs.Pen.Forgetting
import PenTouch.Proofs.Scalar.Value
import PenTouch.Proofs.Scalar.Rounding
import PenTouch.Proofs.Scalar.Arithmetic
import PenTouch.Proofs.Scalar.Length
import PenTouch.Proofs.Scalar.Nonnegative
import PenTouch.Proofs.Pen.Weights
import PenTouch.Proofs.Pen.Range
import PenTouch.Proofs.Pen.Pressure
import PenTouch.Proofs.Scalar.Exact
import PenTouch.Proofs.Plane.Euclidean
import PenTouch.Proofs.Pen.Sector
import PenTouch.Proofs.Plane.Bearing
import PenTouch.Proofs.Pen.Averaging
import PenTouch.Proofs.Session.Repair
import PenTouch.Proofs.Settings.Acceptance
import PenTouch.Proofs.Contact.Growth
import PenTouch.Proofs.Contact.Selection
import PenTouch.Proofs.Scalar.TotalOrder
import PenTouch.Proofs.Contact.Locality
import PenTouch.Proofs.Linear.Definite
import PenTouch.Proofs.Contact.Fitting
import PenTouch.Proofs.Linear.Elimination
import PenTouch.Proofs.Contact.LeastSquares
import PenTouch.Proofs.Scalar.Guarded
import PenTouch.Proofs.Linear.Solution
import PenTouch.Proofs.Scalar.Nearest
import PenTouch.Proofs.Scalar.Angle
import PenTouch.Proofs.Linear.Orientation
import PenTouch.Proofs.Pen.Centroid
import PenTouch.Proofs.Pen.Phase
import PenTouch.Proofs.Pen.Unreadable
import PenTouch.Proofs.Scalar.Whole
import PenTouch.Proofs.Contact.Distribution
import PenTouch.Proofs.Contact.Recording
import PenTouch.Proofs.Contact.Limits
import PenTouch.Proofs.Metrics.Publication
import PenTouch.Proofs.Grid.Contents
import PenTouch.Proofs.Source.Stream
import PenTouch.Proofs.Statistics.Histogram
import PenTouch.Proofs.Statistics.Background
