import FluidAnalysis.Analysis
import FluidAnalysis.Binary64
import FluidAnalysis.Canonical
import FluidAnalysis.Command.Basic
import FluidAnalysis.Command.Menu
import FluidAnalysis.Command.Options
import FluidAnalysis.Command.Run
import FluidAnalysis.Decimal.Binary
import FluidAnalysis.Decimal.Fixed
import FluidAnalysis.Decimal.General
import FluidAnalysis.Decimal.Reader
import FluidAnalysis.Decimal.Rounding
import FluidAnalysis.Decimal.Shortest
import FluidAnalysis.Failure
import FluidAnalysis.Figure.Basic
import FluidAnalysis.Figure.Style
import FluidAnalysis.Figure.Svg
import FluidAnalysis.Files.Cause
import FluidAnalysis.Files.Path
import FluidAnalysis.Files.Pattern
import FluidAnalysis.Files.Tree
import FluidAnalysis.HardSphere.Contact
import FluidAnalysis.HardSphere.ContactReport
import FluidAnalysis.HardSphere.FreeEnergy
import FluidAnalysis.HardSphere.PairDistribution
import FluidAnalysis.HardSphere.PairReport
import FluidAnalysis.Launch.Job
import FluidAnalysis.Launch.Ladder
import FluidAnalysis.Launch.Plan
import FluidAnalysis.Launch.Programs
import FluidAnalysis.Launch.Shell
import FluidAnalysis.Launch.SoftSphereJob
import FluidAnalysis.LennardJones.EntropyRun
import FluidAnalysis.LennardJones.HeatCapacityReport
import FluidAnalysis.Main
import FluidAnalysis.Numeric.Bisection
import FluidAnalysis.Numeric.Calibration
import FluidAnalysis.Numeric.Grid
import FluidAnalysis.Numeric.LeastSquares
import FluidAnalysis.Numeric.LinearSystem
import FluidAnalysis.Numeric.RunningMean
import FluidAnalysis.Numeric.Summary
import FluidAnalysis.Proofs.Decimal.General
import FluidAnalysis.Proofs.Decimal.Numeral
import FluidAnalysis.Proofs.Decimal.Order
import FluidAnalysis.Proofs.Decimal.Rounding
import FluidAnalysis.Proofs.Decimal.Word
import FluidAnalysis.Proofs.Double.Order
import FluidAnalysis.Proofs.Double.Scaling
import FluidAnalysis.Proofs.Exact
import FluidAnalysis.Proofs.Launch.ShellWords
import FluidAnalysis.Proofs.Numeric.Damping
import FluidAnalysis.Proofs.Numeric.Elimination
import FluidAnalysis.Proofs.Numeric.LeastSquares
import FluidAnalysis.Proofs.Numeric.LinearSystem
import FluidAnalysis.Proofs.SquareWell.CountedFrames
import FluidAnalysis.Proofs.Table.Grammar
import FluidAnalysis.Proofs.Table.RoundTrip
import FluidAnalysis.Proofs.Table.Rows
import FluidAnalysis.Proofs.Text.Lines
import FluidAnalysis.Proofs.Traversal
import FluidAnalysis.Report.Kind
import FluidAnalysis.Report.Request
import FluidAnalysis.Report.Session
import FluidAnalysis.Report.Source
import FluidAnalysis.Scalar
import FluidAnalysis.Settings.Number
import FluidAnalysis.Settings.Reader
import FluidAnalysis.Settings.Record
import FluidAnalysis.Settings.Stored
import FluidAnalysis.Settings.Value
import FluidAnalysis.SoftSphere.EnergyDistribution
import FluidAnalysis.SoftSphere.StatePoint
import FluidAnalysis.SoftSphere.SweepReport
import FluidAnalysis.SquareWell.Coexistence
import FluidAnalysis.SquareWell.CoexistenceReport
import FluidAnalysis.SquareWell.Convergence
import FluidAnalysis.SquareWell.ConvergenceReport
import FluidAnalysis.SquareWell.DensityOfStates
import FluidAnalysis.SquareWell.ErrorTable
import FluidAnalysis.SquareWell.FreeEnergyReport
import FluidAnalysis.SquareWell.HistogramReport
import FluidAnalysis.SquareWell.SampleRate
import FluidAnalysis.SquareWell.ScalingReport
import FluidAnalysis.SquareWell.SizeScaling
import FluidAnalysis.SquareWell.System
import FluidAnalysis.SquareWell.ThermodynamicsReport
import FluidAnalysis.Table.Basic
import FluidAnalysis.Table.Columns
import FluidAnalysis.Table.Header
import FluidAnalysis.Table.Positions
import FluidAnalysis.Table.Reader
import FluidAnalysis.Text.Blank
import FluidAnalysis.Text.Integer
import FluidAnalysis.Text.Lines
import FluidAnalysis.Proofs.Files.Changes
import FluidAnalysis.Proofs.Files.Components
import FluidAnalysis.Proofs.Files.Names
import FluidAnalysis.Proofs.Report.Course
import FluidAnalysis.Proofs.Report.Reading
import FluidAnalysis.Proofs.HardSphere.Courses
import FluidAnalysis.Proofs.SquareWell.Courses
import FluidAnalysis.Proofs.Analysis.Courses
import FluidAnalysis.Proofs.Analysis.Results
import FluidAnalysis.Proofs.SquareWell.HistoryPaths
import FluidAnalysis.Proofs.Launch.LadderPlan
import FluidAnalysis.Proofs.Launch.LadderOutputs
import FluidAnalysis.Proofs.SquareWell.TrackedRows
import FluidAnalysis.Proofs.Launch.SoftSphereFiles
import FluidAnalysis.Proofs.LennardJones.RunPaths
import FluidAnalysis.Proofs.Decimal.ReadBack
import FluidAnalysis.Proofs.Table.Layout
import FluidAnalysis.Proofs.Text.LineEnds
import FluidAnalysis.Proofs.Table.StoredHeader
import FluidAnalysis.Proofs.HardSphere.Constraints
import FluidAnalysis.Proofs.Canonical.Ensemble
import FluidAnalysis.Proofs.Canonical.Bounds
import FluidAnalysis.Proofs.Numeric.Bisection
import FluidAnalysis.Proofs.HardSphere.FillingFraction
import FluidAnalysis.Proofs.Numeric.Pivots
import FluidAnalysis.Proofs.Numeric.AffineModels
import FluidAnalysis.Proofs.TotalOrder
import FluidAnalysis.Proofs.Canonical.GroundState
import FluidAnalysis.Proofs.Numeric.RunningMean
import FluidAnalysis.Proofs.Double.Infinite
import FluidAnalysis.Proofs.Numeric.SpoiledMeans
import FluidAnalysis.Proofs.SquareWell.FrameErrors
import FluidAnalysis.Proofs.SquareWell.DensityCurves
import FluidAnalysis.Proofs.Double.Value
import FluidAnalysis.Proofs.SquareWell.VisitedBins
import FluidAnalysis.Proofs.Double.Monotone
import FluidAnalysis.Proofs.Numeric.Extremes
import FluidAnalysis.Proofs.SquareWell.ErrorSpread
import FluidAnalysis.Proofs.LennardJones.CurveErrors
import FluidAnalysis.Proofs.Files.Patterns
import FluidAnalysis.Proofs.Files.Directories
import FluidAnalysis.Proofs.Report.Discovery
import FluidAnalysis.Proofs.SquareWell.RunSizes
import FluidAnalysis.Proofs.SquareWell.MovieDirectories
import FluidAnalysis.Proofs.SquareWell.ErrorTables
import FluidAnalysis.Proofs.Extended
import FluidAnalysis.Proofs.Figure.AxisRanges
import FluidAnalysis.Proofs.Numeric.GridPoints
import FluidAnalysis.Proofs.HardSphere.RadiusCut
import FluidAnalysis.Proofs.Decimal.Shortest
import FluidAnalysis.Proofs.SoftSphere.StatePoints
import FluidAnalysis.Proofs.SquareWell.RepeatedMethods
import FluidAnalysis.Proofs.SquareWell.RisingFrames
import FluidAnalysis.Proofs.Text.LineBreaks
