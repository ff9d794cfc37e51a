import LargeNeighborhood.Chart.Album
import LargeNeighborhood.Chart.Candidates
import LargeNeighborhood.Chart.Columns
import LargeNeighborhood.Chart.Convergence
import LargeNeighborhood.Chart.Figure
import LargeNeighborhood.Chart.MoveTypes
import LargeNeighborhood.Chart.Palette
import LargeNeighborhood.Chart.SelectionProbability
import LargeNeighborhood.Chart.Shares
import LargeNeighborhood.Chart.TourMap
import LargeNeighborhood.Console.Folder
import LargeNeighborhood.Console.Options
import LargeNeighborhood.Console.Sample
import LargeNeighborhood.Console.Session
import LargeNeighborhood.Console.Tee
import LargeNeighborhood.Console.Timestamp
import LargeNeighborhood.Fault
import LargeNeighborhood.Main
import LargeNeighborhood.Number.Arithmetic
import LargeNeighborhood.Number.Binary
import LargeNeighborhood.Number.Checked
import LargeNeighborhood.Number.Fixed
import LargeNeighborhood.Number.Power
import LargeNeighborhood.Number.Quantity
import LargeNeighborhood.Number.Scalar
import LargeNeighborhood.Number.Shortest
import LargeNeighborhood.Number.Summation
import LargeNeighborhood.Position
import LargeNeighborhood.Random.Congruential
import LargeNeighborhood.Random.Generator
import LargeNeighborhood.Random.Seed
import LargeNeighborhood.Random.Source
import LargeNeighborhood.Random.Tape
import LargeNeighborhood.Report
import LargeNeighborhood.Search.Annealing
import LargeNeighborhood.Search.Criterion
import LargeNeighborhood.Search.Gauge
import LargeNeighborhood.Search.History
import LargeNeighborhood.Search.Pool
import LargeNeighborhood.Search.RecordToRecord
import LargeNeighborhood.Search.Roulette
import LargeNeighborhood.Search.Selector
import LargeNeighborhood.Search.Solver
import LargeNeighborhood.Search.Tuning
import LargeNeighborhood.Search.Walk
import LargeNeighborhood.Text.Blank
import LargeNeighborhood.Text.Column
import LargeNeighborhood.Text.Digit
import LargeNeighborhood.Text.Lines
import LargeNeighborhood.Text.Numeral
import LargeNeighborhood.Text.Packing
import LargeNeighborhood.Text.Path
import LargeNeighborhood.Text.Quoted
import LargeNeighborhood.Text.Table
import LargeNeighborhood.Text.Uppercase
import LargeNeighborhood.Text.Visible
import LargeNeighborhood.Tour.Basic
import LargeNeighborhood.Tour.Details
import LargeNeighborhood.Tour.Distances
import LargeNeighborhood.Tour.Feasibility
import LargeNeighborhood.Tour.Insertion
import LargeNeighborhood.Tour.Instance
import LargeNeighborhood.Tour.Nested
import LargeNeighborhood.Tour.Problem
import LargeNeighborhood.Tour.Removal
import LargeNeighborhood.Proofs.Except
import LargeNeighborhood.Proofs.Console.Completion
import LargeNeighborhood.Proofs.Console.Emit
import LargeNeighborhood.Proofs.Console.Folder
import LargeNeighborhood.Proofs.Console.Options
import LargeNeighborhood.Proofs.Console.Refusal
import LargeNeighborhood.Proofs.Console.Session
import LargeNeighborhood.Proofs.Number.Arithmetic
import LargeNeighborhood.Proofs.Number.Blend
import LargeNeighborhood.Proofs.Number.Bounds
import LargeNeighborhood.Proofs.Number.Difference
import LargeNeighborhood.Proofs.Number.Exact
import LargeNeighborhood.Proofs.Number.Monotone
import LargeNeighborhood.Proofs.Number.Nonnegative
import LargeNeighborhood.Proofs.Number.Order
import LargeNeighborhood.Proofs.Number.Packing
import LargeNeighborhood.Proofs.Number.Rounding
import LargeNeighborhood.Proofs.Number.SquareRoot
import LargeNeighborhood.Proofs.Number.Summation
import LargeNeighborhood.Proofs.Number.Unrounded
import LargeNeighborhood.Proofs.Random.Seeded
import LargeNeighborhood.Proofs.Random.Shuffle
import LargeNeighborhood.Proofs.Search.Best
import LargeNeighborhood.Proofs.Search.Cheaper
import LargeNeighborhood.Proofs.Search.Chronicle
import LargeNeighborhood.Proofs.Search.Continuation
import LargeNeighborhood.Proofs.Search.Decisions
import LargeNeighborhood.Proofs.Search.Descent
import LargeNeighborhood.Proofs.Search.ExactWeights
import LargeNeighborhood.Proofs.Chart.Shares
import LargeNeighborhood.Proofs.Search.Improvement
import LargeNeighborhood.Proofs.Search.Indifference
import LargeNeighborhood.Proofs.Search.Interruption
import LargeNeighborhood.Proofs.Search.Lockstep
import LargeNeighborhood.Proofs.Search.Novelty
import LargeNeighborhood.Proofs.Search.Operators
import LargeNeighborhood.Proofs.Search.Positivity
import LargeNeighborhood.Proofs.Search.Prefix
import LargeNeighborhood.Proofs.Search.Progress
import LargeNeighborhood.Proofs.Search.Record
import LargeNeighborhood.Proofs.Search.Registration
import LargeNeighborhood.Proofs.Search.Naming
import LargeNeighborhood.Proofs.Search.Reuse
import LargeNeighborhood.Proofs.Search.Roulette
import LargeNeighborhood.Proofs.Search.Run
import LargeNeighborhood.Proofs.Search.Stage
import LargeNeighborhood.Proofs.Search.Threshold
import LargeNeighborhood.Proofs.Search.Weights
import LargeNeighborhood.Proofs.Search.ZeroTemperature
import LargeNeighborhood.Proofs.Search.ZeroThreshold
import LargeNeighborhood.Proofs.Text.Column
import LargeNeighborhood.Proofs.Text.Column.Reals
import LargeNeighborhood.Proofs.Text.Lines
import LargeNeighborhood.Proofs.Text.Numeral
import LargeNeighborhood.Proofs.Text.Table
import LargeNeighborhood.Proofs.Text.Table.Passed
import LargeNeighborhood.Proofs.Text.Table.Rows
import LargeNeighborhood.Proofs.Text.Table.Words
import LargeNeighborhood.Proofs.Tour.CheapestPlace
import LargeNeighborhood.Proofs.Tour.Complete
import LargeNeighborhood.Proofs.Tour.Cost
import LargeNeighborhood.Proofs.Tour.Count
import LargeNeighborhood.Proofs.Tour.Header
import LargeNeighborhood.Proofs.Tour.Identity
import LargeNeighborhood.Proofs.Tour.Insertion
import LargeNeighborhood.Proofs.Tour.Instance
import LargeNeighborhood.Proofs.Tour.Issues
import LargeNeighborhood.Proofs.Tour.Layout
import LargeNeighborhood.Proofs.Tour.Length
import LargeNeighborhood.Proofs.Tour.LongestLegs
import LargeNeighborhood.Proofs.Tour.Orientation
import LargeNeighborhood.Proofs.Tour.Points
import LargeNeighborhood.Proofs.Tour.Range
import LargeNeighborhood.Proofs.Tour.Reading
import LargeNeighborhood.Proofs.Tour.Removal
import LargeNeighborhood.Proofs.Tour.Search
import LargeNeighborhood.Proofs.Tour.Share
import LargeNeighborhood.Proofs.Tour.Straight
import LargeNeighborhood.Proofs.Tour.Stretch
