import LargeNeighborhood.Number.Quantity
import LargeNeighborhood.Text.Packing

set_option autoImplicit false

/-! # Faults

Everything that can go wrong, by cause. `Fault.message` words the causes that this library
checks for itself; the others are breaches of the arithmetic, indexing or reading underneath,
which are told apart by kind and need no words.
-/

namespace LargeNeighborhood

inductive Fault where
  /-- The start acceptance probability lies outside the open unit interval. -/
  | startProbability (w : Quantity)
  /-- The cooling rate lies outside the open unit interval. -/
  | coolingRate (c : Quantity)
  | negativeObjective (cost : Cost)
  /-- A threshold is to fall over no steps at all. -/
  | thresholdSteps (steps : Quantity)
  | negativeThreshold (threshold : Quantity)
  /-- A threshold ends above its start. -/
  | risingThreshold (finish start : Quantity)
  | unknownCriterion (name : String)
  | noWeights
  | negativeWeights (weights : List String)
  | noPositiveWeight
  /-- A thing offered as an operator can neither be applied nor called. -/
  | notAnOperator (kind : String)
  | notACriterion (kind : String)
  | segmentTooShort (segment : Quantity)
  | noDestroyOperator
  | noRepairOperator
  | tooFewIterations (iterations : Quantity)
  /-- Iterations cannot be counted up to a number that is not whole. -/
  | uncountable (iterations : Quantity)
  | reactionOutOfRange (reaction : Quantity)
  | rewardCount (count : Nat)
  | negativeReward (rewards : List Quantity)
  | destructionDegree (degree : Quantity)
  /-- A distance table does not have one row and one column for each visit. -/
  | tableShape (shape : List Nat) (visits : Nat)
  | fileMissing (path : String)
  | noCoordinateSection (path : String)
  | tooFewCoordinates (expected : Int) (path : String) (found : Nat)
  /-- Nested lists do not form a rectangular array. -/
  | ragged
  /-- An array has fewer axes than its use needs. -/
  | tooFewAxes
  /-- An array would get more axes than it can have. -/
  | tooManyAxes
  | indexOutOfRange
  /-- A whole number does not fit where it is put. -/
  | overflow
  /-- An undefined real is asked for its whole part. -/
  | undefinedWhole
  | emptyRange
  | negativeSeed
  | undecodableText
  | isDirectory (path : String)
  | invalidWhole (text : String)
  /-- A whole number has more digits than are read. -/
  | tooManyDigits (count : Nat)
  | invalidReal (text : String)
  | negativeRowCount
  /-- A file is not packed in the format that its name promises. -/
  | notPacked (format : Packing)
  /-- A quote in a table is never closed; so many lines have ended in front of its field. -/
  | openQuote (lines : Nat)
  /-- No row of a table reaches the last column asked for. -/
  | missingColumns (expected found : Nat)
  | divisionByZero
  /-- Columns that belong together differ in length. -/
  | unequalLengths
  | unknownMoveType (name : String)
  | missingColumn (name : String)
  /-- A name is taken by a column of the table itself. -/
  | reservedName (name : String)
  /-- Nothing stands where a path leads on. -/
  | nothingThere (path : String)
  /-- A file stands where a directory is needed. -/
  | notADirectory (path : String)
  /-- Something else stands where a directory is to be made. -/
  | alreadyThere (path : String)
  /-- A null character in a path. -/
  | nullInPath
  /-- A name or a path is too long. -/
  | pathTooLong
  /-- A directory that is not given by its name cannot be removed. -/
  | unremovable (path : String)
  | closedLog
  /-- What an operator, a state or a criterion reports under a name of its own. -/
  | raised (kind : String)
  deriving Inhabited

namespace Fault

/-- Whether a whole number fits 64 bits with a sign. -/
def fits (n : Int) : Prop := Int64.minValue.toInt ≤ n ∧ n ≤ Int64.maxValue.toInt

instance (n : Int) : Decidable (fits n) :=
  inferInstanceAs (Decidable (Int64.minValue.toInt ≤ n ∧ n ≤ Int64.maxValue.toInt))

/-- Whether a whole number fits 64 bits, but only without a sign. -/
def fitsUnsigned (n : Int) : Bool := decide (Int64.maxValue.toInt < n ∧ n < UInt64.size)

/-- Why a position in a table names nothing. A number that fits 64 bits only without a sign cannot
be a position at all. -/
def ofPosition (i : Int) : Fault := if fitsUnsigned i then .overflow else .indexOutOfRange

/-- Why two positions in a table name nothing. Both are looked at before the table is. -/
def ofPositions (i j : Int) : Fault := if fits i then ofPosition j else ofPosition i

/-- A list of sizes in round brackets; a single size is followed by a comma. -/
def shapeText : List Nat → String
  | [n] => "(" ++ toString n ++ ",)"
  | ns => "(" ++ ", ".intercalate (ns.map toString) ++ ")"

/-- The wording of a fault that this library checks for itself. -/
def message : Fault → Option String
  | .startProbability w =>
      some ("Start acceptance probability w must be in (0, 1), got " ++ w.text)
  | .coolingRate c => some ("Cooling rate c must be in (0, 1), got " ++ c.text)
  | .negativeObjective c => some ("Initial objective must be non-negative, got " ++ c.text)
  | .thresholdSteps n => some ("iterations must be positive, got " ++ n.text)
  | .negativeThreshold t => some ("end_threshold must be non-negative, got " ++ t.text)
  | .risingThreshold finish start =>
      some ("end_threshold (" ++ finish.text ++ ") is above start_threshold (" ++ start.text ++ ")")
  | .unknownCriterion name => some ("Unknown ACCEPTANCE_CRITERION: " ++ name)
  | .noWeights => some "Cannot select from an empty weight vector"
  | .negativeWeights ws =>
      some ("Weights must be non-negative, got [" ++ ", ".intercalate ws ++ "]")
  | .noPositiveWeight => some "At least one weight must be positive"
  | .notAnOperator kind =>
      some ("Operator must define apply(state) or be callable, got " ++ kind)
  | .notACriterion kind =>
      some ("Acceptance criterion must define accept(best, current, candidate), got " ++ kind)
  | .segmentTooShort n => some ("segment_size must be at least 1, got " ++ n.text)
  | .noDestroyOperator => some "At least one destroy operator must be registered before run()"
  | .noRepairOperator => some "At least one repair operator must be registered before run()"
  | .tooFewIterations n => some ("iterations must be at least 1, got " ++ n.text)
  | .reactionOutOfRange r => some ("reaction must be in [0, 1], got " ++ r.text)
  | .rewardCount n => some ("weight_parameter needs exactly 3 rewards, got " ++ toString n)
  | .negativeReward rs => some ("Rewards must be non-negative, got " ++ Quantity.listText rs)
  | .destructionDegree d => some ("destruction_degree must be in [0, 1], got " ++ d.text)
  | .tableShape shape n =>
      some ("Distance map shape " ++ shapeText shape ++ " does not match " ++ toString n ++
        " visits")
  | .fileMissing path => some ("TSPLIB file not found: " ++ path)
  | .noCoordinateSection path => some ("No NODE_COORD_SECTION in " ++ path)
  | .tooFewCoordinates expected path found =>
      some ("Expected " ++ toString expected ++ " coordinates in " ++ path ++ ", found " ++
        toString found)
  | _ => none

end Fault

end LargeNeighborhood
