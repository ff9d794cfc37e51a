import LargeNeighborhood.Chart.Album
import LargeNeighborhood.Console.Folder
import LargeNeighborhood.Console.Options
import LargeNeighborhood.Console.Sample
import LargeNeighborhood.Console.Tee
import LargeNeighborhood.Random.Source
import LargeNeighborhood.Search.Solver
import LargeNeighborhood.Tour.Details
import LargeNeighborhood.Tour.Feasibility
import LargeNeighborhood.Tour.Insertion
import LargeNeighborhood.Tour.Instance
import LargeNeighborhood.Tour.Removal

set_option autoImplicit false

/-! # Solving an instance from the command line

A session makes a directory for its results, loads the instance, constructs a first tour by
cheapest insertion, improves it, and reports on the best tour found. Everything printed from the
directory on also goes to a log in it, and so do the charts. The session ends with status 0,
with 1 when the instance cannot be loaded, and with 2 when the tour is not feasible.
-/

namespace LargeNeighborhood

/-- How the loading of an instance fails, in words. Other faults are not failures to load. -/
def Fault.loadFailure? (fault : Fault) : Option String :=
  match fault with
  | .invalidWhole text =>
      some ("invalid literal for int() with base 10: " ++ String.ofList ((quoted text).toList.take 200))
  | .tooManyDigits count =>
      some ("Exceeds the limit (" ++ toString Numeral.digitLimit ++ " digits) for integer string " ++
        "conversion: value has " ++ toString count ++
        " digits; use sys.set_int_max_str_digits() to increase the limit")
  | .invalidReal text => some ("could not convert string to float: " ++ quoted text)
  | .negativeRowCount => some (quoted "nrows" ++ " must be an integer >=0")
  | .missingColumns expected found =>
      some ("Too many columns specified: expected " ++ toString expected ++ " and found " ++
        toString found)
  | .openQuote lines =>
      some ("Error tokenizing data. C error: EOF inside string starting at row " ++ toString lines)
  | .undecodableText => some "the file is not valid UTF-8"
  | fault => fault.message

namespace Session

open Emit

/-- What surrounds a session: the name of its directory, whether old results are removed first,
and whether a copy of the settings can be kept. -/
structure Setting where
  runName : String
  clearsOld : Bool
  keepsSettings : Bool

def runDirectory (s : Setting) (o : Options) : String := Path.join o.resultsDir s.runName

/-- The tour found, with all that the report needs. -/
structure Found where
  tour : Tour
  trace : Trace Float (Option Quantity)

def heavyRule : String := Report.rule '#' 70

def banner (s : Setting) (o : Options) : List String :=
  [Report.rule '=' 80,
   "INITIALIZING ALNS SOLVER",
   "Run ID: " ++ s.runName,
   "Results for this run will be saved in: " ++ runDirectory s o,
   "  - Instance: " ++ o.inputName,
   "  - Acceptance Criterion: " ++ o.acceptance,
   "  - Iterations: " ++ toString o.iterations ++ ", Reaction: " ++ shortest o.reaction ++
     ", Seed: " ++ toString o.seed,
   Report.rule '=' 80]

/-- A heading between rules. -/
def stage (title : String) : Emit Unit :=
  sayLine ("\n" ++ heavyRule ++ "\n### " ++ title ++ " ###\n" ++ heavyRule)

/-- The instance that the options name. -/
def load (f : Folder) (o : Options) : Except Fault Problem :=
  match o.input with
  | none => Instance.parse 0 "sample_16.tsp" Sample.text
  | some path => do Instance.read 0 path (← f.read path)

/-- Constructs the first tour. -/
def construct (p : Problem) (w : Source) : Emit (Tour × Source) := do
  let (result, w) := Insertion.apply Source.generator (.empty p) w
  let t ← orFail result
  say (constructionLine (← orFail ((Quantity.whole (← orFail t.objective)).fixed? 2)))
  return (t, w)

/-- The rewards for a new best, a better and an accepted solution. -/
def rewards : List Quantity := [.real 3.0, .real 2.0, .real 1.0]

/-- What is registered with the solver. -/
def removals : List Removal := [.random, .worst, .path]

/-- An operator on tours under a name of its own. -/
def offer (name : String) (action : Action Tour Source) : Offer (Action Tour Source) :=
  { kind := name, name := some name, title := none, apply := some action, call := some action }

/-- The solver with all operators registered. -/
def solver (g : Gauge) :
    Except Fault (Solver Tour (Nat × List Int × List Int) Source Gauge (Option Quantity)) := do
  let criterion := Gauge.criterion Float.exp Source.generator.unit
  let s ← Solver.create Tour.landscape (some criterion) g.name g.name Source.generator.unit
    (.whole 200) (.whole 1000)
  let (_, s) ← s.register .repair (offer Insertion.name (Insertion.apply Source.generator)) none
  removals.foldlM (fun s (r : Removal) => do
    let degree ← Removal.degree? Removal.standardDegree
    let (_, s) ← s.register .destroy (offer r.name (r.apply Source.generator degree)) none
    return s) s

/-- Improves the first tour. -/
def improve (o : Options) (first : Tour) (w : Source) : Emit Found := do
  let cost := Quantity.whole (← orFail first.objective)
  let gauge ← orFail (Gauge.named o.acceptance cost (.whole o.iterations))
  let s ← orFail (solver gauge)
  let outcome := s.run first ⟨rewards, .real o.reaction, .whole o.iterations⟩ gauge w
  say outcome.printed
  let best ← orFail outcome.result
  return ⟨best.state, outcome.solver.trace⟩

/-- Loads the instance and searches for a tour; there is none when loading fails. -/
def search (s : Setting) (f : Folder) (o : Options) : Emit (Option Found) := do
  if !s.keepsSettings then
    sayLine "Warning: Could not copy the config module to create a snapshot."
  let source ← orFail (Source.ofSeed o.seed)
  (banner s o).forM sayLine
  match load f o with
  | .error fault =>
      match fault.loadFailure? with
      | none => throw fault
      | some details =>
          sayLine ("FATAL ERROR: Could not load data file at '" ++ o.inputName ++ "'.")
          sayLine ("Details: " ++ details)
          return none
  | .ok problem =>
      stage "STAGE 1: GENERATING INITIAL SOLUTION"
      let (first, source) ← construct problem source
      stage "STAGE 2: ADAPTIVE LARGE NEIGHBORHOOD SEARCH"
      return some (← improve o first source)

/-- Reports on the tour found and returns the status. -/
def conclude (s : Setting) (f : Folder) (o : Options) (seconds : Quantity) (found : Found) :
    Emit Nat := do
  let t := found.tour
  let directory := runDirectory s o
  report (t.details t.objective seconds)
  report (t.validation t.objective)
  if o.plots then
    sayLine "\nGenerating and saving plots..."
    let d : Directory := ⟨directory, f.refusal?⟩
    let _ ← Album.tour t t.objective t.problem.points d
    let _ ← Album.history (some found.trace.columns) (some found.trace.weightColumns) d
  sayLine ("\nBaseline run complete. All artifacts have been saved to: " ++ directory)
  let issues ← orFail (t.issues t.objective)
  return if issues.isEmpty then 0 else 2

/-- All that is printed and saved once the directory is there. -/
def work (s : Setting) (f : Folder) (o : Options) (seconds : Quantity) : Emit Nat := do
  match ← search s f o with
  | some found => conclude s f o seconds found
  | none => return 1

/-! ## The directory of a session -/

/-- What a session has led to, and the folder it leaves behind. -/
structure Ended where
  status : Except Fault Nat
  printed : String
  figures : List Figure
  folder : Folder

/-- What is printed before old results are removed. -/
def clearingLine (o : Options) : String :=
  "Config 'CLEAR_OLD_RESULTS_ON_START' is True. Removing old '" ++ o.resultsDir ++
    "' directory...\n"

def logPath (s : Setting) (o : Options) : String := Path.join (runDirectory s o) "log.txt"

def settingsPath (s : Setting) (o : Options) : String :=
  Path.join (runDirectory s o) "config_snapshot.py"

/-- The log that was left by an earlier session. -/
def oldLog (f : Folder) (path : String) : ByteArray := (f.read path).toOption.getD .empty

/-- The log after something was printed. -/
def newLog (old : ByteArray) (printed : String) : ByteArray :=
  match String.fromUTF8? old with
  | some text => ((Tee.ofLog text).write printed).2.close.log.toUTF8
  | none => old ++ printed.toUTF8

/-- Removes old results if asked to. -/
def clear (s : Setting) (f : Folder) (o : Options) : Except Fault Unit × Folder × String :=
  if s.clearsOld && f.holds o.resultsDir then
    let (ended, f) := f.remove o.resultsDir
    (ended, f, clearingLine o)
  else (.ok (), f, "")

/-- Makes the directory of a session, and in it the log, which goes on from an earlier one. -/
def prepare (s : Setting) (f : Folder) (o : Options) : Except Fault Folder := do
  let f ← f.makeDirectories (runDirectory s o)
  let path := logPath s o
  f.write path (oldLog f path)

/-- Keeps a copy of the settings, in a directory of that name if there is one. -/
def copySettings (s : Setting) (f : Folder) (o : Options) : Except Fault Folder :=
  let path := settingsPath s o
  if f.isDirectory (Path.parts path) then f.write (Path.join path "config.py") .empty
  else f.write path .empty

/-- Adds what was printed to the log, and the figures to the folder. -/
def store (s : Setting) (o : Options) (f : Folder) (output : Output) : Except Fault Folder := do
  let path := logPath s o
  let f ← f.write path (newLog (oldLog f path) output.printed)
  output.figures.foldlM (fun f figure => f.write figure.path .empty) f

/-- A whole session. -/
def run (s : Setting) (f : Folder) (o : Options) (seconds : Quantity) : Ended :=
  match clear s f o with
  | (.error fault, f, printed) => ⟨.error fault, printed, [], f⟩
  | (.ok (), f, printed) =>
      match prepare s f o with
      | .error fault => ⟨.error fault, printed, [], f⟩
      | .ok f =>
          -- settings that cannot be copied are only warned of
          let (kept, f) := match if s.keepsSettings then copySettings s f o else .ok f with
            | .ok f => (s.keepsSettings, f)
            | .error _ => (false, f)
          let (status, output) := (work { s with keepsSettings := kept } f o seconds).perform
          match store s o f output with
          | .ok f => ⟨status, printed ++ output.printed, output.figures, f⟩
          | .error fault => ⟨.error fault, printed, [], f⟩

end Session

end LargeNeighborhood
