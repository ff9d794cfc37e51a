import LargeNeighborhood.Chart.Candidates
import LargeNeighborhood.Chart.Convergence
import LargeNeighborhood.Chart.SelectionProbability
import LargeNeighborhood.Chart.TourMap
import LargeNeighborhood.Report
import LargeNeighborhood.Text.Path

set_option autoImplicit false

/-! # Printing text and saving figures

`Emit` is work that prints text, saves figures and may fail; what was printed and saved before a
failure stays. The charts of a run are saved one after the other into a directory, with a line
of text before each.
-/

namespace LargeNeighborhood

/-- The text printed and the figures saved so far. -/
structure Output where
  printed : String
  figures : List Figure

def Output.empty : Output := ⟨"", []⟩

/-- Work that prints, saves and may fail. -/
abbrev Emit := ExceptT Fault (StateM Output)

/-- A directory, and why a file cannot be saved at a path in it, if it cannot. -/
structure Directory where
  path : String
  refusal? : String → Option Fault

namespace Emit

/-- Prints text. -/
def say (text : String) : Emit Unit :=
  modify fun o => { o with printed := o.printed ++ text }

/-- Prints a line. -/
def sayLine (text : String) : Emit Unit := say (text ++ "\n")

/-- Goes on with a result, or fails. -/
def orFail {α : Type} : Except Fault α → Emit α
  | .ok a => pure a
  | .error fault => throw fault

/-- Prints a report. -/
def report (r : Report) : Emit Unit := do
  let (ended, text) := r.print
  say text
  orFail ended

/-- Draws a figure, saves it in a directory and returns its path. -/
def save (d : Directory) (file : String) (figure : String → Except Fault Figure) :
    Emit String := do
  let path := Path.join d.path file
  let f ← orFail (figure path)
  if let some fault := d.refusal? path then throw fault
  modify fun o => { o with figures := o.figures ++ [f] }
  return path

/-- What work has led to, and what it has left behind. -/
def perform {α : Type} (work : Emit α) : Except Fault α × Output := work.run.run .empty

end Emit

namespace Album

open Emit

/-- Saves the map of a tour, if there are points to draw it on. -/
def tour (t : Tour) (cost : Except Fault Int) (points : Option (List (List Float)))
    (d : Directory) : Emit (Option String) := do
  match points with
  | none =>
      sayLine "  - Skipping tour plot (instance has no coordinates)."
      return none
  | some points =>
      let path ← save d TourMap.fileName (TourMap.figure t cost points)
      sayLine ("  - Tour visualization saved to " ++ path)
      return some path

def convergence (c : Columns) (d : Directory) : Emit String :=
  save d Convergence.fileName (Convergence.figure c)

/-- Saves the pie of the move types, unless there are none. -/
def moveTypes (c : Columns) (d : Directory) : Emit (Option String) := do
  match ← orFail (column "accepted_move_type" c.move) with
  | [] =>
      sayLine "  - Skipping acceptance criteria plot (no data)."
      return none
  | names => return some (← save d MoveTypes.fileName fun path => .ok (MoveTypes.figure names path))

def candidates (c : Columns) (d : Directory) : Emit String :=
  save d Candidates.fileName (Candidates.figure c)

def selectionProbability (w : WeightColumns Float) (d : Directory) : Emit String :=
  save d SelectionProbability.fileName (SelectionProbability.figure w)

/-- Whether a column of iterations, which has to be there, lists any. -/
def hasIterations (iteration : Option (List Quantity)) : Emit Bool := do
  return !(← orFail (column "iteration" iteration)).isEmpty

/-- The three charts of the history. -/
def moves (c : Columns) (d : Directory) : Emit (List String) := do
  sayLine "  - Plotting convergence history..."
  let first ← convergence c d
  sayLine "  - Plotting acceptance criteria..."
  let second ← moveTypes c d
  sayLine "  - Plotting candidate costs..."
  let third ← candidates c d
  return [first] ++ second.toList ++ [third]

/-- Saves all charts there is anything to draw for, and returns their paths. -/
def history (c : Option Columns) (w : Option (WeightColumns Float)) (d : Directory) :
    Emit (List String) := do
  let first ← match c with
    | some c =>
        if ← hasIterations c.iteration then moves c d
        else do
          sayLine "  - Skipping ALNS run history plots (no data)."
          pure []
    | none => do
        sayLine "  - Skipping ALNS run history plots (no data)."
        pure []
  match w with
  | some w =>
      if ← hasIterations w.iteration then
        sayLine "  - Plotting operator weights evolution..."
        return first ++ [← selectionProbability w d]
      else
        sayLine "  - Skipping operator history plots (no data)."
        return first
  | none =>
      sayLine "  - Skipping operator history plots (no data)."
      return first

end Album

end LargeNeighborhood
