import LargeNeighborhood.Fault

set_option autoImplicit false

/-! # Writing to a terminal and a log

What is written to a tee goes to the terminal at once and waits for the log, which it reaches
when the tee is flushed or closed. A closed tee still serves the terminal but refuses to log.
-/

namespace LargeNeighborhood

structure Tee where
  terminal : String
  log : String
  waiting : String
  isOpen : Bool

namespace Tee

/-- A tee that goes on with a log. -/
def ofLog (log : String) : Tee := ⟨"", log, "", true⟩

def write (t : Tee) (text : String) : Except Fault Unit × Tee :=
  let t := { t with terminal := t.terminal ++ text }
  if t.isOpen then (.ok (), { t with waiting := t.waiting ++ text })
  else (.error .closedLog, t)

/-- Moves what waits into the log. -/
def settle (t : Tee) : Tee := { t with log := t.log ++ t.waiting, waiting := "" }

def flush (t : Tee) : Except Fault Unit × Tee :=
  if t.isOpen then (.ok (), t.settle) else (.error .closedLog, t)

/-- Closes the log. Closing once more changes nothing. -/
def close (t : Tee) : Tee := { t.settle with isOpen := false }

end Tee

end LargeNeighborhood
