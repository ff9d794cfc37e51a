import LargeNeighborhood.Console.Session
import LargeNeighborhood.Console.Timestamp

set_option autoImplicit false

/-! # The command line

`main` reads the options, hands the instance file to a session, prints what the session prints,
and writes its log. The figures of a session are descriptions; drawing them is left to a viewer.
-/

namespace LargeNeighborhood

namespace Program

/-- What stands at the path of the instance, as a folder with nothing else in it. -/
def folderAt (path : String) : IO Folder := do
  try
    let content ← IO.FS.readBinFile path
    return (Folder.empty.addFile path content).toOption.getD .empty
  catch
    | .noFileOrDirectory _ _ _ => return .empty
    | _ => return (Folder.empty.makeDirectories path).toOption.getD .empty

/-- The seconds since the beginning of 1970, which a new file shows as the time of its making. -/
def now : IO Nat := do
  let (_, path) ← IO.FS.createTempFile
  let made := (← path.metadata).modified
  IO.FS.removeFile path
  return made.sec.toNat

/-- The result of work, after printing what it has printed. -/
def shown {α : Type} (work : Emit α) : IO (Except Fault α × String) := do
  let (result, output) := work.perform
  IO.print output.printed
  return (result, output.printed)

/-- Runs a session and returns its status and the text of its log. -/
def session (o : Options) : IO (Except Fault Nat × String) := do
  let s : Session.Setting := ⟨"baseline_run_" ++ Timestamp.ofSeconds (← now), false, true⟩
  IO.FS.createDirAll (Session.runDirectory s o)
  let given ← match o.input with
    | some path => folderAt path
    | none => pure .empty
  let folder := (given.makeDirectories (Session.runDirectory s o)).toOption.getD given
  let start ← IO.monoMsNow
  let (found, first) ← shown (Session.search s folder o)
  let (status, text) ← match found with
    | .error fault => pure (.error fault, first)
    | .ok none => pure (.ok 1, first)
    | .ok (some found) => do
        let seconds := Float.ofNat ((← IO.monoMsNow) - start) / 1000
        let (status, second) ← shown (Session.conclude s folder o (.real seconds) found)
        pure (status, first ++ second)
  IO.FS.withFile (Session.logPath s o) .append fun log => log.putStr text
  return (status, text)

/-- Runs the program and returns its exit status. -/
def run (arguments : List String) : IO UInt32 := do
  match Options.parse arguments with
  | .error .help =>
      IO.println ("options: " ++ ", ".intercalate (Flag.spellings.map Prod.fst))
      return 0
  | .error (.complaint c) =>
      IO.eprintln c.line
      return 2
  | .ok o =>
      match (← session o).1 with
      | .ok status => return status.toUInt32
      | .error fault =>
          IO.eprintln (fault.message.getD "the session has failed")
          return 1

end Program

end LargeNeighborhood

def main (arguments : List String) : IO UInt32 := LargeNeighborhood.Program.run arguments
