import LargeNeighborhood.Fault
import LargeNeighborhood.Text.Path

set_option autoImplicit false

/-! # Folders

A folder holds files and directories by their places. A path is followed part by part, each part
being looked for in a directory that is there; so `a/../b` leads to `b` only if there is a
directory `a`. The directories on the way to a file are made with the file.
-/

namespace LargeNeighborhood

/-- What stands at a place. -/
inductive Node where
  | file (content : ByteArray)
  | directory

structure Folder where
  entries : List (List String × Node)

namespace Folder

def empty : Folder := ⟨[]⟩

/-- What stands at a place. The folder itself is a directory. -/
def node? (f : Folder) (place : List String) : Option Node :=
  if Path.isRoot place then some .directory else f.entries.lookup place

/-- Puts something at a place, instead of what stood there. -/
def put (f : Folder) (place : List String) (n : Node) : Folder :=
  ⟨(place, n) :: f.entries.filter fun entry => entry.1 != place⟩

/-- The place that parts lead to from another one. What the last part names need not be there. -/
def follow (f : Folder) (place : List String) : List String → Except Fault (List String)
  | [] => .ok place
  | part :: parts =>
      match f.node? place with
      | none => .error (.nothingThere ("/".intercalate place))
      | some (.file _) => .error (.notADirectory ("/".intercalate place))
      | some .directory =>
          if Path.nameLimit < part.utf8ByteSize then .error .pathTooLong
          else f.follow (Path.step place part) parts

/-- The place that the parts of a path lead to. -/
def find (f : Folder) (parts : List String) : Except Fault (List String) :=
  if parts.any fun part => part.contains '\x00' then .error .nullInPath
  else if Path.pathLimit < ("/".intercalate parts).utf8ByteSize then .error .pathTooLong
  else if parts.isEmpty then .error (.nothingThere "")
  else f.follow [] parts

/-- What the parts of a path lead to. -/
def lookup (f : Folder) (parts : List String) : Except Fault Node := do
  let place ← f.find parts
  match f.node? place with
  | some n => return n
  | none => throw (.nothingThere ("/".intercalate parts))

/-- Whether a path leads to anything. -/
def holds (f : Folder) (path : String) : Bool := (f.lookup (Path.parts path)).isOk

/-- The content of a file. -/
def read (f : Folder) (path : String) : Except Fault ByteArray :=
  match f.lookup (Path.parts path) with
  | .ok (.file content) => .ok content
  | .ok .directory => .error (.isDirectory path)
  | .error _ => .error (.fileMissing path)

/-- Whether a directory stands where the parts of a path lead. -/
def isDirectory (f : Folder) (parts : List String) : Bool :=
  match f.lookup parts with
  | .ok .directory => true
  | _ => false

/-- The place where a file can be written. -/
def placeOfFile (f : Folder) (path : String) : Except Fault (List String) := do
  let place ← f.find (Path.parts path)
  match f.node? place with
  | some .directory => throw (.isDirectory path)
  | _ => return place

/-- Writes a file in a directory that is there. -/
def write (f : Folder) (path : String) (content : ByteArray) : Except Fault Folder :=
  (f.placeOfFile path).map fun place => f.put place (.file content)

/-- Why a file cannot be written, if it cannot. -/
def refusal? (f : Folder) (path : String) : Option Fault :=
  match f.placeOfFile path with
  | .ok _ => none
  | .error fault => some fault

/-- Makes one directory. It may be there already. -/
def makeDirectory (f : Folder) (parts : List String) : Except Fault Folder := do
  if f.isDirectory parts then return f
  let place ← f.find parts
  match f.node? place with
  | some _ => throw (.alreadyThere ("/".intercalate parts))
  | none => return f.put place .directory

/-- Makes sure of the directory that parts, given backwards, lead to, and of those on the way. -/
def ensure (f : Folder) : List String → Except Fault Folder
  | [] => .ok f
  | part :: before => do
      -- the directories in front are made first, unless they are there
      if before.isEmpty || (f.lookup before.reverse).isOk then
        f.makeDirectory (part :: before).reverse
      else
        let f ← f.ensure before
        if part = "." then return f
        f.makeDirectory (part :: before).reverse

/-- Makes sure of a directory and of all directories on the way to it. -/
def makeDirectories (f : Folder) (path : String) : Except Fault Folder :=
  f.ensure (Path.parts path).reverse

/-- Adds a file together with the directories on the way to it. -/
def addFile (f : Folder) (path : String) (content : ByteArray) : Except Fault Folder := do
  let f ← f.ensure (Path.parts path).dropLast.reverse
  f.write path content

/-- Removes what is beneath a place. -/
def clear (f : Folder) (place : List String) : Folder :=
  ⟨f.entries.filter fun entry => entry.1 == place || !place.isPrefixOf entry.1⟩

/-- Takes an emptied directory away. Its path has to end with a name. -/
def drop (f : Folder) (parts : List String) : Except Fault Folder := do
  let place ← f.find parts
  match parts.getLast?, f.node? place with
  | _, none => throw (.nothingThere ("/".intercalate parts))
  | some ".", _ | some "..", _ => throw (.unremovable ("/".intercalate parts))
  | _, _ => return ⟨f.entries.filter fun entry => entry.1 != place⟩

/-- Removes a directory with all that is in it. What is in it is gone also when the directory
itself cannot be removed. -/
def remove (f : Folder) (path : String) : Except Fault Unit × Folder :=
  let parts := Path.parts path
  match f.find parts with
  | .error fault => (.error fault, f)
  | .ok place =>
      match f.node? place with
      | some .directory =>
          let f := f.clear place
          match f.drop (if path.endsWith "/" && 1 < parts.length then parts.dropLast else parts) with
          | .ok f => (.ok (), f)
          | .error fault => (.error fault, f)
      | some (.file _) => (.error (.notADirectory path), f)
      | none => (.error (.nothingThere path), f)

/-- All files with their contents, by the order of their paths. -/
def files (f : Folder) : List (String × ByteArray) :=
  let all := f.entries.filterMap fun (place, n) =>
    match n with
    | .file content => if Path.isInside place then some ("/".intercalate place, content) else none
    | .directory => none
  all.mergeSort fun a b => decide (a.1 ≤ b.1)

end Folder

end LargeNeighborhood
