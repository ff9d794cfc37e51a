set_option autoImplicit false

/-! # Paths

A path is a text whose parts are separated by slashes. Empty parts do not matter. The part `.`
stays where it is and `..` leads one part back, both only from a directory; so does the end of a
path that ends with a slash. An absolute path starts at the part `/`.
-/

namespace LargeNeighborhood

namespace Path

/-- The path of a file in a directory. -/
def join (directory file : String) : String :=
  if directory.isEmpty || directory.endsWith "/" then directory ++ file
  else directory ++ "/" ++ file

/-- The parts of a path in order. -/
def parts (path : String) : List String :=
  let names := ((path.toList.splitOnP (· == '/')).map String.ofList).filter (!·.isEmpty)
  (if path.startsWith "/" then ["/"] else []) ++ names ++ (if path.endsWith "/" then ["."] else [])

/-- One part back. In front of where paths start there are further parts `..`. -/
def back (place : List String) : List String :=
  match place.getLast? with
  | none | some ".." => place ++ [".."]
  | some "/" => place
  | some _ => place.dropLast

/-- One part further along. -/
def step (place : List String) (part : String) : List String :=
  if part = "." then place
  else if part = ".." then back place
  else place ++ [part]

/-- Whether a place is known to be a directory: where paths start, and what is in front of it. -/
def isRoot (place : List String) : Bool := place.all fun part => part == ".." || part == "/"

/-- Whether a place is beneath where paths start. -/
def isInside (place : List String) : Bool := !place.any fun part => part == ".." || part == "/"

/-- How many bytes a name may have. -/
def nameLimit : Nat := 255

/-- How many bytes a path may have. -/
def pathLimit : Nat := 4095

/-- The part behind the last slash. -/
def fileName (path : String) : String :=
  String.ofList ((path.toList.reverse.takeWhile (· != '/')).reverse)

/-- A file name without its extension. Points at its start do not begin an extension. -/
def stem (name : String) : String :=
  let cs := name.toList
  let points := cs.takeWhile (· == '.')
  let rest := cs.drop points.length
  match rest.reverse.span (· != '.') with
  | (_, '.' :: front) => String.ofList (points ++ front.reverse)
  | _ => name

end Path

end LargeNeighborhood
