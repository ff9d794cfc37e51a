set_option autoImplicit false

/-! # Packed files

The end of a file's name says in which format the file is packed, in either case of letters. A
file whose name says nothing is a plain one.
-/

namespace LargeNeighborhood

/-- The formats of packed files. -/
inductive Packing where
  | tape
  | gzip
  | bzip2
  | zip
  | xz
  | zstandard
  deriving DecidableEq, Inhabited

namespace Packing

/-- The endings of names and what they say; the first that fits counts. -/
def endings : List (String × Packing) :=
  [(".tar", .tape), (".tar.gz", .tape), (".tar.bz2", .tape), (".tar.xz", .tape), (".gz", .gzip),
   (".bz2", .bzip2), (".zip", .zip), (".xz", .xz), (".zst", .zstandard)]

/-- The format that a name promises. -/
def ofName? (name : String) : Option Packing :=
  let lowered := name.map Char.toLower
  (endings.find? fun entry => lowered.endsWith entry.1).map Prod.snd

end Packing

end LargeNeighborhood
