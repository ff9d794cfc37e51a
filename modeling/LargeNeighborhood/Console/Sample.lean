set_option autoImplicit false

/-! # The bundled instance

Sixteen points on a square grid, whose shortest tour has length 160.
-/

namespace LargeNeighborhood

namespace Sample

/-- The points of a grid with four rows and four columns, row by row, at a distance of ten. -/
def rows : List String :=
  (List.range 16).map fun i =>
    " ".intercalate [toString (i + 1), toString (10 * (i % 4)), toString (10 * (i / 4))]

def lines : List String :=
  ["NAME : sample_16",
   "COMMENT : 16 points on a 4x4 grid with spacing 10, optimal tour length 160",
   "TYPE : TSP",
   "DIMENSION : 16",
   "EDGE_WEIGHT_TYPE : EUC_2D",
   "NODE_COORD_SECTION"] ++ rows

/-- The text of the instance file. -/
def text : String := String.join (lines.map fun line => line ++ "\n")

end Sample

end LargeNeighborhood
