import LargeNeighborhood.Number.Arithmetic
import LargeNeighborhood.Text.Quoted

set_option autoImplicit false

/-! # Figures

A figure is described by what is drawn in it: lines, scattered points, captions and the wedges
of a pie, on one or more pairs of axes, each with its labels and its legend. Sizes, fonts and
the like are left to whoever draws it.
-/

namespace LargeNeighborhood

/-- A colour by its red, green and blue parts, eight bits each. -/
structure Color where
  code : Nat
  deriving DecidableEq, Repr

namespace Color

def text (c : Color) : String := "#" ++ Quoted.hex 6 c.code

def gold : Color := ⟨0xffd700⟩

def limeGreen : Color := ⟨0x32cd32⟩

def coral : Color := ⟨0xff7f50⟩

def lightGrey : Color := ⟨0xd3d3d3⟩

def grey : Color := ⟨0x808080⟩

def green : Color := ⟨0x008000⟩

def red : Color := ⟨0xff0000⟩

def cornflowerBlue : Color := ⟨0x6495ed⟩

end Color

/-- How the points of a line are joined. -/
inductive Stroke where
  | solid
  | dashed
  deriving DecidableEq, Repr

def Stroke.text : Stroke → String
  | .solid => "-"
  | .dashed => "--"

/-- A line through points, each of which is marked by a dot if `dotted` says so. -/
structure Line where
  label : Option String
  color : Color
  stroke : Stroke
  dotted : Bool
  xs : List Quantity
  ys : List Quantity

/-- Single points. Colours and the numbers of shapes go by point; a single one is for all. -/
structure Scatter where
  label : Option String
  points : List (Float × Float)
  colors : List Color
  shapes : List Nat

/-- A text, at a place of its own or beside what it belongs to. -/
structure Caption where
  text : String
  place : Option (Float × Float)

structure Legend where
  title : String
  entries : List String

structure Axes where
  title : String
  xlabel : String
  ylabel : String
  lines : List Line := []
  scatters : List Scatter := []
  captions : List Caption := []
  wedges : List Color := []
  legend : Option Legend := none

structure Figure where
  path : String
  title : Option String
  axes : List Axes

namespace Line

/-- The coordinates of a line. Whole numbers stay whole unless there is a real among them, or only
some of them need 64 bits without a sign; then all become reals. If one of them takes more than
64 bits, all stay what they are. All have to be in the range of the reals. -/
def coordinates (qs : List Quantity) : Except Fault (List Quantity) := do
  let xs ← qs.mapM Quantity.toReal?
  let mixed := qs.any Quantity.isLarge && !qs.all Quantity.isLarge
  return if !qs.any Quantity.isWide && (mixed || !qs.all Quantity.isWhole) then xs.map .real else qs

/-- A line through the points of two columns; there is none when they are empty. -/
def ofColumns (label : String) (color : Color) (stroke : Stroke) (xs ys : List Quantity) :
    Except Fault (List Line) := do
  if xs.length ≠ ys.length then throw .unequalLengths
  let xs ← coordinates xs
  let ys ← coordinates ys
  return if xs.isEmpty then []
    else [{ label := some label, color, stroke, dotted := false, xs, ys }]

end Line

end LargeNeighborhood
