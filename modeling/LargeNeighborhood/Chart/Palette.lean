import LargeNeighborhood.Chart.Figure

set_option autoImplicit false

/-! # Colours that are easy to tell apart

Up to ten colours come from a fixed list. More of them are spread evenly over the hues. Lightness
and chroma are those of the CIE LUV space, so that all look equally light, and the chroma is the
same part for every hue of what a screen can show.
-/

namespace LargeNeighborhood

namespace Palette

/-- The colours that are used while there are enough of them. -/
def few : List Color :=
  [⟨0x1f77b4⟩, ⟨0xff7f0e⟩, ⟨0x2ca02c⟩, ⟨0xd62728⟩, ⟨0x9467bd⟩, ⟨0x8c564b⟩, ⟨0xe377c2⟩,
   ⟨0x7f7f7f⟩, ⟨0xbcbd22⟩, ⟨0x17becf⟩]

/-- Coordinates in the CIE XYZ space, or what they are multiplied by. -/
structure Stimulus where
  x : Float
  y : Float
  z : Float

def Stimulus.dot (a b : Stimulus) : Float := a.x * b.x + a.y * b.y + a.z * b.z

/-- What a stimulus is multiplied by for the red, the green and the blue of a screen. -/
def primaries : List Stimulus :=
  [⟨3.2406, -1.5372, -0.4986⟩, ⟨-0.9689, 1.8758, 0.0415⟩, ⟨0.0557, -0.2040, 1.0570⟩]

def lightness : Float := 0.65 * 99

/-- The part of the strongest chroma that is used, in per cent. -/
def saturation : Float := 0.9 * 99

/-- The luminance of `lightness`, which is above the dark range with a rule of its own. -/
def luminance : Float := Float.pow ((lightness + 16) / 116) 3

/-- The chroma at which a primary is lit fully (`lit = 1`) or not at all (`lit = 0`), in the
direction of a hue with the given sine and cosine. -/
def limit (sin cos : Float) (primary : Stimulus) (lit : Float) : Float :=
  let level := Float.pow (lightness + 16) 3 / 1560896
  let top := (0.99915 * primary.x + 1.05122 * primary.y + 1.14460 * primary.z) * level
  let right := 0.86330 * primary.z - 0.17266 * primary.y
  let left := 0.12949 * primary.z - 0.38848 * primary.x
  let bottom := (right * sin + left * cos) * level
  lightness * (top - 1.05122 * lit) / (bottom + 0.17266 * sin * lit)

/-- The strongest chroma that a screen can show in a direction: the least positive limit. -/
def strongest (sin cos : Float) : Float :=
  let limits := primaries.flatMap fun p => [limit sin cos p 0, limit sin cos p 1]
  (limits.filter fun c => decide (0 < c)).foldl (fun a b => if b < a then b else a) (1 / 0)

/-- The stimulus with the coordinates `u` and `v` in the plane of the hues. -/
def stimulus (u v : Float) : Stimulus :=
  let u := u / (13 * lightness) + 0.19784
  let v := v / (13 * lightness) + 0.46834
  let x := 0 - 9 * luminance * u / ((u - 4) * v - u * v)
  ⟨x, luminance, (9 * luminance - 15 * v * luminance - v * x) / (3 * v)⟩

/-- The eight bits for a strength of light, which are not proportional to it. -/
def bits (strength : Float) : Nat :=
  let level :=
    if strength ≤ 0.0031308 then 12.92 * strength
    else 1.055 * Float.pow strength (1 / 2.4) - 0.055
  (roundTo 0 (255 * (if level < 0 then 0 else if 1 < level then 1 else level))).toUInt8.toNat

/-- The colour of a hue, in degrees. -/
def ofHue (hue : Float) : Color :=
  let angle := hue * (3.141592653589793 / 180)
  let chroma := strongest angle.sin angle.cos / 100 * saturation
  let s := stimulus (angle.cos * chroma) (angle.sin * chroma)
  ⟨primaries.foldl (fun code primary => 256 * code + bits (s.dot primary)) 0⟩

/-- The hue of the `i`-th of `n` colours. -/
def hue (n i : Nat) : Float :=
  let turn := Float.ofNat i * (1 / Float.ofNat n) + 0.01
  (if turn < 1 then turn else turn - 1) * 359

/-- The `i`-th of `n` colours. -/
def color (n i : Nat) : Color :=
  if n ≤ few.length then few.getD i .grey else ofHue (hue n i)

end Palette

end LargeNeighborhood
