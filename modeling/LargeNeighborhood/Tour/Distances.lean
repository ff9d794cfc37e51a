import LargeNeighborhood.Number.Arithmetic
import LargeNeighborhood.Number.Summation
import LargeNeighborhood.Position

set_option autoImplicit false

/-! # Distance tables

A table of `n` rows and `n` columns holds 64-bit distances, which wrap around when they are
added beyond their range. Rows and columns are named by positions counted from either end.

`ofPoints` fills a table with the straight distances between points, the fraction cut off. A
distance that is undefined or too large for an entry becomes the least entry.
-/

namespace LargeNeighborhood

structure DistanceTable where
  size : Nat
  entries : Array Int64
  complete : entries.size = size * size

namespace DistanceTable

/-- The table whose entry in row `i` and column `j` is `f i j`. -/
def ofFunction (n : Nat) (f : Nat → Nat → Int64) : DistanceTable where
  size := n
  entries := Array.ofFn fun (k : Fin (n * n)) => f (k / n) (k % n)
  complete := Array.size_ofFn

/-- The entry at two positions. -/
def at? (t : DistanceTable) (a b : Int) : Option Int64 := do
  let i ← Position.resolve? t.size a
  let j ← Position.resolve? t.size b
  t.entries[i * t.size + j]?

/-- The distance between two visits. -/
def get (t : DistanceTable) (a b : Int) : Except Fault Int64 :=
  match t.at? a b with
  | some d => .ok d
  | none => .error (.ofPositions a b)

/-- Replaces one entry. -/
def set (t : DistanceTable) (a b : Int) (d : Int64) : Except Fault DistanceTable :=
  match Position.resolve? t.size a, Position.resolve? t.size b with
  | some i, some j =>
      .ok { t with
        entries := t.entries.setIfInBounds (i * t.size + j) d
        complete := by rw [Array.size_setIfInBounds]; exact t.complete }
  | _, _ => .error (.ofPositions a b)

/-- The rows of the table. -/
def rows (t : DistanceTable) : List (List Int64) :=
  (List.range t.size).map fun i =>
    (List.range t.size).map fun j => (t.entries[i * t.size + j]?).getD 0

/-- The least entry stands for a distance that has no place in the table. -/
def entryOfFloat (x : Float) : Int64 :=
  match Binary.ofFloat x with
  | .finite negative m e =>
      let n := Binary.truncate negative m e
      if Int64.minValue.toInt ≤ n ∧ n ≤ Int64.maxValue.toInt then Int64.ofInt n else Int64.minValue
  | _ => Int64.minValue

/-- The sum of the squared differences of two points. -/
def squaredDistance (p q : List Float) : Float :=
  sumReals (p.zipWith (fun x y => (x - y) * (x - y)) q)

def ofPoints (points : Array (List Float)) : DistanceTable :=
  ofFunction points.size fun i j =>
    entryOfFloat (squaredDistance (points[i]?.getD []) (points[j]?.getD [])).sqrt

theorem size_set {t u : DistanceTable} {a b : Int} {d : Int64} (h : t.set a b d = .ok u) :
    u.size = t.size := by
  unfold set at h
  split at h
  · cases h; rfl
  · cases h

@[simp] theorem size_ofFunction (n : Nat) (f : Nat → Nat → Int64) :
    (ofFunction n f).size = n := rfl

@[simp] theorem size_ofPoints (points : Array (List Float)) :
    (ofPoints points).size = points.size := rfl

end DistanceTable

end LargeNeighborhood
