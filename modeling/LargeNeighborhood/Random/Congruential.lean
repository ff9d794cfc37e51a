import LargeNeighborhood.Random.Generator
import LargeNeighborhood.Random.Seed

set_option autoImplicit false

/-! # A permuted congruential generator

The state is a number of 128 bits that is multiplied and shifted at every draw; the 64 bits
drawn are the two halves of the state, one over the other, rotated by the top six bits. A draw
of 32 bits takes the lower half of a word and keeps the upper half for the next such draw.

Draws below a bound come from draws of 32 bits, or of 64 where the bound needs them, by rejection:
`below` multiplies and takes the upper half, rejecting the few products that would favour some
results; an index for shuffling masks the draw and rejects what is too large. Each draw is
rejected with probability less than one half, and after `attempts` rejections in a row the last
draw is reduced to its range.
-/

namespace LargeNeighborhood

structure Congruential where
  state : Nat
  increment : Nat
  /-- The upper half of a word whose lower half was drawn. -/
  saved : Option Nat

namespace Congruential

def multiplier : Nat := 0x2360ed051fc65da44385df649fccf645

/-- One step of the state. -/
def step (g : Congruential) : Congruential :=
  { g with state := (g.state * multiplier + g.increment) % twoTo 128 }

def ofSeed (n : Nat) : Congruential :=
  let a := Seed.start n
  let word (k : Nat) : Nat := a[k]?.getD 0
  let increment := ((word 2 * twoTo 64 + word 3) * 2 + 1) % twoTo 128
  step ⟨(increment + (word 0 * twoTo 64 + word 1)) % twoTo 128, increment, none⟩

/-- Rotates a 64-bit word to the right. -/
def rotateRight (v : Nat) (amount : Nat) : Nat :=
  (v / twoTo amount + v * twoTo (64 - amount)) % twoTo 64

/-- The next 64 bits. -/
def next64 (g : Congruential) : Nat × Congruential :=
  let g := g.step
  (rotateRight ((g.state / twoTo 64) ^^^ (g.state % twoTo 64)) (g.state / twoTo 122), g)

/-- The next 32 bits. -/
def next32 (g : Congruential) : Nat × Congruential :=
  match g.saved with
  | some v => (v, { g with saved := none })
  | none =>
      let (v, g) := g.next64
      (v % twoTo 32, { g with saved := some (v / twoTo 32) })

/-- A real of the unit interval with 53 random bits. -/
def unit (g : Congruential) : Float × Congruential :=
  let (v, g) := g.next64
  (Float.ofNat (v / twoTo 11) / 9007199254740992.0, g)

/-- How many draws in a row may be rejected. -/
def attempts : Nat := 4096

/-- Draws until `keep` accepts, or `fuel` is used up. -/
def drawUntil (next : Congruential → Nat × Congruential) (keep : Nat → Bool) :
    Nat → Congruential → Nat × Congruential
  | 0, g => next g
  | fuel + 1, g =>
      let (v, g) := next g
      if keep v then (v, g) else drawUntil next keep fuel g

/-- A draw below a bound by draws of so many bits. -/
def scaled (next : Congruential → Nat × Congruential) (bits n : Nat) (g : Congruential) :
    Nat × Congruential :=
  let threshold := (twoTo bits - n) % n
  let (v, g) := drawUntil next (fun v => decide (threshold ≤ v * n % twoTo bits)) attempts g
  (v * n / twoTo bits, g)

/-- A draw below a positive bound. A bound of one needs no draw. -/
def bounded (n : Nat) (g : Congruential) : Nat × Congruential :=
  if n ≤ 1 then (0, g)
  else if n ≤ twoTo 32 then scaled next32 32 n g
  else scaled next64 64 n g

def below (n : Int) (g : Congruential) : Except Fault Int × Congruential :=
  if n ≤ 0 ∨ twoTo 63 < n then (.error .emptyRange, g)
  else
    let (v, g) := bounded n.toNat g
    (.ok (v : Int), g)

/-- An index up to `i`: the bits of `i` are drawn until they are not above it. -/
def index (i : Nat) (g : Congruential) : Nat × Congruential :=
  let bits := twoTo (i.log2 + 1)
  let (v, g) := drawUntil next32 (fun v => decide (v % bits ≤ i)) attempts g
  (v % bits % (i + 1), g)

def shuffle (xs : List Int) (g : Congruential) : Except Fault (List Int) × Congruential :=
  shuffleDown (fun i g => let (j, g) := index i g; (.ok j, g)) (xs.length - 1) xs.toArray g

end Congruential

end LargeNeighborhood
