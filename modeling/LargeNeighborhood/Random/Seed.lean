import LargeNeighborhood.Number.Power

set_option autoImplicit false

/-! # Seeds

A seed is a natural number of any size. Its 32-bit words are stirred into a pool of four words,
every word of the pool into every other and each further word of the seed into all of them. From
the pool come as many words as a generator needs to start. All arithmetic is on 32-bit words.
-/

namespace LargeNeighborhood

namespace Seed

/-- The 32-bit words of a number, least significant first; zero has one word. -/
def words (n : Nat) : List UInt32 :=
  if h : n < 4294967296 then [n.toUInt32]
  else (n % 4294967296).toUInt32 :: words (n / 4294967296)
termination_by n
decreasing_by omega

/-- Scrambles words with a constant that is multiplied after each use. -/
structure Scrambler where
  constant : UInt32
  factor : UInt32

def Scrambler.next (s : Scrambler) (v : UInt32) : UInt32 × Scrambler :=
  let constant := s.constant * s.factor
  let v := (v ^^^ s.constant) * constant
  (v ^^^ (v >>> 16), { s with constant })

/-- Stirs the word `y` into `x`. -/
def stir (x y : UInt32) : UInt32 :=
  let r := 0xca01f9dd * x - 0x4973f715 * y
  r ^^^ (r >>> 16)

/-- The pool and the scrambler that fills it. -/
structure Pool where
  cells : Array UInt32
  scrambler : Scrambler

namespace Pool

def cell (p : Pool) (i : Nat) : UInt32 := p.cells[i]?.getD 0

/-- Appends a word of the seed. -/
def fill (p : Pool) (v : UInt32) : Pool :=
  let (v, scrambler) := p.scrambler.next v
  { cells := p.cells.push v, scrambler }

/-- Stirs a word, scrambled anew, into one cell. -/
def stirInto (p : Pool) (target : Nat) (v : UInt32) : Pool :=
  let (v, scrambler) := p.scrambler.next v
  { cells := p.cells.setIfInBounds target (stir (p.cell target) v), scrambler }

/-- Stirs one cell into each of the others. -/
def spread (p : Pool) (source : Nat) : Pool :=
  ((List.range 4).filter (· != source)).foldl (fun p target => p.stirInto target (p.cell source)) p

/-- Stirs a further word of the seed into every cell. -/
def absorb (p : Pool) (v : UInt32) : Pool :=
  (List.range 4).foldl (fun p target => p.stirInto target v) p

/-- The pool of a seed. -/
def ofSeed (n : Nat) : Pool :=
  let ws := words n
  let first := (ws ++ List.replicate 4 0).take 4
  let filled := first.foldl fill ⟨#[], ⟨0x43b0d7e5, 0x931e8875⟩⟩
  let mixed := (List.range 4).foldl spread filled
  (ws.drop 4).foldl absorb mixed

end Pool

/-- Words for the start of a generator: the cells in turn, scrambled. -/
def outputs (cells : Array UInt32) : Nat → Nat → Scrambler → List UInt32
  | 0, _, _ => []
  | count + 1, i, s =>
      let (w, s) := s.next (cells[i % 4]?.getD 0)
      w :: outputs cells count (i + 1) s

/-- The first four 64-bit numbers of a seed. -/
def start (n : Nat) : List Nat :=
  let ws := outputs (Pool.ofSeed n).cells 8 0 ⟨0x8b51f9dd, 0x58f38ded⟩
  let rec pairs : List UInt32 → List Nat
    | low :: high :: rest => (low.toNat + high.toNat * twoTo 32) :: pairs rest
    | _ => []
  pairs ws

end Seed

end LargeNeighborhood
