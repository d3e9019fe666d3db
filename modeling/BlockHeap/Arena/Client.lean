import BlockHeap.Arena.Basic

/-!
# Access by clients

Clients read and write committed bytes, their own payloads or anything else. Nothing but the
segment's bounds holds them back.
-/

namespace BlockHeap.Arena

variable {σ : Type} [Segment σ]

/-- The address `offset` bytes from `a`, if the `count` bytes there are committed. -/
def locate? (h : Arena σ) (a : Nat) (offset : Int) (count : Nat) : Option Nat :=
  let target := a + offset
  if 0 ≤ target ∧ Segment.holds h.segment target.toNat count then some target.toNat else none

/-- The `count` bytes from `a` on. -/
def read (h : Arena σ) (a count : Nat) : List UInt8 :=
  h.memory.bytes a count

/-- Writes `f i` at `a + i` for each `i` below `count`. -/
def write (h : Arena σ) (a count : Nat) (f : Nat → UInt8) : Arena σ :=
  { h with memory := h.memory.tabulate a (a + count) fun b => f (b - a) }

/-- Writes `byte` at each of the `count` addresses from `a` on. -/
def fill (h : Arena σ) (a count : Nat) (byte : UInt8) : Arena σ :=
  { h with memory := h.memory.fill a (a + count) byte }

/-- Writes a word at `a`. -/
def writeWord (h : Arena σ) (a value : Nat) : Arena σ :=
  { h with memory := h.memory.setWord a value }

end BlockHeap.Arena
