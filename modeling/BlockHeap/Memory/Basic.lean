import BlockHeap.Memory.Region
import BlockHeap.Tag

/-!
# Memory

A memory holds a byte at every address. Addresses beyond the region that was written so far hold
the blank byte; the region grows when something is written above it.
-/

namespace BlockHeap

structure Memory where
  height : Nat
  root : Region
  /-- The byte that every address held at first. -/
  blank : UInt8

namespace Memory

/-- A memory that holds `byte` everywhere. -/
def blankOf (byte : UInt8) : Memory :=
  ⟨0, .uniform byte, byte⟩

def read (m : Memory) (a : Nat) : UInt8 :=
  if a >>> m.height = 0 then m.root.read m.height a else m.blank

/-- Doubles the region `n` times. -/
def raise : Nat → Memory → Memory
  | 0, m => m
  | n + 1, m => raise n ⟨m.height + 1, .split m.root (.uniform m.blank), m.blank⟩

/-- The same bytes, with every address below `hi` inside the region. -/
def cover (m : Memory) (hi : Nat) : Memory :=
  m.raise (hi.log2 + 1 - m.height)

/-- Sets the bytes from `lo` up to `hi` to `byte`. -/
def fill (m : Memory) (lo hi : Nat) (byte : UInt8) : Memory :=
  let m := m.cover hi
  { m with root := m.root.fill lo hi byte m.height 0 }

/-- Sets the byte at each `a` from `lo` up to `hi` to `f a`. -/
def tabulate (m : Memory) (lo hi : Nat) (f : Nat → UInt8) : Memory :=
  let m := m.cover hi
  { m with root := m.root.tabulate lo hi f m.height 0 }

/-- Copies `count` bytes from `source` to `target`. -/
def copy (m : Memory) (source target count : Nat) : Memory :=
  m.tabulate target (target + count) fun a => m.read (a - target + source)

/-- The `count` bytes from `a` on. -/
def bytes (m : Memory) (a count : Nat) : List UInt8 :=
  (List.range count).map fun i => m.read (a + i)

/-- The number that `count` bytes from `a` on spell, the lowest first. -/
def number (m : Memory) (a : Nat) : Nat → Nat
  | 0 => 0
  | count + 1 => (m.read a).toNat + 256 * m.number (a + 1) count

/-- The word at `a`. -/
def word (m : Memory) (a : Nat) : Nat :=
  m.number a wordSize

/-- Sets the word at `a`. -/
def setWord (m : Memory) (a value : Nat) : Memory :=
  m.tabulate a (a + wordSize) fun i => UInt8.ofNat (value >>> (8 * (i - a)))

end Memory
end BlockHeap
