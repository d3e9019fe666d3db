import BlockHeap.Memory.Basic

/-!
# The operating system

A reservation of memory rests on three answers of the system: how large its pages are, where it maps
memory, and what becomes of pages that it is told to drop. A system is these three, whatever they are.
-/

namespace BlockHeap

structure System where
  /-- The number of bytes of a page; not positive if the system cannot tell. -/
  pageSize : Int
  /-- The address of so many bytes that are newly mapped; none if they cannot be. -/
  map : Nat → Option Nat
  /-- Drops so many bytes from an address on: why that failed, if it did, and the memory after it. -/
  drop : Nat → Nat → Memory → Option String × Memory

namespace System

/-- A system with pages of `page` bytes that maps less than 2 ^ 47 bytes, at `base`, and has zeros in
place of what it dropped. -/
def simple (page base : Nat) : System where
  pageSize := page
  map count := if count < 0x800000000000 then some base else none
  drop a count memory := (none, memory.fill a (a + count) 0)

/-- Pages of 4096 bytes, and memory from the end of the first 2 ^ 20 bytes on. -/
abbrev common : System :=
  simple 4096 0x100000

end System
end BlockHeap
