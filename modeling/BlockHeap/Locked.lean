import BlockHeap.Heap

/-!
# Locked heaps

A locked heap serves requests by layout. A fault inside an operation poisons the lock: from then on
requests get nothing, frees do nothing, and the heap cannot be taken out again.
-/

namespace BlockHeap

/-- The size and alignment of a value. -/
structure Layout where
  size : Nat
  align : Nat
deriving DecidableEq, Repr

namespace Layout

/-- No value is larger, nor its size rounded up to its alignment. -/
def maxSize : Nat := 0x7fffffffffffffff

/-- A layout, if `align` is a power of two and `size` rounded up to it is not too large. -/
def create? (size align : Nat) : Option Layout :=
  if align ≠ 0 ∧ align &&& (align - 1) = 0 ∧ (size + (align - 1)) / align * align ≤ maxSize then
    some ⟨size, align⟩
  else none

end Layout

structure Locked (σ : Type) where
  heap : Heap σ
  poisoned : Bool

namespace Locked

variable {σ α : Type} [Segment σ]

/-- Payloads lie one tag behind a block's address, so no larger alignment can be had. -/
def maxAlign : Nat := wordSize

def ofHeap (heap : Heap σ) : Locked σ :=
  ⟨heap, false⟩

/-- The heap, unless the lock is poisoned. -/
def intoHeap? (l : Locked σ) : Option (Heap σ) :=
  if l.poisoned then none else some l.heap

/-- Runs an action under the lock; a poisoned lock answers `idle`. -/
def run (l : Locked σ) (idle : α) (action : Action σ α) : Outcome (Locked σ) α :=
  if l.poisoned then ⟨.ok idle, l, []⟩
  else
    let ⟨result, heap, log⟩ := l.heap.run action
    ⟨result, ⟨heap, result matches .error _⟩, log⟩

/-- Runs an action for a layout, unless its alignment is too large. -/
def request (l : Locked σ) (layout : Layout) (action : Action σ (Option Nat)) :
    Outcome (Locked σ) (Option Nat) :=
  if maxAlign < layout.align then ⟨.ok none, l, []⟩ else l.run none action

def allocate (l : Locked σ) (layout : Layout) : Outcome (Locked σ) (Option Nat) :=
  l.request layout (Arena.allocate layout.size)

def allocateZeroed (l : Locked σ) (layout : Layout) : Outcome (Locked σ) (Option Nat) :=
  l.request layout (Arena.allocateZeroed 1 layout.size)

def free (l : Locked σ) (payload : Option Nat) : Outcome (Locked σ) Unit :=
  l.run () (Arena.free payload)

def resize (l : Locked σ) (payload : Option Nat) (layout : Layout) (size : Nat) :
    Outcome (Locked σ) (Option Nat) :=
  l.request layout (Arena.resize payload size)

end Locked
end BlockHeap
