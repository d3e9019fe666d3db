import BlockHeap.Align
import BlockHeap.Segment.Basic
import BlockHeap.Segment.System

/-!
# Reserved segments

A reservation is a segment whose whole capacity is set aside in advance, in whole pages of a system.
Pages that lie entirely above the break after it moved down go back to the system.
-/

namespace BlockHeap

structure Reservation (sys : System) where
  base : Nat
  capacity : Nat
  committed : Nat
  pageSize : Nat
deriving DecidableEq, Repr

namespace Reservation

/-- The capacity of a reservation that asks for none in particular. -/
def defaultCapacity : Nat := 64 * 1024 * 1024

/-- Reserves `capacity` bytes where the system maps them. Address 0 is none. -/
def reserve (sys : System) (pageSize capacity : Nat) : Except SegmentError (Reservation sys) :=
  match sys.map capacity with
  | none | some 0 => .error .unmapped
  | some base => .ok ⟨base, capacity, 0, pageSize⟩

/-- Reserves at least `capacity` bytes, rounded up to whole pages, of which there is at least one. -/
def create (sys : System) (capacity : Nat) :
    Except Fault (Except SegmentError (Reservation sys)) := do
  if sys.pageSize ≤ 0 then return .error .unmapped
  let pageSize := sys.pageSize.toNat
  return reserve sys pageSize (← Word.alignUp (max capacity 1) pageSize)

/-- `offset` rounded up to whole pages. -/
def pageCeil (pageSize offset : Nat) : Nat :=
  (offset + (pageSize - 1)) / pageSize * pageSize

/-- Memory that was never written holds this everywhere. -/
def blank : Memory := .blankOf 0

variable {sys : System}

/-- The pages that lie between the break and a lower one go back to the system. -/
def release (r : Reservation sys) (stop : Nat) (memory : Memory) : Memory × List SegmentWarning :=
  let low := pageCeil r.pageSize stop
  let high := pageCeil r.pageSize r.committed
  if low < high then
    let dropped := sys.drop (r.base + low) (high - low) memory
    (dropped.2, (dropped.1.map fun error => ⟨high - low, error⟩).toList)
  else (memory, [])

instance : Segment (Reservation sys) where
  start := base
  committed := committed
  pageSize := pageSize
  grow bytes r memory :=
    if r.capacity - r.committed < bytes then
      ⟨some (.exhausted bytes (r.capacity - r.committed)), r, memory, []⟩
    else ⟨none, { r with committed := r.committed + bytes }, memory, []⟩
  shrink bytes r memory :=
    if r.committed < bytes then ⟨some (.underflow bytes r.committed), r, memory, []⟩
    else
      let stop := r.committed - bytes
      let released := r.release stop memory
      ⟨none, { r with committed := stop }, released.1, released.2⟩

end Reservation
end BlockHeap
