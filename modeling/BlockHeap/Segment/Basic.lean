import BlockHeap.Memory.Basic

/-!
# Segments

A segment is one contiguous stretch of memory whose start never moves. Its end, the break, moves up
with `grow` and down with `shrink`; either can be refused. The bytes from the start to the break
are committed.
-/

namespace BlockHeap

/-- Why a segment refused to move its break, or could not be made. -/
inductive SegmentError where
  | exhausted (requested available : Nat)
  | underflow (requested committed : Nat)
  /-- The system did not provide the memory. -/
  | unmapped
deriving DecidableEq, Repr

def SegmentError.message : SegmentError → String
  | .exhausted requested available =>
    s!"segment exhausted: {requested} bytes requested, {available} available"
  | .underflow requested committed =>
    s!"cannot release {requested} bytes, only {committed} committed"
  | .unmapped => "failed to reserve the segment"

/-- The system did not take back bytes that the segment gave up, for the reason that it names. -/
structure SegmentWarning where
  bytes : Nat
  error : String
deriving DecidableEq, Repr

def SegmentWarning.message (w : SegmentWarning) : String :=
  s!"madvise on {w.bytes} released bytes failed: {w.error}"

/-- The answer to a request to move the break: the refusal, if it was refused, the segment and the
memory after it, and what the segment itself warns of. -/
structure Segment.Move (σ : Type) where
  refusal : Option SegmentError
  segment : σ
  memory : Memory
  warnings : List SegmentWarning

class Segment (σ : Type) where
  /-- The first address. -/
  start : σ → Nat
  /-- The number of bytes below the break. -/
  committed : σ → Nat
  pageSize : σ → Nat
  /-- Asks for `bytes` more bytes. -/
  grow : Nat → σ → Memory → Segment.Move σ
  /-- Gives `bytes` bytes back. -/
  shrink : Nat → σ → Memory → Segment.Move σ

namespace Segment

variable {σ : Type} [Segment σ]

/-- The address of the break. -/
def stop (s : σ) : Nat :=
  start s + committed s

/-- Whether the `count` bytes from `a` on are committed. -/
def holds (s : σ) (a count : Nat) : Bool :=
  start s ≤ a && a + count ≤ stop s

end Segment
end BlockHeap
