import BlockHeap.Arena.Search

/-!
# Growing and trimming

The arena ends at the last multiple of the block unit below the break that leaves room for the end
sentinel. When the segment grows, the new bytes become a free block at the end, or part of the free
block that was there; when a free block at the end is large enough, it goes back to the segment.
-/

namespace BlockHeap.Arena

variable {σ : Type} [Segment σ]

/-- The first block's place in a segment that starts at `a`, above the start sentinel. -/
def firstBlock (a : Nat) : Except Fault Nat :=
  Word.add (Word.floorUnit a) blockUnit

/-- The end sentinel's place in a segment with its break at `a`. -/
def endSentinel (a : Nat) : Except Fault Nat :=
  return Word.floorUnit (← Word.sub a wordSize)

/-- Takes the bytes up to the break in, as a free block at the end; its address and size. -/
def annex : Action σ (Nat × Nat) := do
  let h ← Action.get
  let stop ← endSentinel (Segment.stop h.segment)
  let gained ← Word.sub stop h.stop
  let before ← Block.tagBefore h.stop
  let (block, size) ←
    if ← before.isFree then do
      let block ← Block.previous h.stop
      pure (block, ← Word.add gained before.size)
    else pure (h.stop, gained)
  Block.mark block size .free
  Action.store stop .sentinel
  Action.modify fun h => { h with stop := stop }
  return (block, size)

/-- Grows until the block at the end has `size` bytes, with so many requests at most. -/
def enlargeWithin (size : Nat) : Nat → Action σ (Option Nat)
  | 0 => Action.fault .endless
  | rounds + 1 => do
    let bytes := max (← Action.get).chunkSize size
    match ← Action.grow bytes with
    | some error =>
      Action.log .warn (.growRefused bytes error)
      return none
    | none =>
      let (block, total) ← annex
      Action.diag .verbose (return .enlarged bytes block total)
      if size ≤ total then return some block else enlargeWithin size rounds

/-- The free block at the end, grown to at least `size` bytes. -/
def enlarge (size : Nat) : Action σ (Option Nat) :=
  enlargeWithin size Word.limit

/-- Gives the free block at the end back, all of it that lies above the floor, once it reaches the
threshold. -/
def trim (block size : Nat) : Action σ Unit := do
  let h ← Action.get
  let reach ← Word.add block size
  if reach ≠ h.stop ∨ size < h.shrinkThreshold then return ()
  let keep := h.floor - block
  let bytes ← Word.sub size keep
  if bytes = 0 then return ()
  match ← Action.shrink bytes with
  | some error => Action.log .warn (.shrinkRefused bytes error)
  | none =>
    Action.diag .verbose (return .trimmed bytes)
    let stop := Word.backward h.stop bytes
    Action.modify fun h => { h with stop := stop }
    if keep > 0 then Block.mark block keep .free
    Action.store stop .sentinel
    clipCursor stop

end BlockHeap.Arena
