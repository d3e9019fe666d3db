import BlockHeap.Arena.Growth

/-!
# Allocating, freeing and resizing

A request takes a free block and splits off what it does not need. A block that is freed is merged
with its free neighbours at once, so that no two free blocks are neighbours. A block changes its
size in place if it can and moves otherwise.

Payloads are given and taken as addresses, with `none` for no address.
-/

namespace BlockHeap.Arena

variable {σ : Type} [Segment σ]

/-- Makes `block` an allocated block of `size` bytes. The rest becomes a free block if it can stand
on its own, and stays with the block otherwise. -/
def carve (block size : Nat) : Action σ Unit := do
  let total ← Block.size block
  if (← Word.add size minBlockSize) ≤ total then
    Action.diag .verbose (return .split block size (← Word.sub total size))
    Block.mark block size .allocated
    Block.mark (Word.forward block size) (total - size) .free
  else Block.mark block total .allocated

/-- Merges the free block of `size` bytes with the block before it if that one is free. -/
def mergeBefore (block size : Nat) : Action σ (Nat × Nat) := do
  let before ← Block.tagBefore block
  if ← before.isFree then
    let merged ← Block.previous block
    let size ← Word.add size before.size
    Action.diag .verbose (return .mergedBefore merged)
    Block.mark merged size .free
    return (merged, size)
  else return (block, size)

/-- Merges the free block of `size` bytes with the block after it if that one is free. -/
def mergeAfter (block size : Nat) : Action σ Nat := do
  let next ← Block.next block
  let after ← Action.load next
  if ← after.isFree then
    let size ← Word.add size after.size
    Action.diag .verbose (return .mergedAfter next)
    Block.mark block size .free
    return size
  else return size

/-- Makes `block` free, merges it with its free neighbours, and gives it back if it is the last one
and large enough. -/
def release (block : Nat) : Action σ Unit := do
  let size ← Block.size block
  Block.mark block size .free
  let (block, size) ← mergeBefore block size
  let size ← mergeAfter block size
  pullCursor block size
  trim block size

/-- A free block of at least `size` bytes, found or grown. -/
def obtain (size : Nat) : Action σ (Option Nat) := do
  match ← find size with
  | some block => return some block
  | none => enlarge size

/-- A payload of at least `size` bytes; none if `size` is 0 or there is no room. -/
def allocate (size : Nat) : Action σ (Option Nat) := do
  Action.diag .info (return .allocate size)
  if size = 0 then return none
  match Block.sizeFor size with
  | none => return none
  | some blockSize =>
    match ← obtain blockSize with
    | none => return none
    | some block =>
      carve block blockSize
      Action.diag .verbose (return .handedOut block (← Block.size block))
      return some (Block.payload block)

/-- A payload of `count * size` zero bytes; none if the product is 0 or no word. -/
def allocateZeroed (count size : Nat) : Action σ (Option Nat) := do
  Action.diag .info (return .allocateZeroed count size)
  if count * size < Word.limit then
    match ← allocate (count * size) with
    | none => return none
    | some payload =>
      Action.modify fun h =>
        { h with memory := h.memory.fill payload (payload + count * size) 0 }
      return some payload
  else return none

/-- Frees a payload. One whose block is free already is left alone. -/
def free (payload : Option Nat) : Action σ Unit := do
  Action.diag .info (return .free payload)
  match payload with
  | none => return ()
  | some address =>
    let block := Block.ofPayload address
    if ← (← Action.load block).isFree then Action.log .warn (.alreadyFree address)
    else release block

/-- Cuts an allocated block of `old` bytes down to `new` bytes and frees the rest. -/
def shrinkInPlace (block old new : Nat) : Action σ Unit := do
  Action.diag .verbose (return .shrinking block new)
  Block.mark block new .allocated
  let rest := Word.forward block new
  Block.mark rest (old - new) .allocated
  release rest

/-- Takes the free block after an allocated one in, `available` bytes together, and cuts the result
down to `new` bytes. -/
def growInPlace (block available new : Nat) : Action σ Unit := do
  Action.diag .verbose (return .growing block new)
  Block.mark block available .allocated
  pullCursor block available
  carve block new

/-- Allocates `size` bytes, copies what fits of the block of `old` bytes that owns `payload`, and
frees it. -/
def move (payload old size : Nat) : Action σ (Option Nat) := do
  match ← allocate size with
  | none => return none
  | some target =>
    let kept ← Word.sub old (2 * wordSize)
    Action.modify fun h => { h with memory := h.memory.copy payload target (min kept size) }
    free (some payload)
    return some target

/-- Changes the size of a payload: in place when it shrinks or when the block after it is free and
large enough, else by moving it. Without a payload it allocates, with size 0 it frees. -/
def resize (payload : Option Nat) (size : Nat) : Action σ (Option Nat) := do
  Action.diag .info (return .resize payload size)
  match payload with
  | none => allocate size
  | some address =>
    if size = 0 then
      free payload
      return none
    let block := Block.ofPayload address
    let old ← Block.size block
    match Block.sizeFor size with
    | none => return none
    | some new =>
      if new = old then return payload
      else if new < old then
        shrinkInPlace block old new
        return payload
      else
        let after ← Action.load (← Block.next block)
        let available ← Word.add old after.size
        if (← after.isFree) && new ≤ available then
          growInPlace block available new
          return payload
        else move address old size

end BlockHeap.Arena
