import BlockHeap.Arena.Basic

/-!
# Blocks

A block is known by the address of its header. Its payload lies right after the header, its footer
in its last word, and both tags hold its size: adding it to the header's address leads to the next
block, taking the size in the footer before a header away from it leads to the previous one.
-/

namespace BlockHeap.Block

/-- The address that callers get for the block. -/
def payload (block : Nat) : Nat :=
  Word.forward block wordSize

/-- The block that owns a payload. -/
def ofPayload (payload : Nat) : Nat :=
  Word.backward payload wordSize

/-- The footer of a block of `size` bytes. -/
def footer (block size : Nat) : Nat :=
  Word.backward (Word.forward block size) wordSize

/-- The least block size that holds `size` bytes of payload, unless it is no word. -/
def sizeFor (size : Nat) : Option Nat :=
  let size := Word.floorUnit (size + 2 * wordSize + (blockUnit - 1))
  if size < Word.limit then some size else none

variable {σ : Type} [Segment σ]

def size (block : Nat) : Action σ Nat :=
  return (← Action.load block).size

/-- The block right after `block`. After the last one it is the end sentinel. -/
def next (block : Nat) : Action σ Nat :=
  return Word.forward block (← size block)

/-- The footer of the block right before `block`. Before the first one it is the start sentinel. -/
def tagBefore (block : Nat) : Action σ Tag :=
  Action.load (Word.backward block wordSize)

/-- The block right before `block`. -/
def previous (block : Nat) : Action σ Nat :=
  return Word.backward block (← tagBefore block).size

/-- Writes both tags of a block of `size` bytes. -/
def mark (block size : Nat) (status : Status) : Action σ Unit := do
  let tag ← Tag.pack size status
  Action.store block tag
  Action.store (footer block size) tag

end BlockHeap.Block
