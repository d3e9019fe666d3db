import BlockHeap.Config
import BlockHeap.Tag

/-!
# Reports

A report lists the blocks of a heap whose chain is intact, in the order of their addresses, with
totals and with the free blocks that follow another free block.
-/

namespace BlockHeap

/-- A block as a report shows it; `offset` counts from the first block. -/
structure Report.Row where
  address : Nat
  offset : Nat
  size : Nat
  status : Status
deriving DecidableEq, Repr

structure Report where
  policy : Policy
  physicalStart : Nat
  physicalStop : Nat
  start : Nat
  stop : Nat
  /-- The offset of the block where the next search starts. -/
  cursor : Option Nat
  rows : List Report.Row
  freeBytes : Nat
  allocatedBytes : Nat
  /-- The offsets of free blocks that follow a free block. -/
  adjacentFree : List Nat
deriving DecidableEq, Repr

namespace Report

/-- The bytes of a block that its owner may use. -/
def Row.payload (row : Row) : Except Fault Nat :=
  Word.sub row.size (2 * wordSize)

def count (r : Report) (status : Status) : Nat :=
  r.rows.countP (·.status = status)

/-- The report with one more block, which comes after a free one or not. -/
def push (r : Report) (afterFree : Bool) (row : Row) : Except Fault Report := do
  let r := { r with rows := r.rows ++ [row] }
  match row.status with
  | .free =>
    let freeBytes ← Word.add r.freeBytes row.size
    let adjacentFree := if afterFree then r.adjacentFree ++ [row.offset] else r.adjacentFree
    return { r with freeBytes, adjacentFree }
  | .allocated =>
    let allocatedBytes ← Word.add r.allocatedBytes row.size
    return { r with allocatedBytes }

/-- Whether no free block follows a free block. -/
def consistent (r : Report) : Bool :=
  r.adjacentFree.isEmpty

/-- The same report with every address `a` shown as `f a`. -/
def mapAddresses (f : Nat → Nat) (r : Report) : Report :=
  { r with
    physicalStart := f r.physicalStart
    physicalStop := f r.physicalStop
    start := f r.start
    stop := f r.stop
    rows := r.rows.map fun row => { row with address := f row.address } }

/-- A line of the table: columns of 14, 8, 10, 10 and 8 characters, and the status. -/
def tableLine (address offset hex decimal payload status : String) : String :=
  "    " ++ Hex.padRight 14 address ++ "  " ++ Hex.padLeft 8 offset ++ "  " ++
    Hex.padLeft 10 hex ++ "  " ++ Hex.padLeft 10 decimal ++ "  " ++ Hex.padLeft 8 payload ++
    "  " ++ status ++ "\n"

def Row.line (row : Row) : Except Fault String := do
  let payload ← row.payload
  return tableLine (Hex.ofNat row.address) (Hex.ofNat row.offset) (Hex.ofNat row.size)
    (toString row.size) (toString payload) row.status.text

/-- The printed report. It faults at a row too small to have a payload. -/
def text (r : Report) : Except Fault String := do
  let cursor := match r.cursor with
    | some offset => Hex.ofNat offset
    | none => "-"
  let lines ← r.rows.mapM Row.line
  return "  physical start:     " ++ Hex.ofNat r.physicalStart ++ "\n" ++
    "  physical end:       " ++ Hex.ofNat r.physicalStop ++ "\n" ++
    "  logical start:      " ++ Hex.ofNat r.start ++ "\n" ++
    "  logical end:        " ++ Hex.ofNat r.stop ++ "\n" ++
    "  search mode:        " ++ r.policy.text ++ "\n" ++
    "  next fit cursor:    " ++ cursor ++ "\n\n" ++
    tableLine "address" "offset" "size (hex)" "size (dec)" "payload" "status" ++
    String.join lines ++ "\n" ++
    s!"  {r.rows.length} blocks: {r.count .free} free ({r.freeBytes} bytes), " ++
    s!"{r.count .allocated} allocated ({r.allocatedBytes} bytes)\n" ++
    String.join (r.adjacentFree.map fun offset =>
      "  --> free block at " ++ Hex.ofNat offset ++ " follows another free block\n") ++
    if r.consistent then "  Block structure coherent.\n" else ""

end Report
end BlockHeap
