import BlockHeap.Arena.Block
import BlockHeap.Report

/-!
# Checking an arena

A check walks along the headers from the first block to the end and compares every header with its
footer and both sentinels with what they should be. On the way it adds the blocks to a report. It
changes nothing, and answers with the report or with the first damage it meets.
-/

namespace BlockHeap

/-- One of the two ends of the chain. -/
inductive Side where
  | start
  | stop
deriving DecidableEq, Repr

def Side.text : Side → String
  | .start => "start"
  | .stop => "end"

/-- What a check found; offsets count from the first block. -/
inductive Damage where
  | tagMismatch (offset : Nat) (header footer : Tag)
  | zeroSize (offset : Nat)
  /-- The block ends beyond the end of the chain. -/
  | overrun (offset size : Nat)
  /-- The header's status bits hold no status. -/
  | damagedTag (offset : Nat) (tag : Tag)
  | badSentinel (side : Side) (tag : Tag)
deriving DecidableEq, Repr

def Damage.message : Damage → String
  | .tagMismatch offset header footer =>
    "block at offset " ++ Hex.ofNat offset ++ ": header " ++ header.text ++
      " does not match footer " ++ footer.text
  | .zeroSize offset => "block at offset " ++ Hex.ofNat offset ++ " has size 0, traversal aborted"
  | .overrun offset size =>
    "block at offset " ++ Hex.ofNat offset ++ " with size " ++ Hex.ofNat size ++
      " runs past the logical end"
  | .damagedTag offset tag =>
    "block at offset " ++ Hex.ofNat offset ++ " has a damaged tag " ++ tag.text
  | .badSentinel side tag =>
    side.text ++ " sentinel is " ++ tag.text ++ ", expected an allocated half-block of size 0"

/-- Why a check gives no report. -/
inductive CheckError where
  | damage (d : Damage)
  | fault (f : Fault)
deriving DecidableEq, Repr

namespace Arena

variable {σ : Type}

def checkSentinel (side : Side) (tag : Tag) : Except CheckError Unit :=
  if tag = .sentinel then .ok () else .error (.damage (.badSentinel side tag))

/-- The block at `block`, unless it is damaged. -/
def checkBlock (h : Arena σ) (block : Nat) : Except CheckError Report.Row := do
  let offset := block - h.start
  let header : Tag := ⟨h.memory.word block⟩
  if header.size = 0 then throw (.damage (.zeroSize offset))
  let stop ← (Word.add block header.size).mapError .fault
  if h.stop < stop then throw (.damage (.overrun offset header.size))
  match header.status? with
  | none => throw (.damage (.damagedTag offset header))
  | some status =>
    let footer : Tag := ⟨h.memory.word (Block.footer block header.size)⟩
    if footer ≠ header then throw (.damage (.tagMismatch offset header footer))
    return ⟨block, offset, header.size, status⟩

/-- Goes on from `block` to the end sentinel, where `report` is about the blocks before it and
`afterFree` says whether the last of them is free. -/
def checkFrom (h : Arena σ) : Nat → Nat → Bool → Report → Except CheckError Report
  | 0, _, _, _ => .error (.fault .endless)
  | steps + 1, block, afterFree, report =>
    if h.stop ≤ block then do
      checkSentinel .stop ⟨h.memory.word block⟩
      return report
    else do
      let row ← h.checkBlock block
      let report ← (report.push afterFree row).mapError .fault
      h.checkFrom steps (block + row.size) (row.status = .free) report

/-- The report on the arena, or the first damage. -/
def check [Segment σ] (h : Arena σ) : Except CheckError Report := do
  checkSentinel .start ⟨h.memory.word (Word.backward h.start wordSize)⟩
  let cursor ← match h.placement.cursor with
    | some block => some <$> (Word.sub block h.start).mapError .fault
    | none => pure none
  h.checkFrom h.walkLimit h.start false {
    policy := h.placement.policy
    physicalStart := Segment.start h.segment
    physicalStop := Segment.stop h.segment
    start := h.start
    stop := h.stop
    cursor := cursor
    rows := []
    freeBytes := 0
    allocatedBytes := 0
    adjacentFree := [] }

end Arena
end BlockHeap
