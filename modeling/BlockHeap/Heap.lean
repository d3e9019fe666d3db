import BlockHeap.Arena.Allocation
import BlockHeap.Arena.Check

/-!
# Heaps

A heap is an arena for its callers. Its operations are those of the arena; each answers with what it
logged.
-/

namespace BlockHeap

/-- Why no heap was made. -/
inductive InitError where
  | config (error : ConfigError)
  | zeroPageSize
  /-- The segment had committed bytes already. -/
  | notFresh (committed : Nat)
  | segment (error : SegmentError)
  /-- The segment's first bytes do not hold a block and two sentinels. -/
  | tooSmall (committed : Nat)
  | fault (f : Fault)
deriving DecidableEq, Repr

def InitError.message : InitError → String
  | .config error => "invalid heap configuration: " ++ error.message
  | .zeroPageSize => "segment reported a page size of 0"
  | .notFresh committed =>
    s!"segment already has {committed} committed bytes, expected a fresh segment"
  | .segment error => error.message
  | .tooSmall committed => s!"segment of {committed} bytes cannot hold a single block"
  | .fault f => f.message

/-- What an operation on an `ω` answers: its result, the `ω` after it, and what it logged. -/
structure Outcome (ω α : Type) where
  result : Except Fault α
  state : ω
  log : List Record

namespace Arena

variable {σ : Type} [Segment σ]

/-- Writes the sentinels and one free block between them. -/
def layOut : Action σ Unit := do
  let h ← Action.get
  Action.store (Word.backward h.start wordSize) .sentinel
  Block.mark h.start h.capacity .free
  Action.store h.stop .sentinel
  Action.diag .info
    (return .laidOut h.placement.policy (← Word.sub h.stop h.start) h.start h.pageSize)

/-- An arena in a fresh segment, grown by one chunk, with what happened on the way. -/
def create (segment : σ) (memory : Memory) (config : Config) :
    Except InitError (Arena σ × List Event) := do
  config.validate.mapError .config
  let pageSize := Segment.pageSize segment
  if pageSize = 0 then throw .zeroPageSize
  let committed := Segment.committed segment
  if committed ≠ 0 then throw (.notFresh committed)
  let move := Segment.grow config.chunkSize segment memory
  if let some error := move.refusal then throw (.segment error)
  let start ← (firstBlock (Segment.start move.segment)).mapError .fault
  let stop ← (endSentinel (Segment.stop move.segment)).mapError .fault
  if stop < start + minBlockSize then throw (.tooSmall (Segment.committed move.segment))
  let reply := layOut {
    segment := move.segment
    memory := move.memory
    pageSize, start, stop
    placement := .ofPolicy config.policy
    chunkSize := config.chunkSize
    shrinkThreshold := config.shrinkThreshold
    floor := stop
    verbosity := config.verbosity }
  reply.result.mapError .fault
  return (reply.arena, .grow config.chunkSize :: Action.echo move ++ reply.events)

end Arena

structure Heap (σ : Type) where
  arena : Arena σ

namespace Heap

variable {σ α : Type} [Segment σ]

/-- A heap in a fresh segment, and what is logged of its making. -/
def create (segment : σ) (memory : Memory) (config : Config) :
    Except InitError (Heap σ × List Record) := do
  let (arena, events) ← Arena.create segment memory config
  return (⟨arena⟩, Event.records events)

def verbosity (h : Heap σ) : Verbosity :=
  h.arena.verbosity

def setVerbosity (h : Heap σ) (level : Verbosity) : Heap σ :=
  ⟨{ h.arena with verbosity := level }⟩

/-- Runs an action of the arena. -/
def run (h : Heap σ) (action : Action σ α) : Outcome (Heap σ) α :=
  let reply := action h.arena
  ⟨reply.result, ⟨reply.arena⟩, Event.records reply.events⟩

def allocate (h : Heap σ) (size : Nat) : Outcome (Heap σ) (Option Nat) :=
  h.run (Arena.allocate size)

def allocateZeroed (h : Heap σ) (count size : Nat) : Outcome (Heap σ) (Option Nat) :=
  h.run (Arena.allocateZeroed count size)

def free (h : Heap σ) (payload : Option Nat) : Outcome (Heap σ) Unit :=
  h.run (Arena.free payload)

def resize (h : Heap σ) (payload : Option Nat) (size : Nat) : Outcome (Heap σ) (Option Nat) :=
  h.run (Arena.resize payload size)

def check (h : Heap σ) : Except CheckError Report :=
  h.arena.check

end Heap
end BlockHeap
