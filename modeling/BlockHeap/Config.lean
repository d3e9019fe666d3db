import BlockHeap.Word

/-!
# Configuration

What is fixed when a heap is made: where it looks for free blocks, how much it grows and when it
shrinks, and how much of what it does goes into the log.
-/

namespace BlockHeap

/-- Which of the free blocks that are large enough is taken. -/
inductive Policy where
  /-- The first one. -/
  | firstFit
  /-- The first one from where the last search ended, going round once. -/
  | nextFit
  /-- The smallest one, the first of equals. -/
  | bestFit
deriving DecidableEq, Repr

def Policy.text : Policy → String
  | .firstFit => "first fit"
  | .nextFit => "next fit"
  | .bestFit => "best fit"

/-- How much is logged beside warnings. -/
inductive Verbosity where
  | off
  /-- Every operation and its arguments. -/
  | info
  /-- Also what the operations do to the blocks. -/
  | verbose
deriving DecidableEq, Repr

namespace Verbosity

def ofLevel : Nat → Verbosity
  | 0 => off
  | 1 => info
  | _ => verbose

def rank : Verbosity → Nat
  | off => 0
  | info => 1
  | verbose => 2

def text : Verbosity → String
  | off => "Off"
  | info => "Info"
  | verbose => "Verbose"

end Verbosity

structure Config where
  policy : Policy
  /-- The least number of bytes the segment is asked for. -/
  chunkSize : Nat
  /-- A trailing free block of this size is given back. -/
  shrinkThreshold : Nat
  verbosity : Verbosity
deriving DecidableEq, Repr

/-- What is wrong with a configuration. -/
inductive ConfigError where
  | unalignedChunk
  | smallChunk
  | badThreshold
deriving DecidableEq, Repr

def ConfigError.message : ConfigError → String
  | .unalignedChunk => "chunk size must be a multiple of the block unit"
  | .smallChunk => "chunk size must be at least four block units"
  | .badThreshold => "shrink threshold must be a non-zero multiple of the block unit"

namespace Config

def defaultChunkSize : Nat := 1024

def defaultShrinkThreshold : Nat := 1024

/-- First fit, with nothing logged but warnings. -/
def standard : Config :=
  ⟨.firstFit, defaultChunkSize, defaultShrinkThreshold, .off⟩

/-- Refuses a configuration for the first thing that is wrong with it. -/
def validate (c : Config) : Except ConfigError Unit :=
  if c.chunkSize % blockUnit ≠ 0 then .error .unalignedChunk
  else if c.chunkSize < 4 * blockUnit then .error .smallChunk
  else if c.shrinkThreshold = 0 ∨ c.shrinkThreshold % blockUnit ≠ 0 then .error .badThreshold
  else .ok ()

end Config
end BlockHeap
