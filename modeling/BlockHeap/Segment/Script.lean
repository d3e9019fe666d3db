import BlockHeap.Segment.Basic

/-!
# Scripted segments

A scripted segment follows two lists of verdicts, one for the requests to grow and one for the
requests to shrink, and grants everything once a list is used up. Its bytes survive both.
-/

namespace BlockHeap

inductive Verdict where
  /-- Grant what is asked. -/
  | grant
  /-- Grant `bytes` bytes of growth, whatever is asked. -/
  | grantOnly (bytes : Nat)
  /-- Refuse for want of bytes. -/
  | deny
  /-- Refuse because the system failed. -/
  | unmapped
deriving DecidableEq, Repr

structure Script where
  base : Nat
  capacity : Nat
  committed : Nat
  pageSize : Nat
  growth : List Verdict
  shrinkage : List Verdict
deriving DecidableEq, Repr

namespace Script

/-- Moves the break up by `bytes` if there is room, for a request of `asked` bytes. -/
def raise (asked bytes : Nat) (s : Script) (memory : Memory) : Segment.Move Script :=
  if s.capacity - s.committed < bytes then
    ⟨some (.exhausted asked (s.capacity - s.committed)), s, memory, []⟩
  else ⟨none, { s with committed := s.committed + bytes }, memory, []⟩

def grow (asked : Nat) (s : Script) (memory : Memory) : Segment.Move Script :=
  let next := { s with growth := s.growth.tail }
  match s.growth.headD .grant with
  | .grant => next.raise asked asked memory
  | .grantOnly bytes => next.raise asked bytes memory
  | .deny => ⟨some (.exhausted asked 0), next, memory, []⟩
  | .unmapped => ⟨some .unmapped, next, memory, []⟩

def shrink (asked : Nat) (s : Script) (memory : Memory) : Segment.Move Script :=
  let next := { s with shrinkage := s.shrinkage.tail }
  match s.shrinkage.headD .grant with
  | .deny => ⟨some (.underflow asked 0), next, memory, []⟩
  | .unmapped => ⟨some .unmapped, next, memory, []⟩
  | .grant | .grantOnly _ =>
    if s.committed < asked then ⟨some (.underflow asked s.committed), next, memory, []⟩
    else ⟨none, { next with committed := s.committed - asked }, memory, []⟩

instance : Segment Script where
  start := base
  committed := committed
  pageSize := pageSize
  grow := grow
  shrink := shrink

end Script
end BlockHeap
