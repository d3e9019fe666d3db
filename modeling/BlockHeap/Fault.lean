import BlockHeap.Hex

/-!
# Faults

A fault stops an operation half way: what was written before it stays written.
-/

namespace BlockHeap

inductive Fault where
  /-- The status bits of a boundary tag hold no status. -/
  | corruptTag (bits : Nat)
  /-- A tag was to be made for a size that is not a multiple of the block unit. -/
  | unalignedSize (size : Nat)
  | addOverflow
  | subOverflow
  /-- A walk came back to where it was, or a segment granted nothing for ever. -/
  | endless
deriving DecidableEq, Repr

def Fault.message : Fault → String
  | .corruptTag bits => "corrupt boundary tag " ++ Hex.ofNat bits
  | .unalignedSize size =>
    "block size " ++ Hex.ofNat size ++ " is not a multiple of the 32-byte block unit"
  | .addOverflow => "attempt to add with overflow"
  | .subOverflow => "attempt to subtract with overflow"
  | .endless => "the operation does not end"

end BlockHeap
