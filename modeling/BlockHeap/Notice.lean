import BlockHeap.Config
import BlockHeap.Segment.Basic

/-!
# Notices and records

A notice is what a log can say, as data: what happened, at which addresses and with which sizes. A
record of the log is a notice with the severity that it is logged at.
-/

namespace BlockHeap

inductive Severity where
  | warn
  | info
  | debug
deriving DecidableEq, Repr

namespace Severity

def text : Severity → String
  | warn => "WARN"
  | info => "INFO"
  | debug => "DEBUG"

end Severity

/-- The severity of what is logged at a verbosity; nothing is logged at `off`. -/
def Verbosity.severity? : Verbosity → Option Severity
  | .off => none
  | .info => some .info
  | .verbose => some .debug

inductive Notice where
  | laidOut (policy : Policy) (size start pageSize : Nat)
  | allocate (size : Nat)
  | allocateZeroed (count size : Nat)
  | free (payload : Option Nat)
  | resize (payload : Option Nat) (size : Nat)
  | handedOut (block size : Nat)
  | shrinking (block size : Nat)
  | growing (block size : Nat)
  | split (block size rest : Nat)
  | mergedBefore (block : Nat)
  | mergedAfter (block : Nat)
  | trimmed (bytes : Nat)
  | enlarged (bytes block size : Nat)
  | alreadyFree (payload : Nat)
  | shrinkRefused (bytes : Nat) (error : SegmentError)
  | growRefused (bytes : Nat) (error : SegmentError)
  | undropped (warning : SegmentWarning)
deriving DecidableEq, Repr

namespace Notice

/-- An optional address. -/
def pointerText : Option Nat → String
  | some a => "Some(" ++ Hex.ofNat a ++ ")"
  | none => "None"

def text : Notice → String
  | laidOut policy size start pageSize =>
    "init: " ++ policy.text ++ " heap, " ++ Hex.ofNat size ++ " bytes at " ++ Hex.ofNat start ++
      s!", page size {pageSize}"
  | allocate size => "allocate(" ++ Hex.ofNat size ++ ")"
  | allocateZeroed count size =>
    "zeroed_allocate(" ++ Hex.ofNat count ++ ", " ++ Hex.ofNat size ++ ")"
  | free payload => "free(" ++ pointerText payload ++ ")"
  | resize payload size => "resize(" ++ pointerText payload ++ ", " ++ Hex.ofNat size ++ ")"
  | handedOut block size =>
    "  -> block " ++ Hex.ofNat block ++ " of " ++ Hex.ofNat size ++ " bytes"
  | shrinking block size => "  shrinking " ++ Hex.ofNat block ++ " in place to " ++ Hex.ofNat size
  | growing block size => "  growing " ++ Hex.ofNat block ++ " in place to " ++ Hex.ofNat size
  | split block size rest =>
    "  split " ++ Hex.ofNat block ++ ": " ++ Hex.ofNat size ++ " + " ++ Hex.ofNat rest
  | mergedBefore block => "  coalesce with previous block " ++ Hex.ofNat block
  | mergedAfter block => "  coalesce with next block " ++ Hex.ofNat block
  | trimmed bytes => "  shrink heap by " ++ Hex.ofNat bytes ++ " bytes"
  | enlarged bytes block size =>
    "  grew heap by " ++ Hex.ofNat bytes ++ " bytes, trailing free block " ++ Hex.ofNat block ++
      " of " ++ Hex.ofNat size ++ " bytes"
  | alreadyFree payload => "free of already free block at " ++ Hex.ofNat payload ++ " ignored"
  | shrinkRefused bytes error =>
    "could not return " ++ Hex.ofNat bytes ++ " bytes to the segment: " ++ error.message
  | growRefused bytes error =>
    "heap exhausted, could not grow by " ++ Hex.ofNat bytes ++ " bytes: " ++ error.message
  | undropped warning => warning.message

/-- The same notice with every address `a` shown as `f a`. -/
def mapAddresses (f : Nat → Nat) : Notice → Notice
  | laidOut policy size start pageSize => laidOut policy size (f start) pageSize
  | free payload => free (payload.map f)
  | resize payload size => resize (payload.map f) size
  | handedOut block size => handedOut (f block) size
  | shrinking block size => shrinking (f block) size
  | growing block size => growing (f block) size
  | split block size rest => split (f block) size rest
  | mergedBefore block => mergedBefore (f block)
  | mergedAfter block => mergedAfter (f block)
  | enlarged bytes block size => enlarged bytes (f block) size
  | alreadyFree payload => alreadyFree (f payload)
  | n => n

end Notice

structure Record where
  severity : Severity
  notice : Notice
deriving DecidableEq, Repr

namespace Record

def text (r : Record) : String :=
  r.severity.text ++ " " ++ r.notice.text

/-- The same record with every address `a` shown as `f a`. -/
def mapAddresses (f : Nat → Nat) (r : Record) : Record :=
  { r with notice := r.notice.mapAddresses f }

end Record
end BlockHeap
