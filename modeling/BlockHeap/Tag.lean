import BlockHeap.Word

/-!
# Boundary tags

Every block starts and ends with one word that holds its size and its status. Sizes are multiples
of the block unit, so their low bits are free to carry the status.
-/

namespace BlockHeap

inductive Status where
  | free
  | allocated
deriving DecidableEq, Repr

namespace Status

def text : Status → String
  | free => "free"
  | allocated => "allocated"

/-- The low bits that stand for a status. -/
def bits : Status → Nat
  | free => 0
  | allocated => 1

end Status

/-- A word read as size and status. -/
structure Tag where
  bits : Nat
deriving DecidableEq, Repr

namespace Tag

/-- The allocated half-block of size 0 that bounds the heap on both sides. -/
def sentinel : Tag := ⟨1⟩

def pack (size : Nat) (status : Status) : Except Fault Tag :=
  if size % blockUnit = 0 then .ok ⟨size + status.bits⟩ else .error (.unalignedSize size)

def size (t : Tag) : Nat :=
  Word.floorUnit t.bits

/-- The status, unless the low bits hold neither. -/
def status? (t : Tag) : Option Status :=
  match t.bits % blockUnit with
  | 0 => some .free
  | 1 => some .allocated
  | _ => none

def status (t : Tag) : Except Fault Status :=
  match t.status? with
  | some status => .ok status
  | none => .error (.corruptTag t.bits)

def isFree (t : Tag) : Except Fault Bool :=
  return (← t.status) = .free

def text (t : Tag) : String :=
  match t.status? with
  | some status => "Tag(" ++ Hex.ofNat t.size ++ ", " ++ status.text ++ ")"
  | none => "Tag(<corrupt " ++ Hex.ofNat t.bits ++ ">)"

theorem pack_of_dvd {size : Nat} (h : size % blockUnit = 0) (status : Status) :
    pack size status = .ok ⟨size + status.bits⟩ :=
  if_pos h

theorem size_add_bits {size : Nat} (h : size % blockUnit = 0) (status : Status) :
    Tag.size ⟨size + status.bits⟩ = size := by
  simp only [blockUnit] at h
  cases status <;> simp only [Tag.size, Word.floorUnit, Status.bits, blockUnit] <;> omega

theorem status?_add_bits {size : Nat} (h : size % blockUnit = 0) (status : Status) :
    Tag.status? ⟨size + status.bits⟩ = some status := by
  simp only [blockUnit] at h
  cases status <;> simp only [Tag.status?, Status.bits, blockUnit]
  · simp [h]
  · simp [show (size + 1) % 32 = 1 by omega]

end Tag
end BlockHeap
