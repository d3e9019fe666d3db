import BlockHeap.Word

/-!
# Rounding to a power of two

Rounding works by masking in two's complement. Each sum and each difference on the way is checked
against the range of the integer type, from left to right, so rounding up can fault although its
answer would fit.
-/

namespace BlockHeap

/-- A fixed-width integer type. -/
structure IntKind where
  bits : Nat
  signed : Bool
deriving DecidableEq, Repr

namespace IntKind

def u8 : IntKind := ⟨8, false⟩
def u16 : IntKind := ⟨16, false⟩
def u32 : IntKind := ⟨32, false⟩
def word : IntKind := ⟨64, false⟩
def i8 : IntKind := ⟨8, true⟩
def i32 : IntKind := ⟨32, true⟩
def i64 : IntKind := ⟨64, true⟩

/-- The least value of the type. -/
def least (k : IntKind) : Int :=
  if k.signed then -(1 <<< (k.bits - 1) : Nat) else 0

/-- One more than the greatest value of the type. -/
def bound (k : IntKind) : Int :=
  if k.signed then (1 <<< (k.bits - 1) : Nat) else (1 <<< k.bits : Nat)

def Contains (k : IntKind) (v : Int) : Prop :=
  k.least ≤ v ∧ v < k.bound

instance (k : IntKind) (v : Int) : Decidable (k.Contains v) :=
  inferInstanceAs (Decidable (_ ∧ _))

def add (k : IntKind) (a b : Int) : Except Fault Int :=
  if k.Contains (a + b) then .ok (a + b) else .error .addOverflow

def sub (k : IntKind) (a b : Int) : Except Fault Int :=
  if k.Contains (a - b) then .ok (a - b) else .error .subOverflow

/-- The bit pattern of a value. -/
def toBits (k : IntKind) (v : Int) : Nat :=
  (v % (1 <<< k.bits : Nat)).toNat

/-- The value of a bit pattern. -/
def ofBits (k : IntKind) (n : Nat) : Int :=
  if (n : Int) < k.bound then n else (n : Int) - (1 <<< k.bits : Nat)

/-- The bits of `v` that are not set in `m`. -/
def clear (k : IntKind) (v m : Int) : Int :=
  k.ofBits (k.toBits v &&& ((1 <<< k.bits) - 1 - k.toBits m))

/-- `value` rounded up to a multiple of `unit`, where `unit` is a power of two. -/
def alignUp (k : IntKind) (value unit : Int) : Except Fault Int := do
  let sum ← k.add value unit
  let raised ← k.sub sum 1
  let mask ← k.sub unit 1
  return k.clear raised mask

/-- `value` rounded down to a multiple of `unit`, where `unit` is a power of two. -/
def alignDown (k : IntKind) (value unit : Int) : Except Fault Int := do
  let mask ← k.sub unit 1
  return k.clear value mask

end IntKind

/-- `value` rounded up to a multiple of `unit` in machine words. -/
def Word.alignUp (value unit : Nat) : Except Fault Nat :=
  (IntKind.word.alignUp value unit).map Int.toNat

end BlockHeap
