import BlockHeap.Fault

/-!
# Machine words

Sizes and addresses are natural numbers below `Word.limit`. Sizes are added and subtracted with a
check, `Word.add` and `Word.sub`; addresses move round the end of the address space,
`Word.forward` and `Word.backward`.
-/

namespace BlockHeap

/-- Bytes in a word. -/
abbrev wordSize : Nat := 8

/-- Block sizes and block addresses are multiples of this many bytes. -/
abbrev blockUnit : Nat := 32

/-- The least block holds both tags and one unit of payload. -/
abbrev minBlockSize : Nat := 32

namespace Word

/-- The number of words of 64 bits, and of addresses. -/
abbrev limit : Nat := 0x10000000000000000

def add (a b : Nat) : Except Fault Nat :=
  if a + b < limit then .ok (a + b) else .error .addOverflow

def sub (a b : Nat) : Except Fault Nat :=
  if b ≤ a then .ok (a - b) else .error .subOverflow

/-- The address `n` bytes after `a`. -/
def forward (a n : Nat) : Nat :=
  (a + n) % limit

/-- The address `n` bytes before `a`. -/
def backward (a n : Nat) : Nat :=
  (a + (limit - n % limit)) % limit

/-- The last multiple of the block unit that is not above `a`. -/
def floorUnit (a : Nat) : Nat :=
  a / blockUnit * blockUnit

theorem add_of_lt {a b : Nat} (h : a + b < limit) : add a b = .ok (a + b) :=
  if_pos h

theorem sub_of_le {a b : Nat} (h : b ≤ a) : sub a b = .ok (a - b) :=
  if_pos h

theorem forward_of_lt {a n : Nat} (h : a + n < limit) : forward a n = a + n :=
  Nat.mod_eq_of_lt h

theorem backward_of_le {a n : Nat} (h : n ≤ a) (ha : a < limit) : backward a n = a - n := by
  unfold backward
  rw [Nat.mod_eq_of_lt (show n < limit by omega), show a + (limit - n) = (a - n) + limit by omega,
    Nat.add_mod_right, Nat.mod_eq_of_lt (by omega)]

end Word
end BlockHeap
